import NineWire.Ledger
import NineWire.Server.FidTable
import NineWire.Server.StepCases
import NineWire.Wire.RoundTrip

/-! The session log as a ledger: every datagram that is owed a reply opens an
obligation, every reply settles one, and a flush assigned over another drops
it. From the ledger, exactly one reply per request. -/
namespace NineWire.Server
open NineWire.Wire NineWire.Ledger NineWire.Transition

def Event.entry : Event → Option (Entry Owed)
  | .received serial incoming initialized => (owes serial incoming initialized).map .accept
  | .sent owed _ _ => some (.settle owed)
  | .displaced owed => some (.drop owed)

def ledger (log : List Event) : List (Entry Owed) := log.filterMap Event.entry

/-- The replies a future stands for: its own, and the flush parked on it. -/
def TaggedFuture.owed (fut : TaggedFuture) : List Owed := fut.tag :: fut.flushes.toList

def Pc.owed : Pc → List Owed
  | .reply tag flushes _ => tag :: flushes.toList
  | .flush tag => [tag]
  | _ => []

variable {W P O : Type} {handler : Serve W P O} {s s' : Session W P O} {a : Action}

def Session.unanswered (s : Session W P O) : Multiset Owed :=
  (s.inflight.flatMap TaggedFuture.owed ++ s.pc.owed ++ s.nextSession.toList.map Prod.fst :
    List Owed)

theorem mem_unanswered {owed : Owed} : owed ∈ s.unanswered ↔
    (∃ fut ∈ s.inflight, owed ∈ fut.owed) ∨ owed ∈ s.pc.owed ∨
      ∃ req, s.nextSession = some (owed, req) := by
  simp [Session.unanswered]

theorem mem_unanswered_of_inflight {fut : TaggedFuture} (h : fut ∈ s.inflight) :
    fut.tag ∈ s.unanswered :=
  mem_unanswered.mpr (.inl ⟨fut, h, List.mem_cons_self⟩)

@[simp] theorem ledger_received (serial : Nat) (incoming : Bytes) (initialized : Bool)
    (log : List Event) : ledger (.received serial incoming initialized :: log) =
      ((owes serial incoming initialized).map Entry.accept).toList ++ ledger log := by
  cases h : owes serial incoming initialized <;> simp [ledger, Event.entry, h]

@[simp] theorem ledger_sent (owed : Owed) (resp : RMessage) (bytes : Bytes) (log : List Event) :
    ledger (.sent owed resp bytes :: log) = .settle owed :: ledger log := rfl

@[simp] theorem ledger_displaced (flushes : Option Owed) (log : List Event) :
    ledger (flushes.toList.map .displaced ++ log) =
      flushes.toList.map .drop ++ ledger log := by
  cases flushes <;> rfl

theorem owes_serial {serial : Nat} {incoming : Bytes} {initialized : Bool} {owed : Owed}
    (h : owes serial incoming initialized = some owed) : owed.serial = serial := by
  cases owes_cases h <;> rfl

theorem count_flatMap_eraseIdx {l : List TaggedFuture} {i : Nat} {fut : TaggedFuture}
    (h : l[i]? = some fut) (o : Owed) :
    (l.flatMap TaggedFuture.owed).count o =
      fut.owed.count o + ((l.eraseIdx i).flatMap TaggedFuture.owed).count o := by
  obtain ⟨hi, rfl⟩ := List.getElem?_eq_some_iff.mp h
  have hperm := (List.getElem_cons_eraseIdx_perm hi).flatMap_right TaggedFuture.owed
  rw [← hperm.count_eq o, List.flatMap_cons, List.count_append]

theorem count_flatMap_set {l : List TaggedFuture} {i : Nat} {fut : TaggedFuture}
    (h : l[i]? = some fut) (fut' : TaggedFuture) (o : Owed) :
    ((l.set i fut').flatMap TaggedFuture.owed).count o =
      fut'.owed.count o + ((l.eraseIdx i).flatMap TaggedFuture.owed).count o := by
  obtain ⟨hi, -⟩ := List.getElem?_eq_some_iff.mp h
  have hperm := (List.set_perm_cons_eraseIdx hi fut').flatMap_right TaggedFuture.owed
  rw [hperm.count_eq o, List.flatMap_cons, List.count_append]

structure Session.Accounted (s : Session W P O) : Prop where
  balanced : Balanced (ledger s.log) s.unanswered
  fresh : ∀ owed ∈ accepted (ledger s.log), owed.serial < s.serial

theorem start_accounted (world : W) : (Session.start world : Session W P O).Accounted where
  balanced := by
    have h : (Session.start world : Session W P O).unanswered = 0 := rfl
    rw [h]
    exact .nil
  fresh := by simp [Session.start, ledger]

theorem accepted_received_fresh (incoming : Bytes) (initialized : Bool) {serial : Nat}
    {log : List Event} (h : ∀ owed ∈ accepted (ledger log), owed.serial < serial) :
    ∀ owed ∈ accepted (ledger (.received serial incoming initialized :: log)),
      owed.serial < serial + 1 := by
  intro owed ho
  rw [ledger_received] at ho
  cases howes : owes serial incoming initialized with
  | none =>
    rw [howes] at ho
    exact Nat.lt_succ_of_lt (h owed ho)
  | some new =>
    rw [howes] at ho
    obtain rfl | ho := List.mem_cons.mp (by simpa using ho)
    · rw [owes_serial howes]
      exact Nat.lt_succ_self serial
    · exact Nat.lt_succ_of_lt (h owed ho)

theorem Session.Accounted.accept {incoming : Bytes} {owed : Owed} (h : s.Accounted)
    (howes : owes s.serial incoming s.initialized = some owed) :
    Balanced (ledger (.received s.serial incoming s.initialized :: s.log))
      (owed ::ₘ s.unanswered) := by
  rw [ledger_received, howes]
  refine .accept h.balanced fun hmem => ?_
  have hlt := h.fresh owed hmem
  rw [owes_serial howes] at hlt
  exact Nat.lt_irrefl _ hlt

theorem unanswered_complete {i : Nat} {fut : TaggedFuture} {resp : RMessage}
    {mgr : ResourceManager W P O} (hpc : s.pc.owed = []) (hfut : s.inflight[i]? = some fut) :
    Session.unanswered { s with
      mgr
      inflight := s.inflight.eraseIdx i
      pc := .reply fut.tag fut.flushes resp } = s.unanswered := by
  refine Multiset.coe_eq_coe.mpr (List.perm_iff_count.mpr fun o => ?_)
  have hcount := count_flatMap_eraseIdx hfut o
  rw [TaggedFuture.owed] at hcount
  simp only [hpc, List.count_append, hcount, List.count_nil]
  simp only [Pc.owed]
  omega

theorem unanswered_park {i : Nat} {fut : TaggedFuture} {owed : Owed} {pc : Pc} {serial : Nat}
    {log : List Event} (hpc : s.pc.owed = pc.owed) (hfut : s.inflight[i]? = some fut) :
    owed ::ₘ s.unanswered = (fut.flushes.toList : Multiset Owed) + Session.unanswered { s with
      inflight := s.inflight.set i { fut with flushes := some owed }
      pc, serial, log } := by
  rw [Session.unanswered, Session.unanswered, Multiset.cons_coe, Multiset.coe_add]
  refine Multiset.coe_eq_coe.mpr (List.perm_iff_count.mpr fun o => ?_)
  have hcount := count_flatMap_eraseIdx hfut o
  simp only [TaggedFuture.owed, List.count_cons] at hcount
  simp only [hpc, TaggedFuture.owed, Option.toList_some, List.count_append, List.count_cons, hcount,
    count_flatMap_set hfut, List.count_nil]
  omega

/-- Sending a reply leaves the rest of what is unanswered. -/
theorem unanswered_send {owed : Owed} {rest : List Owed} {pc : Pc} {log : List Event}
    (hpc : s.pc.owed = owed :: rest) (hrest : pc.owed = rest) :
    s.unanswered = owed ::ₘ Session.unanswered { s with pc, log } := by
  rw [Session.unanswered, Session.unanswered, Multiset.cons_coe]
  refine Multiset.coe_eq_coe.mpr (List.perm_iff_count.mpr fun o => ?_)
  simp only [hpc, hrest, List.count_append, List.count_cons]
  omega

theorem afterReply_owed (flushes : Option Owed) : (afterReply flushes).owed = flushes.toList := by
  cases flushes <;> rfl

theorem accepted_displaced (flushes : Option Owed) (log : List Event) :
    accepted (ledger (flushes.toList.map .displaced ++ log)) = accepted (ledger log) := by
  cases flushes <;> rfl

theorem balanced_displaced {log : List Event} {flushes : Option Owed} {rest : Multiset Owed}
    (h : Balanced (ledger log) (flushes.toList + rest)) :
    Balanced (ledger (flushes.toList.map .displaced ++ log)) rest := by
  rw [ledger_displaced]
  cases flushes with
  | none => simpa using h
  | some flush => exact .drop (by simpa using h)

theorem accounted_step (h : s.Accounted) (hstep : s.step handler a = some s') : s'.Accounted := by
  have hb := h.balanced
  cases step_cases hstep with
  | reset hpc hempty hnext hbytes =>
    refine ⟨?_, h.fresh⟩
    rw [ledger_sent]
    simp only [Session.unanswered, hempty, hpc, hnext] at hb
    exact .settle (by simpa [Session.unanswered, hempty, Pc.owed] using hb)
  | wait hpc hnext =>
    refine ⟨?_, h.fresh⟩
    simpa [Session.unanswered, hpc, Pc.owed] using hb
  | thrownOut hpc hrecv howes =>
    refine ⟨?_, accepted_received_fresh _ _ h.fresh⟩
    simpa [Session.received, Session.unanswered, hpc, Pc.owed, howes] using hb
  | version hpc hrecv howes hcause =>
    rename_i incoming pick owed req
    refine ⟨?_, accepted_received_fresh _ _ h.fresh⟩
    have hb := h.accept howes
    have hnone : s.nextSession = none := by simpa using hrecv.2.1
    have hperm := List.perm_append_singleton owed (s.inflight.flatMap TaggedFuture.owed)
    rw [← Multiset.coe_eq_coe] at hperm
    simp only [Session.unanswered, hpc, hnone] at hb
    simpa [Session.received, Session.unanswered, Pc.owed, hperm] using hb
  | push hpc hrecv howes hcause hflush =>
    refine ⟨?_, accepted_received_fresh _ _ h.fresh⟩
    have hb := h.accept howes
    simp only [Session.unanswered, hpc] at hb
    simpa [Session.received, Session.push, Session.unanswered, Pc.owed, TaggedFuture.owed] using hb
  | park hpc hrecv howes hcause hfut htag =>
    rename_i incoming pick owed oldtag fut
    have hnil : s.pc.owed = Pc.top.owed := by rw [hpc]; rfl
    refine ⟨balanced_displaced ?_, ?_⟩
    · have hb := h.accept howes
      rw [unanswered_park hnil hfut] at hb
      exact hb
    · intro o ho
      refine accepted_received_fresh incoming s.initialized h.fresh o ?_
      rwa [accepted_displaced] at ho
  | complete hpc hfut hresp =>
    refine ⟨?_, h.fresh⟩
    have hnil : s.pc.owed = [] := by obtain hpc | hpc := hpc <;> simp [hpc, Pc.owed]
    rw [unanswered_complete hnil hfut]
    exact hb
  | reply hpc hbytes =>
    refine ⟨.settle ?_, h.fresh⟩
    rw [unanswered_send (by rw [hpc]; rfl) (afterReply_owed _)] at hb
    exact hb
  | flush hpc hbytes =>
    refine ⟨.settle ?_, h.fresh⟩
    have hpoll : Pc.poll.owed = [] := rfl
    rw [unanswered_send (by rw [hpc]; rfl) hpoll] at hb
    exact hb
  | pending hpc =>
    refine ⟨?_, h.fresh⟩
    simpa [Session.unanswered, hpc, Pc.owed] using hb
  | else_ hpc hempty hnext =>
    refine ⟨?_, h.fresh⟩
    simpa [Session.unanswered, hpc, Pc.owed] using hb

theorem reaches_accounted {world : W} (h : Reaches (Session.step handler) (.start world) s) :
    s.Accounted :=
  h.invariant (start_accounted world) fun hs _ hstep => accounted_step hs hstep

/-- A step logs replies to what was unanswered before it. -/
theorem step_log (hstep : s.step handler a = some s') :
    ∃ new, s'.log = new ++ s.log ∧
      ∀ owed resp bytes, .sent owed resp bytes ∈ new → owed ∈ s.unanswered := by
  cases step_cases hstep with
  | reset hpc hempty hnext hbytes =>
    rename_i owed req bytes
    refine ⟨[.sent owed (versionReply req) bytes], rfl, ?_⟩
    intro owed' resp bytes' hmem
    cases List.mem_singleton.mp hmem
    exact mem_unanswered.mpr (.inr (.inr ⟨req, hnext⟩))
  | reply hpc hbytes =>
    rename_i owed flushes resp bytes
    refine ⟨[.sent owed resp bytes], rfl, ?_⟩
    intro owed' resp' bytes' hmem
    cases List.mem_singleton.mp hmem
    exact mem_unanswered.mpr (.inr (.inl (by simp [hpc, Pc.owed])))
  | flush hpc hbytes =>
    rename_i owed bytes
    refine ⟨[.sent owed (.rflush {}) bytes], rfl, ?_⟩
    intro owed' resp bytes' hmem
    cases List.mem_singleton.mp hmem
    exact mem_unanswered.mpr (.inr (.inl (by simp [hpc, Pc.owed])))
  | thrownOut hpc hrecv howes => exact ⟨[.received _ _ _], rfl, by simp⟩
  | version hpc hrecv howes hcause => exact ⟨[.received _ _ _], rfl, by simp⟩
  | push hpc hrecv howes hcause hflush => exact ⟨[.received _ _ _], rfl, by simp⟩
  | park hpc hrecv howes hcause hfut htag =>
    rename_i incoming pick owed oldtag fut
    refine ⟨fut.flushes.toList.map .displaced ++ [.received _ _ _],
      (List.append_assoc _ [_] s.log).symm, ?_⟩
    simp
  | _ => exact ⟨[], rfl, by simp⟩

end NineWire.Server
