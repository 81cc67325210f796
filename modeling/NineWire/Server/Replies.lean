import NineWire.Server.Conservation

/-! What a reply says. Every future waits for the reply its datagram is owed,
every reply sent is that reply, and a set in flight is never stuck: with no
further input it drains, in whatever order its futures complete. -/
namespace NineWire.Server
open NineWire.Wire NineWire.Ledger NineWire.Transition

def Owed.isFlush (owed : Owed) : Bool :=
  match owed.cause with
  | .flush _ => true
  | _ => false

def Owed.IsVersion (owed : Owed) : Prop := ∃ req, owed.cause = .version req

/-- A request other than a flush or the Tversion of a session, or a datagram
that could not be decoded but names a tag. -/
def Owed.isRequest (owed : Owed) : Bool :=
  match owed.cause with
  | .badVersion | .request _ | .undecodable _ => true
  | .version _ | .flush _ => false

theorem Owed.isFlush_iff {owed : Owed} :
    owed.isFlush ↔ ∃ oldtag, owed.cause = .flush oldtag := by
  cases h : owed.cause <;> simp [Owed.isFlush, h]

theorem Owed.not_isRequest_of_isFlush {owed : Owed} (h : owed.isFlush) :
    owed.isRequest = false := by
  obtain ⟨oldtag, h⟩ := Owed.isFlush_iff.mp h
  simp [Owed.isRequest, h]

theorem Owed.IsVersion.not_isRequest {owed : Owed} (h : owed.IsVersion) :
    owed.isRequest = false := by
  obtain ⟨req, h⟩ := h
  simp [Owed.isRequest, h]

section Replies
variable {W P O : Type} (handler : Serve W P O)

def Answers (cause : Cause) (resp : RMessage) : Prop :=
  ∃ mgr mgr', Completes handler mgr cause.hdl resp mgr'

structure Session.Sound (s : Session W P O) : Prop where
  futures : ∀ fut ∈ s.inflight, fut.hdl = fut.tag.cause.hdl ∧ ¬fut.tag.IsVersion
  parked : ∀ fut ∈ s.inflight, ∀ flush ∈ fut.flushes, flush.isFlush
  replying : ∀ {owed flushes resp}, s.pc = .reply owed flushes resp →
    Answers handler owed.cause resp ∧ ¬owed.IsVersion ∧ ∀ flush ∈ flushes, flush.isFlush
  flushing : ∀ {owed}, s.pc = .flush owed → owed.isFlush
  next : ∀ {owed req}, s.nextSession = some (owed, req) →
    owed.cause = .version req ∧ owed.tag = notag
  sent : ∀ owed resp bytes, .sent owed resp bytes ∈ s.log →
    Answers handler owed.cause resp ∧ serialized resp owed.tag = some bytes
  displaced : ∀ owed, .displaced owed ∈ s.log → owed.isFlush

variable {handler} {s s' : Session W P O} {a : Action}

theorem start_sound (world : W) : (Session.start world : Session W P O).Sound handler := by
  constructor <;> simp [Session.start]

theorem Session.Sound.log_sent (h : s.Sound handler) {owed : Owed} {resp : RMessage}
    {bytes : Bytes} (hans : Answers handler owed.cause resp)
    (hbytes : serialized resp owed.tag = some bytes) (o : Owed) (r : RMessage) (b : Bytes)
    (hmem : Event.sent o r b ∈ Event.sent owed resp bytes :: s.log) :
    Answers handler o.cause r ∧ serialized r o.tag = some b := by
  obtain heq | hmem := List.mem_cons.mp hmem
  · cases heq
    exact ⟨hans, hbytes⟩
  · exact h.sent o r b hmem

theorem owes_version {serial : Nat} {incoming : Bytes} {initialized : Bool} {owed : Owed}
    {req : Tversion} (h : owes serial incoming initialized = some owed)
    (hcause : owed.cause = .version req) : owed.tag = notag := by
  cases owes_cases h with
  | version hdes => rfl
  | _ => cases hcause

theorem answers_flush {owed : Owed} (hflush : owed.isFlush) (mgr : ResourceManager W P O) :
    Answers handler owed.cause (.rflush {}) := by
  obtain ⟨oldtag, hcause⟩ := Owed.isFlush_iff.mp hflush
  rw [hcause]
  exact ⟨mgr, mgr, .ready⟩

theorem sound_step (h : s.Sound handler) (hstep : s.step handler a = some s') :
    s'.Sound handler := by
  cases step_cases hstep with
  | reset hpc hempty hnext hbytes =>
    rename_i owed req bytes
    have hans : Answers handler owed.cause (versionReply req) := by
      rw [(h.next hnext).1]
      exact ⟨s.mgr, s.mgr, .ready⟩
    exact { h with
      replying := by simp
      flushing := by simp
      next := by simp
      sent := h.log_sent hans hbytes
      displaced := by simpa using h.displaced }
  | wait hpc hnext => exact { h with replying := by simp, flushing := by simp }
  | thrownOut hpc hrecv howes =>
    exact { h with
      replying := by simp [Session.received]
      flushing := by simp [Session.received]
      sent := by simpa [Session.received] using h.sent
      displaced := by simpa [Session.received] using h.displaced }
  | version hpc hrecv howes hcause =>
    exact { h with
      replying := by simp [Session.received]
      flushing := by simp [Session.received]
      next := by
        intro owed' req' heq
        cases heq
        exact ⟨hcause, owes_version howes hcause⟩
      sent := by simpa [Session.received] using h.sent
      displaced := by simpa [Session.received] using h.displaced }
  | push hpc hrecv howes hcause hflush =>
    rename_i incoming pick owed
    exact { h with
      futures := by
        intro fut hfut
        obtain rfl | hfut := List.mem_cons.mp hfut
        · exact ⟨rfl, fun hversion => hversion.elim hcause⟩
        · exact h.futures fut hfut
      parked := by
        intro fut hfut
        obtain rfl | hfut := List.mem_cons.mp hfut
        · simp
        · exact h.parked fut hfut
      replying := by simp [Session.received, Session.push]
      flushing := by simp [Session.received, Session.push]
      sent := by simpa [Session.received, Session.push] using h.sent
      displaced := by simpa [Session.received, Session.push] using h.displaced }
  | park hpc hrecv howes hcause hfut htag =>
    rename_i incoming pick owed oldtag fut
    have hmem := List.mem_of_getElem? hfut
    exact { h with
      futures := by
        intro fut' hfut'
        obtain hfut' | rfl := List.mem_or_eq_of_mem_set hfut'
        · exact h.futures fut' hfut'
        · exact h.futures fut hmem
      parked := by
        intro fut' hfut'
        obtain hfut' | rfl := List.mem_or_eq_of_mem_set hfut'
        · exact h.parked fut' hfut'
        · intro flush heq
          cases heq
          exact Owed.isFlush_iff.mpr ⟨oldtag, hcause⟩
      replying := by simp [Session.received]
      flushing := by simp [Session.received]
      sent := by simpa [Session.received] using h.sent
      displaced := by
        intro flush hflush
        obtain hflush | hflush := List.mem_append.mp hflush
        · obtain ⟨flush', hflush', heq⟩ := List.mem_map.mp hflush
          cases heq
          exact h.parked fut hmem flush (Option.mem_toList.mp hflush')
        · exact h.displaced flush (by simpa using hflush) }
  | complete hpc hfut hresp =>
    rename_i i fut resp mgr
    have hmem := List.mem_of_getElem? hfut
    exact { h with
      futures := fun fut' hfut' => h.futures fut' (List.mem_of_mem_eraseIdx hfut')
      parked := fun fut' hfut' => h.parked fut' (List.mem_of_mem_eraseIdx hfut')
      replying := by
        intro owed flushes resp' heq
        cases heq
        obtain ⟨hhdl, hversion⟩ := h.futures fut hmem
        exact ⟨⟨s.mgr, mgr, hhdl ▸ hresp⟩, hversion, h.parked fut hmem⟩
      flushing := by simp }
  | reply hpc hbytes =>
    rename_i owed flushes resp bytes
    obtain ⟨hans, -, hflushes⟩ := h.replying hpc
    exact { h with
      replying := by cases flushes <;> simp [afterReply]
      flushing := by
        intro flush heq
        cases flushes with
        | none => cases heq
        | some flush' =>
          cases heq
          exact hflushes flush rfl
      sent := h.log_sent hans hbytes
      displaced := by simpa using h.displaced }
  | flush hpc hbytes =>
    rename_i owed bytes
    exact { h with
      replying := by simp
      flushing := by simp
      sent := h.log_sent (answers_flush (h.flushing hpc) s.mgr) hbytes
      displaced := by simpa using h.displaced }
  | pending hpc => exact { h with replying := by simp, flushing := by simp }
  | else_ hpc hempty hnext => exact { h with replying := by simp, flushing := by simp }

theorem reaches_sound {world : W} (h : Reaches (Session.step handler) (.start world) s) :
    s.Sound handler :=
  h.invariant (start_sound world) fun hs _ hstep => sound_step hs hstep

theorem mem_dropped {log : List Event} {owed : Owed} (h : owed ∈ dropped (ledger log)) :
    .displaced owed ∈ log := by
  obtain ⟨entry, hentry, heq⟩ := List.mem_filterMap.mp h
  obtain ⟨event, hevent, hmap⟩ := List.mem_filterMap.mp hentry
  cases entry <;> cases heq
  cases event with
  | received serial incoming initialized =>
    obtain ⟨o, -, hbad⟩ := Option.map_eq_some_iff.mp hmap
    cases hbad
  | sent o resp bytes => cases hmap
  | displaced o =>
    cases hmap
    exact hevent

theorem mem_accepted {log : List Event} {owed : Owed} (h : owed ∈ accepted (ledger log)) :
    ∃ serial incoming initialized, .received serial incoming initialized ∈ log ∧
      owes serial incoming initialized = some owed := by
  obtain ⟨entry, hentry, heq⟩ := List.mem_filterMap.mp h
  obtain ⟨event, hevent, hmap⟩ := List.mem_filterMap.mp hentry
  cases entry <;> cases heq
  cases event with
  | received serial incoming initialized =>
    obtain ⟨o, howes, heq⟩ := Option.map_eq_some_iff.mp hmap
    cases heq
    exact ⟨serial, incoming, initialized, hevent, howes⟩
  | sent o resp bytes => cases hmap
  | displaced o => cases hmap

def Pc.replying : Pc → List Owed
  | .reply tag _ _ => [tag]
  | _ => []

def Session.inFlight (s : Session W P O) : List Owed :=
  s.inflight.map TaggedFuture.tag ++ s.pc.replying

def requests (owed : List Owed) : List Owed := owed.filter Owed.isRequest

theorem requests_flushes (flushes : Option Owed) (h : ∀ flush ∈ flushes, flush.isFlush) :
    requests flushes.toList = [] := by
  cases flushes with
  | none => rfl
  | some flush => simp [requests, Owed.not_isRequest_of_isFlush (h flush rfl)]

theorem requests_futures {l : List TaggedFuture}
    (h : ∀ fut ∈ l, ∀ flush ∈ fut.flushes, flush.isFlush) :
    requests (l.flatMap TaggedFuture.owed) = requests (l.map TaggedFuture.tag) := by
  induction l with
  | nil => rfl
  | cons fut l ih =>
    have hl := ih fun fut' hfut' => h fut' (List.mem_cons_of_mem fut hfut')
    have hflushes := requests_flushes fut.flushes (h fut List.mem_cons_self)
    simp only [requests] at hl hflushes ⊢
    simp [TaggedFuture.owed, hl, hflushes, List.filter_cons]

theorem Session.Sound.requests_pc (h : s.Sound handler) :
    requests s.pc.owed = requests s.pc.replying := by
  cases hpc : s.pc with
  | reply owed flushes resp =>
    have hflushes := requests_flushes flushes (h.replying hpc).2.2
    simp only [requests] at hflushes ⊢
    simp [Pc.owed, Pc.replying, hflushes, List.filter_cons]
  | flush owed => simp [requests, Pc.owed, Pc.replying, Owed.not_isRequest_of_isFlush (h.flushing hpc)]
  | _ => rfl

theorem Session.Sound.requests_next (h : s.Sound handler) :
    requests (s.nextSession.toList.map Prod.fst) = [] := by
  cases hnext : s.nextSession with
  | none => rfl
  | some next =>
    have hversion : next.1.IsVersion := ⟨next.2, (h.next hnext).1⟩
    simp [requests, hversion.not_isRequest]

/-- The requests without a reply are those in flight. -/
theorem Session.Sound.requests_unanswered (h : s.Sound handler) :
    s.unanswered.filter (·.isRequest) = (requests s.inFlight : Multiset Owed) := by
  have hfutures := requests_futures h.parked
  have hpc := h.requests_pc
  have hnext := h.requests_next
  simp only [requests] at hfutures hpc hnext
  simp [Session.unanswered, Session.inFlight, requests, hfutures, hpc, hnext]

theorem serialized_isSome (resp : RMessage) (tag : UInt16) :
    ∃ bytes, serialized resp tag = some bytes := by
  cases hser : resp.serialize tag with
  | ok bytes => exact ⟨bytes, by simp [serialized, hser]⟩
  | error e =>
    have hfallback : ∃ bytes, (RMessage.rerror ⟨e.toString⟩).serialize tag = .ok bytes := ⟨_, rfl⟩
    obtain ⟨bytes, hbytes⟩ := hfallback
    exact ⟨bytes, by simp [serialized, hser, hbytes, Except.toOption]⟩

/-- The client reads the reply under its tag, or an Rerror under that tag when
the reply does not serialize. -/
theorem serialized_cases {resp : RMessage} {tag : UInt16} {bytes : Bytes} (hresp : resp.Is9P2000)
    (h : serialized resp tag = some bytes) :
    deserializeR bytes = .ok (tag, resp) ∨
      ∃ e, resp.serialize tag = .error e ∧
        deserializeR bytes = .ok (tag, .rerror ⟨e.toString⟩) := by
  unfold serialized at h
  cases hser : resp.serialize tag with
  | ok b =>
    rw [hser] at h
    cases h
    exact .inl (resp.deserialize_serialize hresp hser)
  | error e =>
    rw [hser] at h
    cases hfallback : (RMessage.rerror ⟨e.toString⟩).serialize tag with
    | ok b =>
      simp only [hfallback] at h
      cases h
      exact .inr ⟨e, rfl, RMessage.deserialize_serialize _ trivial hfallback⟩
    | error e' =>
      simp only [hfallback] at h
      cases h

theorem completes_is9P2000 {mgr mgr' : ResourceManager W P O} {cause : Cause} {resp : RMessage}
    (h : Completes handler mgr cause.hdl resp mgr') : resp.Is9P2000 := by
  generalize hhdl : cause.hdl = hdl at h
  cases h with
  | ready =>
    cases cause with
    | version req =>
      cases hhdl
      unfold versionReply
      split <;> trivial
    | request req => cases hhdl
    | _ =>
      cases hhdl
      trivial
  | served hrun =>
    cases dispatch_ok hrun <;> trivial
  | failed hrun => trivial

def Session.Panics (handler : Serve W P O) (s : Session W P O) : Prop :=
  ∃ fut ∈ s.inflight, ∃ req world, fut.hdl = .dispatch req ∧
    CallFails handler s.mgr req .panic world

/-- What is dispatched panics only where a resource call does. -/
theorem dispatch_panic {req : TMessage} {mgr mgr' : ResourceManager W P O}
    (hversion : ∀ m, req ≠ .tversion m) (hflush : ∀ m, req ≠ .tflush m)
    (hrun : (dispatch handler maxMessageSize req).run mgr = .error .panic mgr') :
    ∃ world, CallFails handler mgr req .panic world := by
  generalize he : Abort.panic = e at hrun
  cases dispatch_error hrun with
  | unimplemented hreq =>
    obtain ⟨m, hm⟩ | ⟨m, hm⟩ := hreq
    · exact (hversion m hm).elim
    · exact (hflush m hm).elim
  | refused hename hsame => cases he
  | call hcall =>
    subst he
    exact ⟨_, hcall⟩

theorem owes_request {serial : Nat} {incoming : Bytes} {initialized : Bool} {owed : Owed}
    {req : TMessage} (h : owes serial incoming initialized = some owed)
    (hcause : owed.cause = .request req) :
    initialized = true ∧ (∀ m, req ≠ .tversion m) ∧ ∀ m, req ≠ .tflush m := by
  cases owes_cases h with
  | request hinit hdes hversion hflush =>
    cases hcause
    exact ⟨hinit, hversion, hflush⟩
  | _ => cases hcause

structure Session.Looping (s : Session W P O) : Prop where
  idle : s.pc = .select → s.inflight = [] → s.nextSession = none
  running : s.pc ≠ .done

theorem looping_step (h : s.Looping) (hstep : s.step handler a = some s') : s'.Looping := by
  cases step_cases hstep with
  | reset hpc hempty hnext hbytes => exact ⟨fun _ _ => rfl, by simp⟩
  | wait hpc hnext => exact ⟨fun _ => hnext, by simp⟩
  | reply hpc hbytes =>
    rename_i owed flushes resp bytes
    cases flushes <;> exact ⟨by simp [afterReply], by simp [afterReply]⟩
  | else_ hpc hempty hnext => exact (hnext (h.idle hpc hempty)).elim
  | _ => exact ⟨by simp [Session.received, Session.push], by simp [Session.received, Session.push]⟩

theorem reaches_looping {world : W} (h : Reaches (Session.step handler) (.start world) s) :
    s.Looping :=
  h.invariant ⟨by simp [Session.start], by simp [Session.start]⟩ fun hs _ hstep =>
    looping_step hs hstep

def Pc.work : Pc → Nat
  | .done => 0
  | .select => 1
  | .top => 2
  | .poll => 3
  | .flush _ => 4
  | .reply _ _ _ => 5

def Session.work (s : Session W P O) : Nat := 6*s.inflight.length + s.pc.work

def Action.IsRecv : Action → Prop
  | .recv _ _ => True
  | _ => False

theorem work_step (ha : ¬a.IsRecv) (hstep : s.step handler a = some s') : s'.work < s.work := by
  cases step_cases hstep with
  | reset hpc hempty hnext hbytes => simp [Session.work, Pc.work, hpc]
  | wait hpc hnext => simp [Session.work, Pc.work, hpc]
  | complete hpc hfut hresp =>
    rename_i i fut resp mgr
    obtain ⟨hi, -⟩ := List.getElem?_eq_some_iff.mp hfut
    have hlen := List.length_eraseIdx_of_lt hi
    simp only [Session.work, Pc.work, hlen]
    omega
  | reply hpc hbytes =>
    rename_i owed flushes resp bytes
    cases flushes <;> simp [Session.work, Pc.work, afterReply, hpc]
  | flush hpc hbytes => simp [Session.work, Pc.work, hpc]
  | pending hpc => simp [Session.work, Pc.work, hpc]
  | else_ hpc hempty hnext => simp [Session.work, Pc.work, hpc]
  | _ => exact (ha trivial).elim

theorem send_enabled (s : Session W P O) (owed : Owed) (resp : RMessage) (pc : Pc) :
    ∃ s', s.send owed resp pc = some s' := by
  obtain ⟨bytes, hbytes⟩ := serialized_isSome resp owed.tag
  exact Option.isSome_iff_exists.mp (by simp [Session.send, hbytes])

theorem complete_enabled (hcalm : ¬s.Panics handler) (hacc : s.Accounted) (hsound : s.Sound handler)
    {i : Nat} {fut : TaggedFuture} (hfut : s.inflight[i]? = some fut) :
    ∃ s', s.complete handler i = some s' := by
  obtain ⟨tag, flushes, hdl⟩ := fut
  have hmem := List.mem_of_getElem? hfut
  cases hdl with
  | ready resp => exact Option.isSome_iff_exists.mp (by simp [Session.complete, hfut])
  | dispatch req =>
    have hopen : tag ∈ s.unanswered := mem_unanswered_of_inflight hmem
    obtain ⟨serial, incoming, initialized, -, howes⟩ :=
      mem_accepted (hacc.balanced.mem_accepted_of_open hopen)
    have hcause : tag.cause = .request req := by
      have hhdl := (hsound.futures _ hmem).1
      cases hc : tag.cause <;> simp_all [Cause.hdl]
    obtain ⟨-, hversion, hflush⟩ := owes_request howes hcause
    cases hrun : (dispatch handler maxMessageSize req).run s.mgr with
    | ok resp mgr => exact Option.isSome_iff_exists.mp (by simp [Session.complete, hfut, hrun])
    | error e mgr =>
      cases e with
      | err text => exact Option.isSome_iff_exists.mp (by simp [Session.complete, hfut, hrun])
      | panic =>
        obtain ⟨world, hcall⟩ := dispatch_panic hversion hflush hrun
        exact (hcalm ⟨_, hmem, req, world, rfl, hcall⟩).elim

/-- While anything is in flight the loop has a step that receives nothing. -/
theorem progress (hcalm : ¬s.Panics handler) (hacc : s.Accounted) (hsound : s.Sound handler)
    (hloop : s.Looping) (hbusy : s.inFlight ≠ []) :
    ∃ a s', ¬a.IsRecv ∧ s.step handler a = some s' := by
  cases hpc : s.pc with
  | top =>
    cases hempty : s.inflight with
    | nil => simp [Session.inFlight, hempty, hpc, Pc.replying] at hbusy
    | cons fut rest =>
      exact ⟨.top, { s with pc := .select }, id, by simp [Session.step, hpc, Session.top, hempty]⟩
  | select =>
    cases hempty : s.inflight with
    | nil => simp [Session.inFlight, hempty, hpc, Pc.replying] at hbusy
    | cons fut rest =>
      have hfut : s.inflight[0]? = some fut := by simp [hempty]
      obtain ⟨s', hs'⟩ := complete_enabled hcalm hacc hsound hfut
      exact ⟨.complete 0, s', id, by simpa [Session.step, hpc] using hs'⟩
  | reply owed flushes resp =>
    obtain ⟨s', hs'⟩ := send_enabled s owed resp (afterReply flushes)
    exact ⟨.send, s', id, by cases flushes <;> simpa [Session.step, hpc, afterReply] using hs'⟩
  | flush owed =>
    obtain ⟨s', hs'⟩ := send_enabled s owed (.rflush {}) .poll
    exact ⟨.send, s', id, by simpa [Session.step, hpc] using hs'⟩
  | poll => exact ⟨.pending, { s with pc := .top }, id, by simp [Session.step, hpc]⟩
  | done => exact (hloop.running hpc).elim

/-- Every run that receives nothing more is at most `s.work` steps long, and
where it cannot go on nothing is in flight, or the task panics. -/
theorem drains {world : W} (h : Reaches (Session.step handler) (.start world) s)
    {as : List Action} (hrecv : ∀ a ∈ as, ¬a.IsRecv)
    (hexec : exec (Session.step handler) s as = some s') : as.length + s'.work ≤ s.work ∧
      ((∀ a, ¬a.IsRecv → s'.step handler a = none) → s'.inFlight = [] ∨ s'.Panics handler) := by
  induction as generalizing s with
  | nil =>
    cases hexec
    refine ⟨by simp, fun hstuck => ?_⟩
    by_contra hbusy
    obtain ⟨hbusy, hcalm⟩ := not_or.mp hbusy
    obtain ⟨a, t, ha, hstep⟩ :=
      progress hcalm (reaches_accounted h) (reaches_sound h) (reaches_looping h) hbusy
    rw [hstuck a ha] at hstep
    cases hstep
  | cons a as ih =>
    obtain ⟨t, hstep, hexec⟩ := Option.bind_eq_some_iff.mp hexec
    have hwork := work_step (hrecv a List.mem_cons_self) hstep
    obtain ⟨hlen, hdone⟩ := ih (.tail a h trivial hstep)
      (fun b hb => hrecv b (List.mem_cons_of_mem a hb)) hexec
    refine ⟨?_, hdone⟩
    rw [List.length_cons]
    omega

end Replies

/-- Exactly one reply per request. At every state the requests received are
those replied to and those in flight, each once; a reply is sent after its
request was received, says what the request is owed and carries its tag; and
with no further input every request in flight gets its reply, unless one of
them panics and takes the task with it. -/
theorem one_reply_per_request {W P O : Type} (handler : Serve W P O) (world : W)
    (s : Session W P O) (h : Reaches (Session.step handler) (.start world) s) :
    (requests (accepted (ledger s.log)) : Multiset Owed) =
      requests (settled (ledger s.log)) + requests s.inFlight ∧
    (requests (accepted (ledger s.log))).Nodup ∧
    (∀ newer older owed resp bytes, s.log = newer ++ .sent owed resp bytes :: older →
      owed.isRequest → owed ∈ accepted (ledger older) ∧ Answers handler owed.cause resp ∧
        (deserializeR bytes = .ok (owed.tag, resp) ∨ ∃ e, resp.serialize owed.tag = .error e ∧
          deserializeR bytes = .ok (owed.tag, .rerror ⟨e.toString⟩))) ∧
    (∀ incoming pick owed s', s.step handler (.recv incoming pick) = some s' →
      owes s.serial incoming s.initialized = some owed → owed.isRequest →
        s'.inflight = ⟨owed, none, owed.cause.hdl⟩ :: s.inflight) ∧
    (∀ as s', (∀ a ∈ as, ¬a.IsRecv) →
      exec (Session.step handler) s as = some s' → as.length + s'.work ≤ s.work ∧
        ((∀ a, ¬a.IsRecv → s'.step handler a = none) →
          s'.inFlight = [] ∨ s'.Panics handler)) := by
  have hacc := reaches_accounted h
  have hsound := reaches_sound h
  refine ⟨?_, hacc.balanced.nodup.filter _, ?_, ?_, ?_⟩
  · have hdropped : ∀ owed ∈ dropped (ledger s.log), owed.isRequest = false := fun owed ho =>
      Owed.not_isRequest_of_isFlush (hsound.displaced owed (mem_dropped ho))
    rw [← hsound.requests_unanswered]
    exact hacc.balanced.conserved_of_not_dropped Owed.isRequest hdropped
  · intro newer older owed resp bytes hlog hrequest
    have hmem : Event.sent owed resp bytes ∈ s.log := by simp [hlog]
    obtain ⟨hans, hbytes⟩ := hsound.sent owed resp bytes hmem
    obtain ⟨mgr, mgr', hcompletes⟩ := hans
    refine ⟨?_, ⟨mgr, mgr', hcompletes⟩, serialized_cases (completes_is9P2000 hcompletes) hbytes⟩
    have hbalanced := hacc.balanced
    rw [hlog, ledger, List.filterMap_append] at hbalanced
    exact hbalanced.settled_after
  · intro incoming pick owed s' hstep howes hrequest
    cases step_cases hstep with
    | thrownOut hpc hrecv hnone =>
      rw [hnone] at howes
      cases howes
    | version hpc hrecv hsome hcause =>
      rw [hsome] at howes
      cases howes
      simp [Owed.isRequest, hcause] at hrequest
    | push hpc hrecv hsome hcause hflush =>
      rw [hsome] at howes
      cases howes
      rfl
    | park hpc hrecv hsome hcause hfut htag =>
      rw [hsome] at howes
      cases howes
      simp [Owed.isRequest, hcause] at hrequest
  · intro as s' hrecv hexec
    exact drains h hrecv hexec

def clunkRun : List Action :=
  [.top, .recv [100, 255, 255, 0, 16, 0, 0, 6, 0, 57, 80, 50, 48, 48, 48] 0, .top,
    .recv [120, 7, 0, 1, 0, 0, 0] 0, .top, .complete 0, .send]

theorem one_reply_per_request_clunk : ∃ s : Session Unit Empty Empty,
    requests (settled (ledger s.log)) = [⟨1, 7, .request (.tclunk ⟨1⟩)⟩] ∧
      (requests (accepted (ledger s.log)) : Multiset Owed) =
        requests (settled (ledger s.log)) + requests s.inFlight := by
  have hrun : (exec (Session.step Serve.nothing) (.start ()) clunkRun).map
      (fun s => requests (settled (ledger s.log))) = some [⟨1, 7, .request (.tclunk ⟨1⟩)⟩] := by
    decide
  obtain ⟨s, hs, hsettled⟩ := Option.map_eq_some_iff.mp hrun
  exact ⟨s, hsettled, (one_reply_per_request Serve.nothing () s (reaches_of_exec hs)).1⟩

end NineWire.Server
