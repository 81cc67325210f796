import NineWire.Mediator.Handler
import NineWire.Table
import NineWire.Transition

/-! The one-shot senders in queues and inflight maps are where the log says that
their requests are, over any interleaving of calls, streams, decisions and
callers that give up. -/
namespace NineWire.Mediator
open NineWire.Correlation NineWire.Table NineWire.Transition

def CallStage.Past : CallStage → Prop
  | .looking => False
  | .enqueueing _ => False
  | _ => True

def CallStage.Agrees (reply : Option (Option Endpoint)) : CallStage → Prop
  | .returned (.ok ep) => reply = some (some ep)
  | .returned (.error status) => status.code = .permissionDenied → reply = some none
  | _ => True

section Run
variable {s s' : Handler} {a : Action} {r c : Nat} {reg : Registration} {caller : Caller}

/-- The senders, the ids and the channels agree with the log. -/
structure Linked (s : Handler) : Prop where
  lawful : Lawful s.log
  queued : ∀ (r : Nat) (reg : Registration) req, s.registrations[r]? = some reg →
    reg.queue = some req → phase s.log req.reply = .accepted r req.ep
  inflight : ∀ (r : Nat) (reg : Registration) id c, s.registrations[r]? = some reg →
    reg.inflight[id]? = some c → ∃ ep, phase s.log c = .issued (r, id) ep
  fresh : ∀ r id, (r, id) ∈ keys s.log → ∃ reg : Registration,
    s.registrations[r]? = some reg ∧ 0 < id.toNat ∧ id.toNat < reg.ctr.toNat
  counting : ∀ (r : Nat) (reg : Registration), s.registrations[r]? = some reg → 0 < reg.ctr.toNat
  callers : ∀ c ep, (phase s.log c).payload = some ep → ∃ caller : Caller,
    s.callers[c]? = some caller ∧ caller.stage.Past ∧ caller.ep = ep
  replied : ∀ (c : Nat) (caller : Caller) answer, s.callers[c]? = some caller →
    caller.reply = some answer → ∃ r id approve ep, ∃ reg : Registration,
      phase s.log c = .answered (r, id) approve ep ∧ s.registrations[r]? = some reg ∧
      answer = reg.answer approve
  returned : ∀ (c : Nat) (caller : Caller), s.callers[c]? = some caller →
    caller.stage.Agrees caller.reply

theorem Linked.start : Linked .start where
  lawful := .nil
  queued _ _ _ h := by cases h
  inflight _ _ _ _ h := by cases h
  fresh _ _ h := by cases h
  counting _ _ h := by cases h
  callers _ _ h := by cases h
  replied _ _ _ h := by cases h
  returned _ _ h := by cases h

theorem Linked.moveTo (h : Linked s) {stage : CallStage} (hcaller : s.callers[c]? = some caller)
    (hpast : caller.stage.Past → stage.Past) (hagrees : stage.Agrees caller.reply) :
    Linked (s.moveTo c caller stage) where
  lawful := h.lawful
  queued := h.queued
  inflight := h.inflight
  fresh := h.fresh
  counting := h.counting
  callers d ep hep := by
    obtain ⟨other, hd, hother⟩ := h.callers d ep hep
    exact set_keeps hcaller (And.imp_left hpast) hd hother
  replied d other answer hd hreply := by
    obtain ⟨rfl, rfl⟩ | ⟨-, hold⟩ := set_cases hd
    · exact h.replied c caller answer hcaller hreply
    · exact h.replied d other answer hold hreply
  returned d other hd := by
    obtain ⟨rfl, rfl⟩ | ⟨-, hold⟩ := set_cases hd
    · exact hagrees
    · exact h.returned d other hold

theorem answer_set {regs : List Registration} {reg' other : Registration} {q : Nat}
    (hreg : regs[r]? = some reg) (hq : regs[q]? = some other)
    (hendpoint : reg'.endpoint = reg.endpoint) (approve : Bool) :
    other.answer approve = (if r = q then reg' else other).answer approve := by
  by_cases hrq : r = q
  · subst hrq
    obtain rfl := Option.some.inj (hreg.symm.trans hq)
    rw [if_pos rfl, Registration.answer, Registration.answer, hendpoint]
  · rw [if_neg hrq]

theorem Linked.registration (h : Linked s) {reg' : Registration}
    (hreg : s.registrations[r]? = some reg) (hendpoint : reg'.endpoint = reg.endpoint)
    (hctr : reg'.ctr = reg.ctr) (hqueue : ∀ req, reg'.queue = some req → reg.queue = some req)
    (hinflight : ∀ (id : UInt64) (c : Nat), reg'.inflight[id]? = some c →
      reg.inflight[id]? = some c) :
    Linked { s with registrations := s.registrations.set r reg' } where
  lawful := h.lawful
  queued q other req hq hreq := by
    obtain ⟨rfl, rfl⟩ | ⟨-, hold⟩ := set_cases hq
    · exact h.queued r reg req hreg (hqueue req hreq)
    · exact h.queued q other req hold hreq
  inflight q other id c hq hc := by
    obtain ⟨rfl, rfl⟩ | ⟨-, hold⟩ := set_cases hq
    · exact h.inflight r reg id c hreg (hinflight id c hc)
    · exact h.inflight q other id c hold hc
  fresh q id hmem := by
    obtain ⟨other, hq, hid⟩ := h.fresh q id hmem
    exact set_keeps hreg (fun hid => by rw [hctr]; exact hid) hq hid
  counting q other hq := by
    obtain ⟨rfl, rfl⟩ | ⟨-, hold⟩ := set_cases hq
    · rw [hctr]
      exact h.counting r reg hreg
    · exact h.counting q other hold
  callers := h.callers
  replied c caller answer hc hreply := by
    obtain ⟨q, id, approve, ep, other, hphase, hq, hanswer⟩ := h.replied c caller answer hc hreply
    exact ⟨q, id, approve, ep, _, hphase, set_get hq,
      hanswer.trans (answer_set hreg hq hendpoint approve)⟩
  returned := h.returned

theorem Linked.register (h : Linked s) (mappings : Std.TreeMap String Nat) (name : String)
    (endpoint : Endpoint) :
    Linked { s with mappings, registrations := s.registrations ++ [.start name endpoint] } where
  lawful := h.lawful
  queued r reg req hr hreq := by
    obtain hold | ⟨-, rfl⟩ := append_cases hr
    · exact h.queued r reg req hold hreq
    · cases hreq
  inflight r reg id c hr hc := by
    obtain hold | ⟨-, rfl⟩ := append_cases hr
    · exact h.inflight r reg id c hold hc
    · simp [Registration.start] at hc
  fresh r id hmem := by
    obtain ⟨reg, hr, hid⟩ := h.fresh r id hmem
    exact ⟨reg, append_get hr, hid⟩
  counting r reg hr := by
    obtain hold | ⟨-, rfl⟩ := append_cases hr
    · exact h.counting r reg hold
    · exact Nat.one_pos
  callers := h.callers
  replied c caller answer hc hreply := by
    obtain ⟨r, id, approve, ep, reg, hphase, hr, hanswer⟩ := h.replied c caller answer hc hreply
    exact ⟨r, id, approve, ep, reg, hphase, append_get hr, hanswer⟩
  returned := h.returned

theorem Linked.rendezvous (h : Linked s) (name : String) (ep : Endpoint) :
    Linked { s with callers := s.callers ++ [{ name, ep, stage := .looking, reply := none }] } where
  lawful := h.lawful
  queued := h.queued
  inflight := h.inflight
  fresh := h.fresh
  counting := h.counting
  callers c ep hep := by
    obtain ⟨caller, hc, hcaller⟩ := h.callers c ep hep
    exact ⟨caller, append_get hc, hcaller⟩
  replied c caller answer hc hreply := by
    obtain hold | ⟨-, rfl⟩ := append_cases hc
    · exact h.replied c caller answer hold hreply
    · cases hreply
  returned c caller hc := by
    obtain hold | ⟨-, rfl⟩ := append_cases hc
    · exact h.returned c caller hold
    · trivial

/-- A request that has not been sent is put into an empty queue. -/
theorem Linked.accept (h : Linked s) (hreg : s.registrations[r]? = some reg)
    (hcaller : s.callers[c]? = some caller) (hpast : caller.stage.Past)
    (habsent : phase s.log c = .absent) :
    Linked { s with
      registrations := s.registrations.set r { reg with queue := some ⟨caller.ep, c⟩ }
      log := .accept r c caller.ep :: s.log } where
  lawful := .accept h.lawful habsent
  queued q other req hq hreq := by
    obtain ⟨rfl, rfl⟩ | ⟨-, hold⟩ := set_cases hq
    · obtain rfl := Option.some.inj hreq
      exact phase_accept_self
    · have hphase := h.queued q other req hold hreq
      rw [phase_accept_ne (ne_of_phase habsent hphase (by simp)), hphase]
  inflight q other id d hq hd := by
    have hold : ∃ ep, phase s.log d = .issued (q, id) ep := by
      obtain ⟨rfl, rfl⟩ | ⟨-, hold⟩ := set_cases hq
      · exact h.inflight r reg id d hreg hd
      · exact h.inflight q other id d hold hd
    obtain ⟨ep, hphase⟩ := hold
    exact ⟨ep, by rw [phase_accept_ne (ne_of_phase habsent hphase (by simp)), hphase]⟩
  fresh q id hmem := by
    obtain ⟨other, hq, hid⟩ := h.fresh q id hmem
    exact set_keeps hreg (fun hid => hid) hq hid
  counting q other hq := by
    obtain ⟨rfl, rfl⟩ | ⟨-, hold⟩ := set_cases hq
    · exact h.counting r reg hreg
    · exact h.counting q other hold
  callers d ep hep := by
    by_cases hdc : d = c
    · subst hdc
      rw [phase_accept_self] at hep
      exact ⟨caller, hcaller, hpast, Option.some.inj hep⟩
    · rw [phase_accept_ne hdc] at hep
      exact h.callers d ep hep
  replied d other answer hd hreply := by
    obtain ⟨q, id, approve, ep, reg', hphase, hq, hanswer⟩ := h.replied d other answer hd hreply
    refine ⟨q, id, approve, ep, _, ?_, set_get hq,
      hanswer.trans (answer_set hreg hq (by rfl) approve)⟩
    rw [phase_accept_ne (ne_of_phase habsent hphase (by simp)), hphase]
  returned := h.returned

/-- A queued request is forwarded under the next id. -/
theorem Linked.issue (h : Linked s) {req : PlsRendezvous} (hreg : s.registrations[r]? = some reg)
    (hreq : reg.queue = some req) (hmax : reg.ctr.toNat + 1 < 2^64) :
    Linked { s with
      registrations := s.registrations.set r { reg with
        ctr := reg.ctr + 1, inflight := reg.inflight.insert reg.ctr req.reply,
        queue := none, stage := .yielding }
      log := .issue (r, reg.ctr) req.reply req.ep :: s.log } := by
  have haccepted := h.queued r reg req hreg hreq
  have hctr : (reg.ctr + 1).toNat = reg.ctr.toNat + 1 := by
    rw [UInt64.toNat_add, UInt64.toNat_one, Nat.mod_eq_of_lt hmax]
  have hpos := h.counting r reg hreg
  have hnew : (r, reg.ctr) ∉ keys s.log := by
    intro hmem
    obtain ⟨other, hr, -, hlt⟩ := h.fresh r reg.ctr hmem
    obtain rfl := Option.some.inj (hreg.symm.trans hr)
    exact Nat.lt_irrefl _ hlt
  refine ⟨.issue h.lawful haccepted hnew, fun q other req' hq hreq' => ?_,
    fun q other id d hq hd => ?_, fun q id hmem => ?_, fun q other hq => ?_, fun d ep hep => ?_,
    fun d other answer hd hreply => ?_, h.returned⟩
  · obtain ⟨rfl, rfl⟩ | ⟨hrq, hold⟩ := set_cases hq
    · cases hreq'
    · have hphase := h.queued q other req' hold hreq'
      rw [phase_issue_ne (ne_of_phase haccepted hphase (by simp [Ne.symm hrq])), hphase]
  · have hold : (d = req.reply ∧ q = r ∧ id = reg.ctr) ∨
        ∃ ep, phase s.log d = .issued (q, id) ep := by
      obtain ⟨rfl, rfl⟩ | ⟨-, hold⟩ := set_cases hq
      · simp only [Std.TreeMap.getElem?_insert] at hd
        split at hd
        · rename_i heq
          exact .inl ⟨(Option.some.inj hd).symm, rfl, (Std.LawfulEqCmp.eq_of_compare heq).symm⟩
        · exact .inr (h.inflight r reg id d hreg hd)
      · exact .inr (h.inflight q other id d hold hd)
    obtain ⟨rfl, rfl, rfl⟩ | ⟨ep, hphase⟩ := hold
    · exact ⟨req.ep, phase_issue_self⟩
    · exact ⟨ep, by rw [phase_issue_ne (ne_of_phase haccepted hphase (by simp)), hphase]⟩
  · obtain heq | htail := List.mem_cons.mp hmem
    · obtain ⟨rfl, rfl⟩ := Prod.mk.inj heq
      exact ⟨_, set_get_self hreg, hpos, by simp only [hctr]; omega⟩
    · obtain ⟨other, hq, hid⟩ := h.fresh q id htail
      exact set_keeps hreg (fun hid => ⟨hid.1, by simp only [hctr]; omega⟩) hq hid
  · obtain ⟨rfl, rfl⟩ | ⟨-, hold⟩ := set_cases hq
    · simp only [hctr]
      omega
    · exact h.counting q other hold
  · rw [issue_payload haccepted] at hep
    exact h.callers d ep hep
  · obtain ⟨q, id, approve, ep, reg', hphase, hq, hanswer⟩ := h.replied d other answer hd hreply
    refine ⟨q, id, approve, ep, _, ?_, set_get hq,
      hanswer.trans (answer_set hreg hq (by rfl) approve)⟩
    rw [phase_issue_ne (ne_of_phase haccepted hphase (by simp)), hphase]

theorem Linked.ignore (h : Linked s) (k : Nat × UInt64) (approve : Bool) :
    Linked { s with log := .decide k approve none :: s.log } :=
  ⟨.ignore h.lawful, h.queued, h.inflight, h.fresh, h.counting, h.callers, h.replied, h.returned⟩

/-- A decision answers the call whose sender is kept under its id. -/
theorem Linked.answer (h : Linked s) {id : UInt64} (approve : Bool)
    (hreg : s.registrations[r]? = some reg) (hid : reg.inflight[id]? = some c)
    (hcaller : s.callers[c]? = some caller) (hwaiting : caller.stage = .waiting) :
    Linked { s with
      registrations := s.registrations.set r { reg with inflight := reg.inflight.erase id }
      callers := s.callers.set c { caller with reply := some (reg.answer approve) }
      log := .decide (r, id) approve (some c) :: s.log } := by
  obtain ⟨ep, hissued⟩ := h.inflight r reg id c hreg hid
  refine ⟨.answer h.lawful hissued, fun q other req hq hreq => ?_, fun q other id' d hq hd => ?_,
    fun q id' hmem => ?_, fun q other hq => ?_, fun d ep' hep => ?_,
    fun d other answer hd hreply => ?_, fun d other hd => ?_⟩
  · have hphase : phase s.log req.reply = .accepted q req.ep := by
      obtain ⟨rfl, rfl⟩ | ⟨-, hold⟩ := set_cases hq
      · exact h.queued r reg req hreg hreq
      · exact h.queued q other req hold hreq
    rw [phase_answer_ne (ne_of_phase hissued hphase (by simp)), hphase]
  · have hold : ¬(q = r ∧ id' = id) ∧ ∃ ep, phase s.log d = .issued (q, id') ep := by
      obtain ⟨rfl, rfl⟩ | ⟨hrq, hold⟩ := set_cases hq
      · simp only [Std.TreeMap.getElem?_erase] at hd
        split at hd
        · cases hd
        · rename_i hne
          refine ⟨fun heq => hne ?_, h.inflight r reg id' d hreg hd⟩
          rw [heq.2]
          exact Std.ReflCmp.compare_self
      · exact ⟨fun heq => hrq heq.1.symm, h.inflight q other id' d hold hd⟩
    obtain ⟨hne, ep', hphase⟩ := hold
    have hdc := ne_of_phase hissued hphase (by simpa using fun hq hid' => (hne ⟨hq, hid'⟩).elim)
    exact ⟨ep', by rw [phase_answer_ne hdc, hphase]⟩
  · obtain ⟨other, hq, hid'⟩ := h.fresh q id' hmem
    exact set_keeps hreg (fun hid' => hid') hq hid'
  · obtain ⟨rfl, rfl⟩ | ⟨-, hold⟩ := set_cases hq
    · exact h.counting r reg hreg
    · exact h.counting q other hold
  · rw [answer_payload hissued] at hep
    obtain ⟨other, hd, hother⟩ := h.callers d ep' hep
    exact set_keeps hcaller (fun hother => hother) hd hother
  · obtain ⟨rfl, rfl⟩ | ⟨hcd, hold⟩ := set_cases hd
    · obtain rfl := Option.some.inj hreply
      exact ⟨r, id, approve, ep, _, phase_answer_self hissued, set_get_self hreg, rfl⟩
    · obtain ⟨q, id', approve', ep', reg', hphase, hq, hanswer⟩ :=
        h.replied d other answer hold hreply
      refine ⟨q, id', approve', ep', _, ?_, set_get hq,
        hanswer.trans (answer_set hreg hq (by rfl) approve')⟩
      rw [phase_answer_ne (Ne.symm hcd), hphase]
  · obtain ⟨rfl, rfl⟩ | ⟨-, hold⟩ := set_cases hd
    · simp only [hwaiting]
      trivial
    · exact h.returned d other hold

theorem Linked.stop (h : Linked s) (hreg : s.registrations[r]? = some reg) :
    Linked { s with registrations := s.registrations.set r reg.stop } := by
  refine h.registration hreg rfl rfl (fun req hreq => ?_) fun id d hd => ?_
  · cases hreq
  · simp [Registration.stop] at hd

theorem Linked.retain (h : Linked s) {inflight : Std.TreeMap UInt64 Nat}
    (hreg : s.registrations[r]? = some reg)
    (hsub : ∀ (id : UInt64) (c : Nat), inflight[id]? = some c → reg.inflight[id]? = some c) :
    Linked (s.retain r { reg with inflight }) := by
  refine h.registration hreg rfl rfl (fun req hreq => hreq) fun id d hd => ?_
  rw [Std.TreeMap.getElem?_filter'] at hd
  exact hsub id d (Option.filter_eq_some_iff.mp hd).1

theorem erase_sub {inflight : Std.TreeMap UInt64 Nat} {id id' : UInt64}
    (h : (inflight.erase id)[id']? = some c) : inflight[id']? = some c := by
  rw [Std.TreeMap.getElem?_erase] at h
  split at h
  · cases h
  · exact h

/-- The sender leaves the map when it is used, also if nobody waits any more. -/
theorem Linked.decide (h : Linked s) (hreg : s.registrations[r]? = some reg) (id : UInt64)
    (approve : Bool) : Linked (s.decide r reg id approve) := by
  unfold Handler.decide
  cases hid : reg.inflight[id]? with
  | none => exact (h.ignore (r, id) approve).retain hreg fun _ _ hc => hc
  | some c =>
    cases hwaits : s.waits c with
    | false =>
      simp only [Handler.reply, hwaits, Bool.false_eq_true, if_false]
      exact (h.ignore (r, id) approve).retain hreg fun _ _ hc => erase_sub hc
    | true =>
      obtain ⟨caller, hcaller, hwaiting⟩ := (Option.any_eq_true _ _).mp hwaits
      have hanswer := h.answer approve hreg hid hcaller (of_decide_eq_true hwaiting)
      have hretain := hanswer.retain (set_get_self hreg) fun _ _ hc => hc
      simp only [Handler.reply, hwaits, if_true, modify_get hcaller]
      rw [Handler.retain, List.set_set] at hretain
      exact hretain

theorem Linked.message (h : Linked s) (hreg : s.registrations[r]? = some reg) (req : Option Req) :
    Linked (s.message r reg req) := by
  unfold Handler.message
  split
  · exact h.decide hreg _ true
  · exact h.decide hreg _ false
  · exact h.retain hreg fun _ _ hc => hc

theorem Linked.forward (h : Linked s) {req : PlsRendezvous} (hreg : s.registrations[r]? = some reg)
    (hreq : reg.queue = some req) : Linked (s.forward r reg req) := by
  by_cases hmax : reg.ctr.toNat + 1 < 2^64
  · rw [Handler.forward, if_pos hmax]
    exact h.issue hreg hreq hmax
  · rw [Handler.forward, if_neg hmax]
    exact h.stop hreg

theorem Linked.absent (h : Linked s) (hcaller : s.callers[c]? = some caller)
    (hpast : ¬caller.stage.Past) : phase s.log c = .absent := by
  apply absent_of_payload
  cases hpayload : (phase s.log c).payload with
  | none => rfl
  | some ep =>
    obtain ⟨other, hc, hother, -⟩ := h.callers c ep hpayload
    obtain rfl := Option.some.inj (hcaller.symm.trans hc)
    exact (hpast hother).elim

theorem Linked.enqueue (h : Linked s) (hcaller : s.callers[c]? = some caller)
    (hstage : caller.stage = .enqueueing r) (henqueue : s.enqueue c caller r = some s') :
    Linked s' := by
  obtain ⟨reg, hreg, henqueue⟩ := Option.bind_eq_some_iff.mp henqueue
  have hpast : ¬caller.stage.Past := by
    rw [hstage]
    exact id
  split at henqueue
  · obtain rfl := Option.some.inj henqueue
    exact h.moveTo hcaller (fun _ => trivial) (by simp [CallStage.Agrees])
  · split at henqueue
    · obtain rfl := Option.some.inj henqueue
      have hwaiting : Linked (s.moveTo c caller .waiting) :=
        h.moveTo hcaller (fun _ => trivial) trivial
      have hcaller' : (s.moveTo c caller .waiting).callers[c]? =
          some { caller with stage := .waiting } := set_get_self hcaller
      have haccept := hwaiting.accept hreg hcaller' trivial (h.absent hcaller hpast)
      exact haccept
    · cases henqueue

theorem Linked.wake (h : Linked s) (hcaller : s.callers[c]? = some caller)
    (hwake : s.wake c caller = some s') : Linked s' := by
  unfold Handler.wake at hwake
  split at hwake
  · rename_i ep hreply
    obtain rfl := Option.some.inj hwake
    exact h.moveTo hcaller (fun _ => trivial) hreply
  · rename_i hreply
    obtain rfl := Option.some.inj hwake
    exact h.moveTo hcaller (fun _ => trivial) fun _ => hreply
  · split at hwake
    · cases hwake
    · obtain rfl := Option.some.inj hwake
      exact h.moveTo hcaller (fun _ => trivial) (by simp [CallStage.Agrees])

theorem Linked.lookUp (h : Linked s) (hcaller : s.callers[c]? = some caller)
    (hstage : caller.stage = .looking) : Linked (s.lookUp c caller) := by
  have hpast (stage : CallStage) (hp : caller.stage.Past) : stage.Past := by
    rw [hstage] at hp
    exact hp.elim
  unfold Handler.lookUp
  split
  · exact h.moveTo hcaller (hpast _) trivial
  · exact h.moveTo hcaller (hpast _) (by simp [CallStage.Agrees])

theorem register_cases (s : Handler) (first : Option Req) :
    (∃ status, s.register first = .error status) ∨ ∃ mappings name endpoint,
      s.register first = .ok { s with
        mappings, registrations := s.registrations ++ [.start name endpoint] } := by
  unfold Handler.register
  split
  · rename_i name endpoint
    cases validateEndpoint endpoint true with
    | error status => exact .inl ⟨status, rfl⟩
    | ok _ =>
      cases s.inUse name with
      | false => exact .inr ⟨_, name, endpoint, rfl⟩
      | true => exact .inl ⟨_, rfl⟩
  · exact .inl ⟨_, rfl⟩
  · exact .inl ⟨_, rfl⟩

theorem rendezvous_cases (s : Handler) (name : String) (endpoint : Option Endpoint) :
    (∃ status, s.rendezvous name endpoint = .error status) ∨ ∃ ep,
      s.rendezvous name endpoint = .ok { s with
        callers := s.callers ++ [{ name, ep, stage := .looking, reply := none }] } := by
  unfold Handler.rendezvous
  split
  · rename_i ep
    cases validateEndpoint ep false with
    | error status => exact .inl ⟨status, rfl⟩
    | ok _ => exact .inr ⟨ep, rfl⟩
  · exact .inl ⟨_, rfl⟩

theorem Linked.step (h : Linked s) (hstep : s.step a = some s') : Linked s' := by
  cases a with
  | register first =>
    obtain rfl := Option.some.inj hstep
    obtain ⟨status, heq⟩ | ⟨mappings, name, endpoint, heq⟩ := register_cases s first
    · rw [heq]
      exact h
    · rw [heq]
      exact h.register mappings name endpoint
  | rendezvous name endpoint =>
    obtain rfl := Option.some.inj hstep
    obtain ⟨status, heq⟩ | ⟨ep, heq⟩ := rendezvous_cases s name endpoint
    · rw [heq]
      exact h
    · rw [heq]
      exact h.rendezvous name ep
  | lookUp c =>
    obtain ⟨caller, hcaller, hstep⟩ := Option.bind_eq_some_iff.mp hstep
    split at hstep
    · rename_i hstage
      obtain rfl := Option.some.inj hstep
      exact h.lookUp hcaller hstage
    · cases hstep
  | enqueue c =>
    obtain ⟨caller, hcaller, hstep⟩ := Option.bind_eq_some_iff.mp hstep
    split at hstep
    · rename_i r hstage
      exact h.enqueue hcaller hstage hstep
    · cases hstep
  | wake c =>
    obtain ⟨caller, hcaller, hstep⟩ := Option.bind_eq_some_iff.mp hstep
    split at hstep
    · exact h.wake hcaller hstep
    · cases hstep
  | giveUp c =>
    obtain ⟨caller, hcaller, hstep⟩ := Option.bind_eq_some_iff.mp hstep
    split at hstep
    · cases hstep
    · cases hstep
    · obtain rfl := Option.some.inj hstep
      exact h.moveTo hcaller (fun _ => trivial) trivial
  | forward r =>
    obtain ⟨reg, hreg, hstep⟩ := Option.bind_eq_some_iff.mp hstep
    obtain ⟨req, hreq, hstep⟩ := Option.bind_eq_some_iff.mp hstep
    split at hstep
    · obtain rfl := Option.some.inj hstep
      exact h.forward hreg hreq
    · cases hstep
  | resume r =>
    obtain ⟨reg, hreg, hstep⟩ := Option.bind_eq_some_iff.mp hstep
    split at hstep
    · obtain rfl := Option.some.inj hstep
      exact h.retain hreg fun _ _ hc => hc
    · cases hstep
  | message r req =>
    obtain ⟨reg, hreg, hstep⟩ := Option.bind_eq_some_iff.mp hstep
    split at hstep
    · obtain rfl := Option.some.inj hstep
      exact h.message hreg req
    · cases hstep
  | stop r =>
    obtain ⟨reg, hreg, hstep⟩ := Option.bind_eq_some_iff.mp hstep
    split at hstep
    · cases hstep
    · obtain rfl := Option.some.inj hstep
      exact h.stop hreg

theorem linked_run (h : Reaches Handler.step .start s) : Linked s :=
  h.invariant Linked.start fun hlinked _ hstep => hlinked.step hstep

end Run

end NineWire.Mediator
