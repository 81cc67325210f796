import NineWire.Mediator.Rendezvous

/-! Which registration a name stands for. An entry of `mappings` outlives its
stream, and is replaced only once the receiver of that stream is gone. -/
namespace NineWire.Mediator
open NineWire.Correlation NineWire.Table NineWire.Transition

def Caller.place (caller : Caller) : String × CallStage := (caller.name, caller.stage)

inductive Effect (s : Handler) : Action → Handler → Prop
  | refused {a} : Effect s a s
  | register {name endpoint} (hvalid : validateEndpoint endpoint true = .ok ())
      (hfree : s.inUse name = false) :
      Effect s (.register (some (.registration name (some endpoint))))
        { s with
          mappings := s.mappings.insert name s.registrations.length
          registrations := s.registrations ++ [.start name endpoint] }
  | rendezvous {name ep} : Effect s (.rendezvous name (some ep))
        { s with callers := s.callers ++ [{ name, ep, stage := .looking, reply := none }] }
  | call {a c caller stage} (hcaller : s.callers[c]? = some caller)
      (hfound : ∀ r, stage = .enqueueing r → s.mappings[caller.name]? = some r) :
      Effect s a (s.moveTo c caller stage)
  | enqueue {c caller r reg} (hcaller : s.callers[c]? = some caller)
      (hstage : caller.stage = .enqueueing r) (hreg : s.registrations[r]? = some reg)
      (hlive : reg.stage ≠ .ended) :
      Effect s (.enqueue c)
        { s.moveTo c caller .waiting with
          registrations := s.registrations.set r { reg with queue := some ⟨caller.ep, c⟩ }
          log := .accept r c caller.ep :: s.log }
  | forward {r reg req} (hreg : s.registrations[r]? = some reg) (hreq : reg.queue = some req)
      (hlive : reg.stage ≠ .ended) :
      Effect s (.forward r)
        { s with
          registrations := s.registrations.set r { reg with
            ctr := reg.ctr + 1, inflight := reg.inflight.insert reg.ctr req.reply, queue := none,
            stage := .yielding }
          log := .issue (r, reg.ctr) req.reply req.ep :: s.log }
  | stream {a r reg reg' callers log} (hreg : s.registrations[r]? = some reg)
      (hname : reg'.name = reg.name) (hlive : reg'.stage ≠ .ended → reg.stage ≠ .ended)
      (hcallers : callers.map Caller.place = s.callers.map Caller.place)
      (hlog : log = s.log ∨ ∃ k approve o, log = .decide k approve o :: s.log) :
      Effect s a { s with registrations := s.registrations.set r reg', callers, log }

section Effect
variable {s s' : Handler} {a : Action} {r c : Nat} {reg : Registration} {caller : Caller}
  {name : String}

theorem register_effect (s : Handler) (first : Option Req) :
    Effect s (.register first) ((s.register first).toOption.getD s) := by
  unfold Handler.register
  split
  · rename_i name endpoint
    cases hvalid : validateEndpoint endpoint true with
    | error status => exact .refused
    | ok _ =>
      cases hfree : s.inUse name with
      | false => exact .register hvalid hfree
      | true => exact .refused
  · exact .refused
  · exact .refused

theorem rendezvous_effect (s : Handler) (name : String) (endpoint : Option Endpoint) :
    Effect s (.rendezvous name endpoint) ((s.rendezvous name endpoint).toOption.getD s) := by
  unfold Handler.rendezvous
  split
  · rename_i ep
    cases validateEndpoint ep false with
    | error status => exact .refused
    | ok _ => exact .rendezvous
  · exact .refused

theorem lookUp_effect (hcaller : s.callers[c]? = some caller) :
    Effect s a (s.lookUp c caller) := by
  unfold Handler.lookUp
  split
  · rename_i r hmapped
    refine .call hcaller fun r' heq => ?_
    obtain rfl := CallStage.enqueueing.inj heq
    exact hmapped
  · exact .call hcaller (by simp)

theorem enqueue_effect (hcaller : s.callers[c]? = some caller)
    (hstage : caller.stage = .enqueueing r) (h : s.enqueue c caller r = some s') :
    Effect s (.enqueue c) s' := by
  obtain ⟨reg, hreg, h⟩ := Option.bind_eq_some_iff.mp h
  split at h
  · obtain rfl := Option.some.inj h
    exact .call hcaller (by simp)
  · rename_i hlive
    split at h
    · obtain rfl := Option.some.inj h
      exact .enqueue hcaller hstage hreg hlive
    · cases h

theorem wake_effect (hcaller : s.callers[c]? = some caller) (h : s.wake c caller = some s') :
    Effect s a s' := by
  unfold Handler.wake at h
  split at h
  · obtain rfl := Option.some.inj h
    exact .call hcaller (by simp)
  · obtain rfl := Option.some.inj h
    exact .call hcaller (by simp)
  · split at h
    · cases h
    · obtain rfl := Option.some.inj h
      exact .call hcaller (by simp)

theorem stop_effect (hreg : s.registrations[r]? = some reg) :
    Effect s a { s with registrations := s.registrations.set r reg.stop } :=
  .stream hreg rfl (fun hlive => (hlive rfl).elim) rfl (.inl rfl)

theorem forward_effect {req : PlsRendezvous} (hreg : s.registrations[r]? = some reg)
    (hreq : reg.queue = some req) (hstage : reg.stage = .selecting) :
    Effect s (.forward r) (s.forward r reg req) := by
  have hlive : reg.stage ≠ .ended := by simp [hstage]
  by_cases hmax : reg.ctr.toNat + 1 < 2^64
  · rw [Handler.forward, if_pos hmax]
    exact .forward hreg hreq hlive
  · rw [Handler.forward, if_neg hmax]
    exact stop_effect hreg

theorem retain_effect (hreg : s.registrations[r]? = some reg) (hlive : reg.stage ≠ .ended) :
    Effect s a (s.retain r reg) :=
  .stream hreg rfl (fun _ => hlive) rfl (.inl rfl)

theorem reply_place (callers : List Caller) (c : Nat) (answer : Option (Option Endpoint)) :
    (callers.modify c fun caller => { caller with reply := answer }).map Caller.place =
      callers.map Caller.place := by
  refine List.ext_getElem? fun i => ?_
  simp only [List.getElem?_map, List.getElem?_modify]
  cases callers[i]? with
  | none => rfl
  | some caller => by_cases hci : c = i <;> simp [hci, Caller.place]

theorem decide_effect (hreg : s.registrations[r]? = some reg) (hlive : reg.stage ≠ .ended)
    (id : UInt64) (approve : Bool) : Effect s a (s.decide r reg id approve) := by
  unfold Handler.decide
  split
  · rename_i c hc
    cases hwaits : s.waits c with
    | false =>
      simp only [Handler.reply, hwaits, Bool.false_eq_true, if_false]
      exact .stream hreg rfl (fun _ => hlive) rfl (.inr ⟨_, _, _, rfl⟩)
    | true =>
      simp only [Handler.reply, hwaits, if_true]
      exact .stream hreg rfl (fun _ => hlive) (reply_place s.callers c _) (.inr ⟨_, _, _, rfl⟩)
  · exact .stream hreg rfl (fun _ => hlive) rfl (.inr ⟨_, _, _, rfl⟩)

theorem message_effect (hreg : s.registrations[r]? = some reg) (hlive : reg.stage ≠ .ended)
    (req : Option Req) : Effect s a (s.message r reg req) := by
  unfold Handler.message
  split
  · exact decide_effect hreg hlive _ true
  · exact decide_effect hreg hlive _ false
  · exact retain_effect hreg hlive

theorem step_effect (hstep : s.step a = some s') : Effect s a s' := by
  cases a with
  | register first =>
    obtain rfl := Option.some.inj hstep
    exact register_effect s first
  | rendezvous name endpoint =>
    obtain rfl := Option.some.inj hstep
    exact rendezvous_effect s name endpoint
  | lookUp c =>
    obtain ⟨caller, hcaller, hstep⟩ := Option.bind_eq_some_iff.mp hstep
    obtain ⟨-, hstep⟩ := Option.ite_none_right_eq_some.mp hstep
    obtain rfl := Option.some.inj hstep
    exact lookUp_effect hcaller
  | enqueue c =>
    obtain ⟨caller, hcaller, hstep⟩ := Option.bind_eq_some_iff.mp hstep
    split at hstep
    · rename_i r hstage
      exact enqueue_effect hcaller hstage hstep
    · cases hstep
  | wake c =>
    obtain ⟨caller, hcaller, hstep⟩ := Option.bind_eq_some_iff.mp hstep
    obtain ⟨-, hstep⟩ := Option.ite_none_right_eq_some.mp hstep
    exact wake_effect hcaller hstep
  | giveUp c =>
    obtain ⟨caller, hcaller, hstep⟩ := Option.bind_eq_some_iff.mp hstep
    split at hstep
    · cases hstep
    · cases hstep
    · obtain rfl := Option.some.inj hstep
      exact .call hcaller (by simp)
  | forward r =>
    obtain ⟨reg, hreg, hstep⟩ := Option.bind_eq_some_iff.mp hstep
    obtain ⟨req, hreq, hstep⟩ := Option.bind_eq_some_iff.mp hstep
    obtain ⟨hstage, hstep⟩ := Option.ite_none_right_eq_some.mp hstep
    obtain rfl := Option.some.inj hstep
    exact forward_effect hreg hreq hstage
  | resume r =>
    obtain ⟨reg, hreg, hstep⟩ := Option.bind_eq_some_iff.mp hstep
    obtain ⟨hstage, hstep⟩ := Option.ite_none_right_eq_some.mp hstep
    obtain rfl := Option.some.inj hstep
    exact retain_effect hreg (by simp [hstage])
  | message r req =>
    obtain ⟨reg, hreg, hstep⟩ := Option.bind_eq_some_iff.mp hstep
    obtain ⟨hstage, hstep⟩ := Option.ite_none_right_eq_some.mp hstep
    obtain rfl := Option.some.inj hstep
    exact message_effect hreg (by simp [hstage]) req
  | stop r =>
    obtain ⟨reg, hreg, hstep⟩ := Option.bind_eq_some_iff.mp hstep
    split at hstep
    · cases hstep
    · obtain rfl := Option.some.inj hstep
      exact stop_effect hreg

def Handler.Named (s : Handler) (name : String) (r : Nat) : Prop :=
  ∃ reg : Registration, s.registrations[r]? = some reg ∧ reg.name = name

def Handler.LiveFor (s : Handler) (name : String) (r : Nat) : Prop :=
  ∃ reg : Registration, s.registrations[r]? = some reg ∧ reg.name = name ∧ reg.stage ≠ .ended

theorem Handler.Named.set {reg' : Registration} {q : Nat} (h : s.Named name q)
    (hreg : s.registrations[r]? = some reg)
    (hset : s'.registrations = s.registrations.set r reg') (hname : reg'.name = reg.name) :
    s'.Named name q := by
  obtain ⟨other, hq, hother⟩ := h
  unfold Handler.Named
  rw [hset]
  exact set_keeps hreg (P := fun reg => reg.name = name) hname.trans hq hother

theorem Handler.LiveFor.of_set {reg' : Registration} {q : Nat} (h : s'.LiveFor name q)
    (hreg : s.registrations[r]? = some reg)
    (hset : s'.registrations = s.registrations.set r reg') (hname : reg'.name = reg.name)
    (hopen : reg'.stage ≠ .ended → reg.stage ≠ .ended) : s.LiveFor name q := by
  obtain ⟨other, hq, hother, hstage⟩ := h
  rw [hset] at hq
  obtain ⟨rfl, rfl⟩ | ⟨-, hold⟩ := set_cases hq
  · exact ⟨reg, hreg, hname.symm.trans hother, hopen hstage⟩
  · exact ⟨other, hold, hother, hstage⟩

/-- Only a registration comes to life, and the mapping then is to it. -/
theorem Effect.live (h : Effect s a s') {q : Nat} (hlive : s'.LiveFor name q) :
    s.LiveFor name q ∨ s'.mappings[name]? = some q := by
  cases h with
  | register hvalid hfree =>
    obtain ⟨reg, hq, rfl, hstage⟩ := hlive
    obtain hold | ⟨rfl, rfl⟩ := append_cases hq
    · exact .inl ⟨reg, hold, rfl, hstage⟩
    · exact .inr (by simp [Registration.start])
  | enqueue hcaller hstage hreg hopen => exact .inl (hlive.of_set hreg rfl rfl id)
  | forward hreg hreq hopen => exact .inl (hlive.of_set hreg rfl rfl fun _ => hopen)
  | stream hreg hname hopen hcallers hlog => exact .inl (hlive.of_set hreg rfl hname hopen)
  | _ => exact .inl hlive

/-- A mapping changes only while its registration is not live. -/
theorem Effect.mapping (h : Effect s a s') (name : String) :
    s'.mappings[name]? = s.mappings[name]? ∨
      (s.inUse name = false ∧ ∃ r, s'.mappings[name]? = some r ∧ s'.Named name r) := by
  cases h with
  | @register name' endpoint hvalid hfree =>
    by_cases heq : name' = name
    · subst heq
      exact .inr ⟨hfree, _, by simp, _, List.getElem?_concat_length, rfl⟩
    · refine .inl ?_
      rw [Std.TreeMap.getElem?_insert, if_neg (by simpa using heq)]
  | _ => exact .inl rfl

theorem Effect.named (h : Effect s a s') {q : Nat} (hq : s.Named name q) : s'.Named name q := by
  cases h with
  | register hvalid hfree =>
    obtain ⟨reg, hreg, hname⟩ := hq
    exact ⟨reg, append_get hreg, hname⟩
  | enqueue hcaller hstage hreg hopen => exact hq.set hreg rfl rfl
  | forward hreg hreq hopen => exact hq.set hreg rfl rfl
  | stream hreg hname hopen hcallers hlog => exact hq.set hreg rfl hname
  | _ => exact hq

theorem place_get {callers callers' : List Caller}
    (h : callers'.map Caller.place = callers.map Caller.place) (hc : callers[c]? = some caller) :
    ∃ caller', callers'[c]? = some caller' ∧ caller'.place = caller.place := by
  have hplace : (callers'.map Caller.place)[c]? = some caller.place := by
    rw [h, List.getElem?_map, hc, Option.map_some]
  rw [List.getElem?_map] at hplace
  exact Option.map_eq_some_iff.mp hplace

theorem moveTo_sameName (hcaller : s.callers[c]? = some caller) (stage : CallStage) {d : Nat}
    {other : Caller} (hd : s.callers[d]? = some other) :
    ∃ other' : Caller, (s.moveTo c caller stage).callers[d]? = some other' ∧
      other'.name = other.name := by
  have hkeep (h : caller.name = other.name) : { caller with stage }.name = other.name := h
  exact set_keeps hcaller (P := fun caller => caller.name = other.name) hkeep hd rfl

theorem Effect.sameName (h : Effect s a s') {d : Nat} {other : Caller}
    (hd : s.callers[d]? = some other) :
    ∃ other' : Caller, s'.callers[d]? = some other' ∧ other'.name = other.name := by
  cases h with
  | rendezvous => exact ⟨other, append_get hd, rfl⟩
  | call hcaller hfound => exact moveTo_sameName hcaller _ hd
  | enqueue hcaller hstage hreg hopen => exact moveTo_sameName hcaller .waiting hd
  | stream hreg hname hopen hcallers hlog =>
    obtain ⟨other', hd', hplace⟩ := place_get hcallers hd
    exact ⟨other', hd', (Prod.mk.inj hplace).1⟩
  | _ => exact ⟨other, hd, rfl⟩

theorem Effect.looked (h : Effect s a s') {d : Nat} {other : Caller}
    (hd : s'.callers[d]? = some other) (hstage : other.stage = .enqueueing r) :
    s.mappings[other.name]? = some r ∨
      ∃ old : Caller, s.callers[d]? = some old ∧ old.place = other.place := by
  cases h with
  | rendezvous =>
    obtain hold | ⟨-, rfl⟩ := append_cases hd
    · exact .inr ⟨other, hold, rfl⟩
    · cases hstage
  | call hcaller hfound =>
    obtain ⟨rfl, rfl⟩ | ⟨-, hold⟩ := set_cases hd
    · exact .inl (hfound r hstage)
    · exact .inr ⟨other, hold, rfl⟩
  | enqueue hcaller hwas hreg hopen =>
    obtain ⟨rfl, rfl⟩ | ⟨-, hold⟩ := set_cases hd
    · cases hstage
    · exact .inr ⟨other, hold, rfl⟩
  | stream hreg hname hopen hcallers hlog => exact .inr (place_get hcallers.symm hd)
  | _ => exact .inr ⟨other, hd, rfl⟩

theorem Effect.accepted (h : Effect s a s') {ep : Endpoint} (hold : .accept r c ep ∉ s.log)
    (hnew : .accept r c ep ∈ s'.log) : ∃ caller : Caller, ∃ reg : Registration,
      s.callers[c]? = some caller ∧ caller.stage = .enqueueing r ∧
      s.registrations[r]? = some reg ∧ reg.stage ≠ .ended := by
  cases h with
  | enqueue hcaller hstage hreg hopen =>
    obtain heq | hmem := List.mem_cons.mp hnew
    · obtain ⟨rfl, rfl, rfl⟩ := Event.accept.inj heq
      exact ⟨_, _, hcaller, hstage, hreg, hopen⟩
    · exact (hold hmem).elim
  | forward hreg hreq hopen => exact (hold (List.mem_of_ne_of_mem (by simp) hnew)).elim
  | stream hreg hname hopen hcallers hlog =>
    obtain rfl | ⟨k, approve, o, rfl⟩ := hlog
    · exact (hold hnew).elim
    · exact (hold (List.mem_of_ne_of_mem (by simp) hnew)).elim
  | _ => exact (hold hnew).elim

theorem Effect.issued (h : Effect s a s') {id : UInt64} {ep : Endpoint}
    (hold : .issue (r, id) c ep ∉ s.log) (hnew : .issue (r, id) c ep ∈ s'.log) :
    ∃ reg : Registration, s.registrations[r]? = some reg ∧ reg.stage ≠ .ended ∧
      reg.queue = some ⟨ep, c⟩ := by
  cases h with
  | enqueue hcaller hstage hreg hopen => exact (hold (List.mem_of_ne_of_mem (by simp) hnew)).elim
  | forward hreg hreq hopen =>
    obtain heq | hmem := List.mem_cons.mp hnew
    · obtain ⟨hkey, rfl, rfl⟩ := Event.issue.inj heq
      obtain ⟨rfl, -⟩ := Prod.mk.inj hkey
      exact ⟨_, hreg, hopen, hreq⟩
    · exact (hold hmem).elim
  | stream hreg hname hopen hcallers hlog =>
    obtain rfl | ⟨k, approve, o, rfl⟩ := hlog
    · exact (hold hnew).elim
    · exact (hold (List.mem_of_ne_of_mem (by simp) hnew)).elim
  | _ => exact (hold hnew).elim

structure Mapped (s : Handler) : Prop where
  current : ∀ name r, s.LiveFor name r → s.mappings[name]? = some r
  named : ∀ (name : String) r, s.mappings[name]? = some r → s.Named name r
  looked : ∀ (c : Nat) (caller : Caller) r, s.callers[c]? = some caller →
    caller.stage = .enqueueing r → s.Named caller.name r
  taken : ∀ r c ep, .accept r c ep ∈ s.log → ∃ caller : Caller,
    s.callers[c]? = some caller ∧ s.Named caller.name r

/-- A name is in use exactly while the registration it maps to is live. -/
theorem Mapped.inUse_iff (h : Mapped s) (name : String) :
    s.inUse name = true ↔ ∃ r, s.mappings[name]? = some r ∧ s.LiveFor name r := by
  unfold Handler.inUse
  constructor
  · intro huse
    split at huse
    · rename_i r hmapped
      obtain ⟨reg, hreg, hlive⟩ := (Option.any_eq_true _ _).mp huse
      obtain ⟨reg', hreg', hname⟩ := h.named name r hmapped
      obtain rfl := Option.some.inj (hreg.symm.trans hreg')
      exact ⟨r, hmapped, reg, hreg, hname, of_decide_eq_true hlive⟩
    · cases huse
  · intro hlive
    obtain ⟨r, hmapped, reg, hreg, -, hstage⟩ := hlive
    simp [hmapped, hreg, hstage]

/-- A live registration is not replaced. -/
theorem Mapped.kept (h : Mapped s) (heffect : Effect s a s') (hlive : s.LiveFor name r) :
    s'.mappings[name]? = some r := by
  have hmapped := h.current name r hlive
  obtain hsame | ⟨hfree, -⟩ := heffect.mapping name
  · rw [hsame, hmapped]
  · rw [(h.inUse_iff name).mpr ⟨r, hmapped, hlive⟩] at hfree
    cases hfree

theorem Mapped.step (h : Mapped s) (heffect : Effect s a s') : Mapped s' := by
  refine ⟨fun name r hlive => ?_, fun name r hmapped => ?_, fun c caller r hcaller hstage => ?_,
    fun r c ep hmem => ?_⟩
  · obtain hold | hnew := heffect.live hlive
    · exact h.kept heffect hold
    · exact hnew
  · obtain hsame | ⟨-, r', hnew, hnamed⟩ := heffect.mapping name
    · exact heffect.named (h.named name r (hsame.symm.trans hmapped))
    · obtain rfl := Option.some.inj (hmapped.symm.trans hnew)
      exact hnamed
  · obtain hfound | ⟨old, hold, hplace⟩ := heffect.looked hcaller hstage
    · exact heffect.named (h.named _ r hfound)
    · obtain ⟨hname, hwas⟩ := Prod.mk.inj hplace
      have hnamed := h.looked c old r hold (hwas.trans hstage)
      rw [hname] at hnamed
      exact heffect.named hnamed
  · have htaken : ∃ caller : Caller, s.callers[c]? = some caller ∧ s.Named caller.name r := by
      by_cases hold : .accept r c ep ∈ s.log
      · exact h.taken r c ep hold
      · obtain ⟨caller, reg, hcaller, hstage, -⟩ := heffect.accepted hold hmem
        exact ⟨caller, hcaller, h.looked c caller r hcaller hstage⟩
    obtain ⟨caller, hcaller, hnamed⟩ := htaken
    obtain ⟨caller', hcaller', hname⟩ := heffect.sameName hcaller
    rw [← hname] at hnamed
    exact ⟨caller', hcaller', heffect.named hnamed⟩

theorem mapped_run (h : Reaches Handler.step .start s) : Mapped s := by
  refine h.invariant ⟨fun name r hlive => ?_, fun name r hmapped => ?_,
    fun c caller r hcaller => ?_, fun r c ep hmem => ?_⟩
    fun hmapped _ hstep => hmapped.step (step_effect hstep)
  · obtain ⟨reg, hreg, -⟩ := hlive
    cases hreg
  · simp [Handler.start] at hmapped
  · cases hcaller
  · cases hmem

/-! What a run comes to. -/

theorem sameName_run {t : Handler} (h : Reaches Handler.step t s)
    (hcaller : t.callers[c]? = some caller) :
    ∃ caller' : Caller, s.callers[c]? = some caller' ∧ caller'.name = caller.name := by
  refine h.invariant (I := fun s => ∃ caller' : Caller, s.callers[c]? = some caller' ∧
    caller'.name = caller.name) ⟨caller, hcaller, rfl⟩ fun hs _ hstep => ?_
  obtain ⟨old, hold, hname⟩ := hs
  obtain ⟨new, hnew, hsame⟩ := (step_effect hstep).sameName hold
  exact ⟨new, hnew, hsame.trans hname⟩

def Handler.WhileLive (s : Handler) (e : Event) (name : String) (r : Nat) : Prop :=
  ∃ t a u, Reaches Handler.step .start t ∧ t.step a = some u ∧ Reaches Handler.step u s ∧
    e ∉ t.log ∧ e ∈ u.log ∧ t.mappings[name]? = some r ∧ t.LiveFor name r

theorem Handler.WhileLive.later {e : Event} {t : Handler} (h : t.WhileLive e name r)
    (hlater : Reaches Handler.step t s) : s.WhileLive e name r := by
  obtain ⟨u, a, v, hu, hstep, hv, hrest⟩ := h
  exact ⟨u, a, v, hu, hstep, hv.trans hlater, hrest⟩

theorem accepted_while_live {ep : Endpoint} (h : Reaches Handler.step .start s)
    (hmem : .accept r c ep ∈ s.log) : ∃ caller : Caller,
      s.callers[c]? = some caller ∧ s.WhileLive (.accept r c ep) caller.name r := by
  obtain ⟨t, a, u, ht, -, hstep, hu, hold, hnew⟩ :=
    h.appeared (P := fun s => .accept r c ep ∈ s.log) (by simp [Handler.start]) hmem
  obtain ⟨caller, reg, hcaller, hstage, hreg, hopen⟩ := (step_effect hstep).accepted hold hnew
  have hmapped := mapped_run ht
  obtain ⟨reg', hreg', hname⟩ := hmapped.looked c caller r hcaller hstage
  obtain rfl := Option.some.inj (hreg.symm.trans hreg')
  have hlive : t.LiveFor caller.name r := ⟨reg, hreg, hname, hopen⟩
  obtain ⟨caller', hcaller', hsame⟩ := sameName_run (.trans (.tail a .refl trivial hstep) hu) hcaller
  rw [← hsame] at hlive
  exact ⟨caller', hcaller', t, a, u, ht, hstep, hu, hold, hnew,
    hmapped.current _ r hlive, hlive⟩

/-- What is forwarded was put into the queue before, both while live. -/
theorem issued_while_live {id : UInt64} {ep : Endpoint} (h : Reaches Handler.step .start s)
    (hmem : .issue (r, id) c ep ∈ s.log) : ∃ caller : Caller, s.callers[c]? = some caller ∧
      s.WhileLive (.accept r c ep) caller.name r ∧
      s.WhileLive (.issue (r, id) c ep) caller.name r := by
  obtain ⟨t, a, u, ht, -, hstep, hu, hold, hnew⟩ :=
    h.appeared (P := fun s => .issue (r, id) c ep ∈ s.log) (by simp [Handler.start]) hmem
  obtain ⟨reg, hreg, hopen, hqueue⟩ := (step_effect hstep).issued hold hnew
  have hlater : Reaches Handler.step t s := .trans (.tail a .refl trivial hstep) hu
  have haccept := accept_mem ((linked_run ht).queued r reg ⟨ep, c⟩ hreg hqueue)
  obtain ⟨caller, hcaller, htaken⟩ := accepted_while_live ht haccept
  have hmapped := mapped_run ht
  obtain ⟨caller', hcaller', reg', hreg', hname⟩ := hmapped.taken r c ep haccept
  obtain rfl := Option.some.inj (hcaller.symm.trans hcaller')
  obtain rfl := Option.some.inj (hreg.symm.trans hreg')
  have hlive : t.LiveFor caller.name r := ⟨reg, hreg, hname, hopen⟩
  obtain ⟨caller', hcaller', hsame⟩ := sameName_run hlater hcaller
  rw [← hsame] at hlive htaken
  exact ⟨caller', hcaller', htaken.later hlater, t, a, u, ht, hstep, hu, hold, hnew,
    hmapped.current _ r hlive, hlive⟩

end Effect

theorem validateEndpoint_code {endpoint : Endpoint} {server : Bool} {status : Status}
    (h : validateEndpoint endpoint server = .error status) : status.code = .invalidArgument := by
  unfold validateEndpoint at h
  by_cases haddr : endpoint.addr.length ≠ 16
  · rw [if_pos haddr] at h
    exact congrArg Status.code (Except.error.inj h).symm
  by_cases hport : ¬(1 ≤ endpoint.port.toNat ∧ endpoint.port.toNat < 65536)
  · rw [if_neg haddr, if_pos hport] at h
    exact congrArg Status.code (Except.error.inj h).symm
  by_cases hclient : ¬server ∧ endpoint.pubkey ≠ []
  · rw [if_neg haddr, if_neg hport, if_pos hclient] at h
    exact congrArg Status.code (Except.error.inj h).symm
  rw [if_neg haddr, if_neg hport, if_neg hclient] at h
  split at h
  · exact congrArg Status.code (Except.error.inj h).symm
  · cases h

structure Registered (s : Handler) : Prop where
  /-- One live registration for a name. -/
  single : ∀ name r r', s.LiveFor name r → s.LiveFor name r' → r = r'
  mapped : ∀ name r, s.LiveFor name r → s.mappings[name]? = some r
  /-- Of what is well formed, that is refused whose name maps to a live one. -/
  refused : ∀ first,
    (∃ status, s.register first = .error status ∧ status.code = .alreadyExists) ↔
      ∃ name endpoint r, first = some (.registration name (some endpoint)) ∧
        validateEndpoint endpoint true = .ok () ∧ s.mappings[name]? = some r ∧ s.LiveFor name r
  /-- No step replaces a live registration. -/
  kept : ∀ name r, s.LiveFor name r → ∀ a s', s.step a = some s' → s'.mappings[name]? = some r
  /-- A call that got an endpoint was put before, and forwarded by, the
  registration that was live for its name then, and was approved by it. -/
  served : ∀ (c : Nat) (caller : Caller) ep, s.callers[c]? = some caller →
    caller.stage = .returned (.ok ep) → ∃ r id,
      s.WhileLive (.accept r c caller.ep) caller.name r ∧
      s.WhileLive (.issue (r, id) c caller.ep) caller.name r ∧ s.Decided r id true c caller.ep

theorem Mapped.refused_iff {s : Handler} (h : Mapped s) (first : Option Req) :
    (∃ status, s.register first = .error status ∧ status.code = .alreadyExists) ↔
      ∃ name endpoint r, first = some (.registration name (some endpoint)) ∧
        validateEndpoint endpoint true = .ok () ∧ s.mappings[name]? = some r ∧
        s.LiveFor name r := by
  constructor
  · intro hrefused
    obtain ⟨status, hregister, hcode⟩ := hrefused
    unfold Handler.register at hregister
    split at hregister
    · rename_i name endpoint
      cases hvalid : validateEndpoint endpoint true with
      | error status' =>
        rw [hvalid] at hregister
        obtain rfl := Except.error.inj hregister
        rw [validateEndpoint_code hvalid] at hcode
        cases hcode
      | ok _ =>
        rw [hvalid] at hregister
        cases huse : s.inUse name with
        | true =>
          obtain ⟨r, hmapped, hlive⟩ := (h.inUse_iff name).mp huse
          exact ⟨name, endpoint, r, rfl, hvalid, hmapped, hlive⟩
        | false =>
          rw [huse] at hregister
          cases hregister
    · obtain rfl := Except.error.inj hregister
      cases hcode
    · obtain rfl := Except.error.inj hregister
      cases hcode
  · intro hlive
    obtain ⟨name, endpoint, r, rfl, hvalid, hmapped, hlive⟩ := hlive
    have huse := (h.inUse_iff name).mpr ⟨r, hmapped, hlive⟩
    refine ⟨⟨.alreadyExists, "requested name is in use"⟩, ?_, rfl⟩
    rw [Handler.register, hvalid, huse]
    rfl

/-- Over any interleaving of streams, calls and endings of streams. -/
theorem one_live_registration (s : Handler) (h : Reaches Handler.step .start s) :
    Registered s := by
  have hmapped := mapped_run h
  refine ⟨fun name r r' hr hr' => ?_, hmapped.current, hmapped.refused_iff,
    fun name r hlive a s' hstep => hmapped.kept (step_effect hstep) hlive,
    fun c caller ep hcaller hstage => ?_⟩
  · have hsame := (hmapped.current name r hr).symm.trans (hmapped.current name r' hr')
    exact Option.some.inj hsame
  · obtain ⟨r, id, reg, -, -, hdecided⟩ := (linked_run h).approved hcaller hstage
    obtain ⟨newer, older, hlog, hissue⟩ := hdecided
    have hmem : .issue (r, id) c caller.ep ∈ s.log := by
      rw [hlog]
      exact List.mem_append_right newer (List.mem_cons_of_mem _ hissue)
    obtain ⟨caller', hcaller', htaken, hforwarded⟩ := issued_while_live h hmem
    obtain rfl := Option.some.inj (hcaller.symm.trans hcaller')
    exact ⟨r, id, htaken, hforwarded, newer, older, hlog, hissue⟩

def renewed : List Action :=
  [.register (some (.registration "host" (some registrant))),
    .register (some (.registration "host" (some registrant))), .stop 0,
    .register (some (.registration "host" (some registrant))),
    .rendezvous "host" (some (visitor 1000)), .lookUp 0, .enqueue 0, .forward 1, .resume 1,
    .message 1 (some (.approveId 1)), .wake 0]

theorem one_live_registration_renewed : ∃ s, exec Handler.step .start renewed = some s ∧
    s.callers.map Caller.stage = [.returned (.ok registrant)] ∧ Registered s := by
  have hrun : (exec Handler.step .start renewed).map (fun s => s.callers.map Caller.stage) =
      some [.returned (.ok registrant)] := by
    decide +kernel
  obtain ⟨s, hs, hstages⟩ := Option.map_eq_some_iff.mp hrun
  exact ⟨s, hs, hstages, one_live_registration s (reaches_of_exec hs)⟩

end NineWire.Mediator
