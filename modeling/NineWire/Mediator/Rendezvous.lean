import NineWire.Mediator.Senders

/-! Who is answered by a decision, and with what. -/
namespace NineWire.Mediator
open NineWire.Correlation NineWire.Transition

section Run
variable {s : Handler} {r c : Nat} {caller : Caller}

def Handler.ids (s : Handler) (r : Nat) : List UInt64 :=
  ((keys s.log).filter (·.1 = r)).map Prod.snd

/-- The registrant decided on the id under which the endpoint of call `c` was
forwarded, and that decision was the one to reach the call. -/
def Handler.Decided (s : Handler) (r : Nat) (id : UInt64) (approve : Bool) (c : Nat)
    (ep : Endpoint) :
    Prop :=
  ∃ newer older, s.log = newer ++ .decide (r, id) approve (some c) :: older ∧
    .issue (r, id) c ep ∈ older

theorem ids_nodup (h : Lawful s.log) (r : Nat) : (s.ids r).Nodup := by
  refine List.Nodup.map_on ?_ (h.keys_nodup.filter _)
  intro k hk k' hk' heq
  have hr := of_decide_eq_true (List.mem_filter.mp hk).2
  have hr' := of_decide_eq_true (List.mem_filter.mp hk').2
  exact Prod.ext (hr.trans hr'.symm) heq

theorem mem_ids {id : UInt64} : id ∈ s.ids r ↔ (r, id) ∈ keys s.log := by
  simp [Handler.ids]

theorem Linked.decided (h : Linked s) {id : UInt64} {approve : Bool} {ep : Endpoint}
    (hcaller : s.callers[c]? = some caller)
    (hphase : phase s.log c = .answered (r, id) approve ep) :
    s.Decided r id approve c caller.ep := by
  obtain ⟨newer, older, hlog, hissue⟩ := h.lawful.answered_after hphase
  obtain ⟨other, hc, -, rfl⟩ := h.callers c ep (by rw [hphase]; rfl)
  obtain rfl := Option.some.inj (hcaller.symm.trans hc)
  exact ⟨newer, older, hlog, hissue⟩

theorem Linked.approved (h : Linked s) {ep : Endpoint} (hcaller : s.callers[c]? = some caller)
    (hstage : caller.stage = .returned (.ok ep)) : ∃ r id, ∃ reg : Registration,
      s.registrations[r]? = some reg ∧ ep = reg.endpoint ∧ s.Decided r id true c caller.ep := by
  have hagrees := h.returned c caller hcaller
  rw [hstage] at hagrees
  obtain ⟨r, id, approve, ep', reg, hphase, hreg, hanswer⟩ :=
    h.replied c caller (some ep) hcaller hagrees
  cases approve with
  | true => exact ⟨r, id, reg, hreg, Option.some.inj hanswer, h.decided hcaller hphase⟩
  | false => cases hanswer

end Run

structure Brokers (s : Handler) : Prop where
  /-- Every request was forwarded under an id of its own. -/
  ids : ∀ r, (s.ids r).Nodup ∧ 0 ∉ s.ids r
  /-- An endpoint is returned on an approval of the id under which the caller's
  own was forwarded, and is the one of that registration. -/
  approved : ∀ (c : Nat) (caller : Caller) ep, s.callers[c]? = some caller →
    caller.stage = .returned (.ok ep) → ∃ r id, ∃ reg : Registration,
      s.registrations[r]? = some reg ∧ ep = reg.endpoint ∧ s.Decided r id true c caller.ep
  denied : ∀ (c : Nat) (caller : Caller) status, s.callers[c]? = some caller →
    caller.stage = .returned (.error status) → status.code = .permissionDenied →
    ∃ r id, s.Decided r id false c caller.ep
  /-- No call is answered twice. -/
  once : (answered s.log).Nodup
  /-- A decision that reaches a call is on an id that stands for this call alone. -/
  own : ∀ r id approve c, .decide (r, id) approve (some c) ∈ s.log →
    (∃ ep, .issue (r, id) c ep ∈ s.log) ∧ ∀ c' ep', .issue (r, id) c' ep' ∈ s.log → c' = c

/-- Over any interleaving, with any ids in the decisions. -/
theorem rendezvous_routing (s : Handler) (h : Reaches Handler.step .start s) : Brokers s := by
  have hlinked := linked_run h
  refine ⟨fun r => ⟨ids_nodup hlinked.lawful r, fun hzero => ?_⟩, ?_, ?_,
    hlinked.lawful.answered_nodup, ?_⟩
  · obtain ⟨-, -, hpos, -⟩ := hlinked.fresh r 0 (mem_ids.mp hzero)
    exact Nat.lt_irrefl 0 hpos
  · exact fun c caller ep hcaller hstage => hlinked.approved hcaller hstage
  · intro c caller status hcaller hstage hdenied
    have hagrees := hlinked.returned c caller hcaller
    rw [hstage] at hagrees
    obtain ⟨r, id, approve, ep', reg, hphase, hreg, hanswer⟩ :=
      hlinked.replied c caller none hcaller (hagrees hdenied)
    cases approve with
    | true => cases hanswer
    | false => exact ⟨r, id, hlinked.decided hcaller hphase⟩
  · intro r id approve c hdecide
    obtain ⟨ep, hphase⟩ := hlinked.lawful.answered_phase hdecide
    obtain ⟨newer, older, hlog, hissue⟩ := hlinked.lawful.answered_after hphase
    have hmem : .issue (r, id) c ep ∈ s.log := by
      rw [hlog]
      exact List.mem_append_right newer (List.mem_cons_of_mem _ hissue)
    exact ⟨⟨ep, hmem⟩, fun c' ep' hmem' => hlinked.lawful.owner_unique hmem' hmem⟩

def registrant : Endpoint := ⟨List.replicate 16 1, 5640, List.replicate 32 7⟩
def visitor (port : UInt32) : Endpoint := ⟨List.replicate 16 2, port, []⟩

def crossed : List Action :=
  [.register (some (.registration "host" (some registrant))),
    .rendezvous "host" (some (visitor 1000)), .rendezvous "host" (some (visitor 2000)),
    .lookUp 0, .lookUp 1, .enqueue 0, .forward 0, .resume 0, .enqueue 1, .forward 0, .resume 0,
    .message 0 (some (.approveId 2)), .message 0 (some (.denyId 2)),
    .message 0 (some (.approveId 9)), .message 0 (some (.denyId 1)), .wake 0, .wake 1]

theorem rendezvous_routing_crossed :
    ∃ s, exec Handler.step .start crossed = some s ∧
      s.callers.map Caller.stage =
        [.returned (.error ⟨.permissionDenied, "rendezvous denied by peer"⟩),
          .returned (.ok registrant)] ∧ Brokers s := by
  have hrun : (exec Handler.step .start crossed).map (fun s => s.callers.map Caller.stage) =
      some [.returned (.error ⟨.permissionDenied, "rendezvous denied by peer"⟩),
        .returned (.ok registrant)] := by
    decide +kernel
  obtain ⟨s, hs, hstages⟩ := Option.map_eq_some_iff.mp hrun
  exact ⟨s, hs, hstages, rendezvous_routing s (reaches_of_exec hs)⟩

end NineWire.Mediator
