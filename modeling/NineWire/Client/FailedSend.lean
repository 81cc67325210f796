import NineWire.Client.Attribution
import NineWire.Trail

/-! The map of senders when a send fails. `transact` returns the error with its
entry still in the map, so that its tag is in use until a reply to it comes. -/
namespace NineWire.Client
open NineWire.Wire NineWire.Transition NineWire.Table

/-- Nothing of the call is in the map: what is there is of others. -/
def Calls.Restored (s : Calls) (c : Nat) : Prop := ∀ tag : UInt16, s.inflight[tag]? ≠ some c

def Calls.Replied (s : Calls) (c : Nat) : Prop :=
  ∃ call, s.calls[c]? = some call ∧ call.reply.isSome

def RepliedFirst (s : Calls) (a : CallAction) : Prop := ∀ c, a = .poll c .sendFails → s.Replied c

/-- An entry of the map is that of a call without a reply, under its tag. -/
def Owned (s : Calls) : Prop :=
  ∀ (tag : UInt16) (c : Nat), s.inflight[tag]? = some c →
    ∃ call, s.calls[c]? = some call ∧ call.tag = tag ∧ call.reply = none

section Steps
variable {s s' : Calls} {message : TMessage} {incoming : Bytes} {a : CallAction} {c : Nat} {p : Poll}

theorem Owned.call (h : Owned s) (message : TMessage) : Owned (s.call message) := by
  obtain ⟨-, hsame⟩ | ⟨tag, -, hnew⟩ := call_cases s message
  · rwa [hsame]
  · rw [hnew]
    intro tag' d hd
    simp only [Std.TreeMap.getElem?_insert] at hd
    split at hd
    · rename_i htag
      obtain rfl := Option.some.inj hd
      refine ⟨_, List.getElem?_concat_length, ?_, rfl⟩
      simpa [Call.start] using htag
    · obtain ⟨call, hcall, hown⟩ := h tag' d hd
      exact ⟨call, append_get hcall, hown⟩

theorem Owned.poll (h : Owned s) (hpoll : s.poll c p = some s') : Owned s' := by
  obtain ⟨hinflight, -, -, hmoves⟩ := poll_moves hpoll
  intro tag d hd
  rw [hinflight] at hd
  obtain ⟨call, hcall, htag, hreply⟩ := h tag d hd
  obtain ⟨call', hcall', hmoved⟩ := hmoves d call hcall
  exact ⟨call', hcall', hmoved.tag.trans htag, hmoved.reply.trans hreply⟩

theorem Owned.recv (h : Owned s) (incoming : Bytes) : Owned (s.recv incoming) := by
  obtain heq | ⟨tag, resp, c, -, htag, heq⟩ := recv_cases s incoming
  · rwa [heq]
  · rw [heq]
    intro tag' d hd
    simp only [Std.TreeMap.getElem?_erase] at hd
    split at hd
    · cases hd
    · rename_i hne
      obtain ⟨call, hcall, htag', hreply⟩ := h tag' d hd
      have hcd : c ≠ d := by
        intro hsame
        subst hsame
        obtain ⟨call', hcall', htag'', -⟩ := h tag c htag
        obtain rfl := Option.some.inj (hcall.symm.trans hcall')
        exact hne (by simp [← htag', ← htag''])
      exact ⟨call, by rw [List.getElem?_modify_ne _ _ hcd, hcall], htag', hreply⟩

structure Kept (s : Calls) : Prop where
  formed : Formed s
  owned : Owned s

theorem kept_step (h : Kept s) (hstep : s.step a = some s') : Kept s' := by
  obtain ⟨hformed, howned⟩ := h
  cases a with
  | call message =>
    obtain rfl := Option.some.inj hstep
    exact ⟨hformed.call message, howned.call message⟩
  | poll c p => exact ⟨hformed.poll hstep, howned.poll hstep⟩
  | recv incoming =>
    obtain ⟨-, rfl⟩ := step_recv hstep
    exact ⟨hformed.recv incoming, howned.recv incoming⟩
  | recvFails =>
    obtain rfl := step_recvFails hstep
    exact ⟨⟨hformed.data, hformed.sender⟩, howned⟩

theorem reaches_kept {maxlen : Nat} (h : Reaches Calls.step (.start maxlen) s) : Kept s := by
  have howned : Owned (.start maxlen) := by
    intro tag c htag
    simp [Calls.start] at htag
  exact h.invariant ⟨Formed.start maxlen, howned⟩ fun hkept _ hstep => kept_step hkept hstep

/-- A call that has its reply has nothing in the map. -/
theorem Owned.restored (h : Owned s) (hreplied : s.Replied c) : s.Restored c := by
  intro tag htag
  obtain ⟨call, hcall, hsome⟩ := hreplied
  obtain ⟨call', hcall', -, hnone⟩ := h tag c htag
  obtain rfl := Option.some.inj (hcall.symm.trans hcall')
  rw [hnone] at hsome
  cases hsome

/-- A failing send leaves its tag in the map, unless the reply was faster. -/
theorem restored_iff_replied (h : Kept s) (hpoll : s.poll c .sendFails = some s') :
    s'.Restored c ↔ s.Replied c := by
  obtain ⟨call, stage, hcall, hnext, rfl⟩ := poll_cases hpoll
  constructor
  · intro hrestored
    refine ⟨call, hcall, ?_⟩
    by_contra hnone
    have hreply : call.reply = none := by simpa using hnone
    exact hrestored call.tag (h.formed.sender c call hcall (live_of_next hnext) hreply)
  · exact fun hreplied => h.owned.restored hreplied

def FailedReplied (s : Calls) : Prop :=
  ∀ (c : Nat) (call : Call), s.calls[c]? = some call → call.stage = .failed → call.reply.isSome

theorem failedReplied_step (hkept : Kept s) (h : FailedReplied s) (hok : RepliedFirst s a)
    (hstep : s.step a = some s') : FailedReplied s' := by
  cases a with
  | call message =>
    obtain rfl := Option.some.inj hstep
    obtain ⟨-, hsame⟩ | ⟨tag, -, hnew⟩ := call_cases s message
    · rwa [hsame]
    · rw [hnew]
      intro d call hd hfailed
      obtain hold | ⟨-, rfl⟩ := append_cases hd
      · exact h d call hold hfailed
      · simp only [Call.start] at hfailed
        split at hfailed <;> cases hfailed
  | poll c p =>
    obtain ⟨call, stage, hcall, hnext, rfl⟩ := poll_cases hstep
    intro d call' hd hfailed
    obtain ⟨rfl, rfl⟩ | ⟨-, hold⟩ := set_cases hd
    · cases p with
      | sendFails =>
        obtain ⟨call', hcall', hreply⟩ := hok c rfl
        obtain rfl := Option.some.inj (hcall.symm.trans hcall')
        exact hreply
      | resume =>
        obtain ⟨resp, hreply, -⟩ := hkept.formed.resume hcall hnext
        exact Option.isSome_iff_exists.mpr ⟨resp, hreply⟩
      | _ =>
        obtain rfl : stage = .failed := hfailed
        simp only [Calls.next] at hnext
        split at hnext <;> cases hnext
    · exact h d call' hold hfailed
  | recv incoming =>
    obtain ⟨-, rfl⟩ := step_recv hstep
    obtain heq | ⟨tag, resp, c, -, -, heq⟩ := recv_cases s incoming
    · rwa [heq]
    · rw [heq]
      intro d call hd hfailed
      obtain ⟨old, hold, rfl⟩ := modify_cases hd
      by_cases hcd : c = d
      · rw [if_pos hcd] at hfailed ⊢
        rw [Call.answer_stage] at hfailed
        have hdead : ¬old.Live := by
          rintro (hlive | hlive) <;> cases hfailed.symm.trans hlive
        rw [Call.answer, if_neg hdead]
        exact h d old hold hfailed
      · rw [if_neg hcd] at hfailed ⊢
        exact h d old hold hfailed
  | recvFails =>
    obtain rfl := step_recvFails hstep
    exact h

theorem repliedFirst_run {maxlen : Nat} (h : Steps Calls.step RepliedFirst (.start maxlen) s) :
    Kept s ∧ FailedReplied s := by
  have hstart : Kept (.start maxlen) ∧ FailedReplied (.start maxlen) := by
    refine ⟨reaches_kept .refl, fun c call hcall => ?_⟩
    cases hcall
  exact h.invariant (I := fun s => Kept s ∧ FailedReplied s) hstart
    fun ⟨hkept, hfailed⟩ hok hstep =>
      ⟨kept_step hkept hstep, failedReplied_step hkept hfailed hok hstep⟩

end Steps

/-! The tags. -/

/-- All tags below the one that is picked are in use. -/
theorem pickTag_below {keys : List UInt16} {tag picked t : UInt16}
    (h : pickTag keys tag = some picked) (hle : tag ≤ t) (hlt : t < picked) : t ∈ keys := by
  induction keys generalizing tag with
  | nil =>
    obtain rfl := Option.some.inj h
    exact absurd hlt (UInt16.not_lt.mpr hle)
  | cons key keys ih =>
    rw [pickTag] at h
    split at h
    · rename_i hkey
      split at h
      · by_cases htag : t = tag
        · subst htag hkey
          exact List.mem_cons_self
        · have hnext : tag + 1 ≤ t := by
            rw [UInt16.le_iff_toNat_le] at hle ⊢
            have hne : t.toNat ≠ tag.toNat := fun h => htag (UInt16.toNat_inj.mp h)
            rw [UInt16.toNat_add, UInt16.toNat_one]
            omega
          exact List.mem_cons_of_mem key (ih h hnext)
      · cases h
    · obtain rfl := Option.some.inj h
      exact absurd hlt (UInt16.not_lt.mpr hle)

/-- There is no tag to pick only when all of them are in use. -/
theorem pickTag_none {keys : List UInt16} {tag t : UInt16} (h : pickTag keys tag = none)
    (hle : tag ≤ t) (hlt : t < 0xFFFF) : t ∈ keys := by
  induction keys generalizing tag with
  | nil => cases h
  | cons key keys ih =>
    rw [pickTag] at h
    split at h
    · rename_i hkey
      by_cases htag : t = tag
      · subst htag hkey
        exact List.mem_cons_self
      · have hne : t.toNat ≠ tag.toNat := fun h => htag (UInt16.toNat_inj.mp h)
        rw [UInt16.le_iff_toNat_le] at hle
        rw [UInt16.lt_iff_toNat_lt] at hlt
        have hmax : t.toNat < 65535 := hlt
        split at h
        · have hnext : tag + 1 ≤ t := by
            rw [UInt16.le_iff_toNat_le, UInt16.toNat_add, UInt16.toNat_one]
            omega
          exact List.mem_cons_of_mem key (ih h hnext)
        · omega
    · cases h

theorem pickTag_lt {keys : List UInt16} {tag picked : UInt16} (htag : tag.toNat < 0xFFFF)
    (h : pickTag keys tag = some picked) : picked.toNat < 0xFFFF := by
  induction keys generalizing tag with
  | nil =>
    obtain rfl := Option.some.inj h
    exact htag
  | cons key keys ih =>
    rw [pickTag] at h
    split at h
    · split at h
      · refine ih ?_ h
        rw [UInt16.toNat_add, UInt16.toNat_one]
        omega
      · cases h
    · obtain rfl := Option.some.inj h
      exact htag

/-- With exactly the tags below `n` in use, the next one is `n`. -/
theorem pickTag_eq {s : Calls} {n : UInt16} (hn : n < 0xFFFF)
    (hused : ∀ t, t ∈ s.inflight ↔ t < n) : pickTag s.inflight.keys 0 = some n := by
  have hkeys (t : UInt16) : t ∈ s.inflight.keys ↔ t < n := by
    rw [Std.TreeMap.mem_keys, hused]
  cases hpick : pickTag s.inflight.keys 0 with
  | none =>
    have hself := (hkeys n).mp (pickTag_none hpick UInt16.zero_le hn)
    exact absurd hself (UInt16.lt_irrefl n)
  | some picked =>
    have hfree : picked ∉ s.inflight.keys := by
      rw [Std.TreeMap.mem_keys]
      simpa using pickTag_free hpick
    rw [hkeys, UInt16.not_lt] at hfree
    congr 1
    refine UInt16.le_antisymm (UInt16.not_lt.mp fun hlt => ?_) hfree
    exact absurd ((hkeys n).mp (pickTag_below hpick UInt16.zero_le hlt)) (UInt16.lt_irrefl n)

/-- After a send that failed the map is what it was, up to the entries of other
calls, exactly when the reply had already come. In a run where it always had,
no call that failed holds a tag, and tags run out only to calls that did not
fail. -/
theorem failed_send_restores_iff (maxlen : Nat) :
    (∀ s, Reaches Calls.step (.start maxlen) s → ∀ c s',
      s.step (.poll c .sendFails) = some s' → (s'.Restored c ↔ s.Replied c)) ∧
    (∀ s, Steps Calls.step RepliedFirst (.start maxlen) s →
      (∀ (c : Nat) (call : Call), s.calls[c]? = some call → call.stage = .failed →
        s.Restored c) ∧
      (pickTag s.inflight.keys 0 = none → ∀ tag < (0xFFFF : UInt16), ∃ (c : Nat) (call : Call),
        s.inflight[tag]? = some c ∧ s.calls[c]? = some call ∧ call.stage ≠ .failed)) := by
  constructor
  · intro s hreach c s' hstep
    exact restored_iff_replied (reaches_kept hreach) hstep
  · intro s hrun
    obtain ⟨hkept, hfailed⟩ := repliedFirst_run hrun
    refine ⟨fun c call hcall hstage => ?_, fun hnone tag htag => ?_⟩
    · exact hkept.owned.restored ⟨call, hcall, hfailed c call hcall hstage⟩
    · have hmem := pickTag_none hnone UInt16.zero_le htag
      rw [Std.TreeMap.mem_keys] at hmem
      obtain ⟨c, hc⟩ : ∃ c, s.inflight[tag]? = some c :=
        Option.isSome_iff_exists.mp (by simpa using hmem)
      obtain ⟨call, hcall, -, hreply⟩ := hkept.owned tag c hc
      refine ⟨c, call, hc, hcall, fun hstage => ?_⟩
      have hreplied := hfailed c call hcall hstage
      rw [hreply] at hreplied
      cases hreplied

/-- The reply to a clunk comes while its send is still failing. -/
theorem failed_send_restores_iff_overtaken : ∃ s s',
    exec Calls.step (.start 1192) [.call (.tclunk ⟨1⟩), .recv [121, 0, 0]] = some s ∧
      s.step (.poll 0 .sendFails) = some s' ∧ s'.Restored 0 := by
  obtain ⟨s, s', hexec, hstep, hreplied⟩ : ∃ s s',
      exec Calls.step (.start 1192) [.call (.tclunk ⟨1⟩), .recv [121, 0, 0]] = some s ∧
        s.step (.poll 0 .sendFails) = some s' ∧ s.Replied 0 := ⟨_, _, rfl, rfl, _, rfl, rfl⟩
  refine ⟨s, s', hexec, hstep, ?_⟩
  exact ((failed_send_restores_iff 1192).1 s (reaches_of_exec hexec) 0 s' hstep).mpr hreplied

theorem failed_send_restores_counterexample : ¬∀ (maxlen : Nat) (s s' : Calls) (c : Nat),
    Reaches Calls.step (.start maxlen) s → s.step (.poll c .sendFails) = some s' →
    s'.Restored c := by
  intro h
  let s : Calls := (Calls.start 1192).call (.tclunk ⟨1⟩)
  have hreach : Reaches Calls.step (.start 1192) s := .tail (.call _) .refl trivial rfl
  have hrestored := h 1192 s _ 0 hreach rfl
  exact hrestored 0 (by decide)

def failing (n : Nat) : List CallAction :=
  (List.range n).flatMap fun c => [.call (.tclunk ⟨1⟩), .poll c .sendFails]

theorem failing_run (maxlen : Nat) {n : Nat} (hn : n ≤ 0xFFFF) :
    ∃ s, exec Calls.step (.start maxlen) (failing n) = some s ∧ s.calls.length = n ∧
      (∀ call ∈ s.calls, call.stage = .failed) ∧ ∀ t, t ∈ s.inflight ↔ t.toNat < n := by
  induction n with
  | zero => exact ⟨_, rfl, rfl, by simp [Calls.start], by simp [Calls.start]⟩
  | succ n ih =>
    obtain ⟨s, hexec, hlen, hfailed, hused⟩ := ih (by omega)
    have hnat : (UInt16.ofNat n).toNat = n := by
      rw [UInt16.toNat_ofNat']
      omega
    have hpick : pickTag s.inflight.keys 0 = some (UInt16.ofNat n) := by
      refine pickTag_eq ?_ fun t => ?_
      · rw [UInt16.lt_iff_toNat_lt, hnat]
        exact hn
      · rw [hused, UInt16.lt_iff_toNat_lt, hnat]
    let call := Call.start s.maxlen (UInt16.ofNat n) (.tclunk ⟨1⟩)
    have hsending : call.stage = .sending := by
      have hbounded : (bounded s.maxlen (.tclunk ⟨1⟩)).isSome := rfl
      obtain ⟨data, hdata⟩ := requestData_isSome hbounded (UInt16.ofNat n)
      simp [call, Call.start, hdata]
    let s₁ : Calls :=
      { s with
        inflight := s.inflight.insert (UInt16.ofNat n) s.calls.length
        calls := s.calls ++ [call] }
    have hcall : s.step (.call (.tclunk ⟨1⟩)) = some s₁ := by
      rw [Calls.step, Calls.call, hpick]
    have hlast : s₁.calls[n]? = some call := by
      rw [← hlen]
      exact List.getElem?_concat_length
    have hpoll : s₁.step (.poll n .sendFails) =
        some { s₁ with calls := s₁.calls.set n { call with stage := .failed } } := by
      simp [Calls.step, Calls.poll, hlast, Calls.next, hsending]
    have hset : s₁.calls.set n { call with stage := .failed } =
        s.calls ++ [{ call with stage := .failed }] := by
      simp [s₁, ← hlen]
    rw [hset] at hpoll
    refine ⟨{ s₁ with calls := s.calls ++ [{ call with stage := .failed }] }, ?_, ?_, ?_, ?_⟩
    · rw [failing, List.range_succ, List.flatMap_append, exec_append]
      rw [failing] at hexec
      simp [hexec, exec, hcall, hpoll]
    · simp [hlen]
    · intro call' hmem
      obtain hmem | hmem := List.mem_append.mp hmem
      · exact hfailed call' hmem
      · obtain rfl := List.mem_singleton.mp hmem
        rfl
    · intro t
      simp only [s₁, Std.TreeMap.mem_insert, Std.LawfulEqCmp.compare_eq_iff_eq, hused]
      rw [← UInt16.toNat_inj, hnat]
      omega

/-- Once 65535 sends have failed the next call finds no tag. -/
theorem failing_sends_exhaust (maxlen : Nat) : ∃ s, Reaches Calls.step (.start maxlen) s ∧
    (∀ call ∈ s.calls, call.stage = .failed) ∧ pickTag s.inflight.keys 0 = none := by
  obtain ⟨s, hexec, -, hfailed, hused⟩ := failing_run maxlen (Nat.le_refl 0xFFFF)
  refine ⟨s, reaches_of_exec hexec, hfailed, ?_⟩
  cases hpick : pickTag s.inflight.keys 0 with
  | none => rfl
  | some picked =>
    have hfree : ¬picked.toNat < 0xFFFF := by
      rw [← hused]
      simpa using pickTag_free hpick
    exact absurd (pickTag_lt (by decide) hpick) hfree

end NineWire.Client
