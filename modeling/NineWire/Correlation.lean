import Mathlib.Data.List.Nodup

/-! Requests that are taken in, passed on under a key, and answered by a decision
on that key. A log of these events is lawful if no request goes backwards and
no key is used twice. General: owners, places, keys, what a request carries and
what is decided are parameters. -/
namespace NineWire.Correlation
variable {ι π κ α δ : Type}

/-- A decision on any key can arrive; `answered` is the owner it reached. -/
inductive Event (ι π κ α δ : Type) where
  | accept (p : π) (o : ι) (a : α)
  | issue (k : κ) (o : ι) (a : α)
  | decide (k : κ) (d : δ) (answered : Option ι)

/-- How far the request of an owner has come. -/
inductive Phase (π κ α δ : Type) where
  | absent
  | accepted (p : π) (a : α)
  | issued (k : κ) (a : α)
  | answered (k : κ) (d : δ) (a : α)

def Phase.decide (k : κ) (d : δ) : Phase π κ α δ → Phase π κ α δ
  | .issued _ a => .answered k d a
  | ph => ph

def Phase.payload : Phase π κ α δ → Option α
  | .absent => none
  | .accepted _ a => some a
  | .issued _ a => some a
  | .answered _ _ a => some a

/-- The keys used so far. A log has its newest event first. -/
def keys : List (Event ι π κ α δ) → List κ
  | [] => []
  | .issue k _ _ :: log => k :: keys log
  | _ :: log => keys log

def answered : List (Event ι π κ α δ) → List ι
  | [] => []
  | .decide _ _ (some o) :: log => o :: answered log
  | _ :: log => answered log

theorem mem_keys {log : List (Event ι π κ α δ)} {k : κ} {o : ι} {a : α}
    (h : .issue k o a ∈ log) : k ∈ keys log := by
  induction log with
  | nil => cases h
  | cons e log ih =>
    obtain rfl | htail := List.mem_cons.mp h
    · exact List.mem_cons_self
    · cases e with
      | issue k' _ _ => exact List.mem_cons_of_mem k' (ih htail)
      | _ => exact ih htail

theorem of_mem_answered {log : List (Event ι π κ α δ)} {o : ι} (h : o ∈ answered log) :
    ∃ k d, .decide k d (some o) ∈ log := by
  induction log with
  | nil => cases h
  | cons e log ih =>
    have htail (hmem : o ∈ answered log) : ∃ k d, .decide k d (some o) ∈ e :: log := by
      obtain ⟨k, d, hdecide⟩ := ih hmem
      exact ⟨k, d, List.mem_cons_of_mem e hdecide⟩
    obtain _ | _ | ⟨k, d, _ | o'⟩ := e
    · exact htail h
    · exact htail h
    · exact htail h
    · obtain rfl | hmem := List.mem_cons.mp h
      · exact ⟨k, d, List.mem_cons_self⟩
      · exact htail hmem

variable [DecidableEq ι]

def phase : List (Event ι π κ α δ) → ι → Phase π κ α δ
  | [], _ => .absent
  | .accept p o a :: log, q => if q = o then .accepted p a else phase log q
  | .issue k o a :: log, q => if q = o then .issued k a else phase log q
  | .decide k d answered :: log, q =>
    if answered = some q then (phase log q).decide k d else phase log q

/-- A request is taken in once, passed on once under a new key, and answered
once, by a decision on its key. -/
inductive Lawful : List (Event ι π κ α δ) → Prop
  | nil : Lawful []
  | accept {log p o a} : Lawful log → phase log o = .absent → Lawful (.accept p o a :: log)
  | issue {log p k o a} : Lawful log → phase log o = .accepted p a → k ∉ keys log →
      Lawful (.issue k o a :: log)
  | ignore {log k d} : Lawful log → Lawful (.decide k d none :: log)
  | answer {log k d o a} : Lawful log → phase log o = .issued k a →
      Lawful (.decide k d (some o) :: log)

variable {log : List (Event ι π κ α δ)} {p : π} {o o' q : ι} {k : κ} {a a' : α} {d : δ}

@[simp] theorem phase_accept_self : phase (.accept p o a :: log) o = .accepted p a := if_pos rfl

theorem phase_accept_ne (h : q ≠ o) : phase (.accept p o a :: log) q = phase log q := if_neg h

@[simp] theorem phase_issue_self : phase (.issue k o a :: log) o = .issued k a := if_pos rfl

theorem phase_issue_ne (h : q ≠ o) : phase (.issue k o a :: log) q = phase log q := if_neg h

@[simp] theorem phase_ignore : phase (.decide k d none :: log) q = phase log q := rfl

theorem phase_answer_self (h : phase log o = .issued k a) :
    phase (.decide k d (some o) :: log) o = .answered k d a := by
  rw [phase, if_pos rfl, h, Phase.decide]

theorem phase_answer_ne (h : q ≠ o) : phase (.decide k d (some o) :: log) q = phase log q :=
  if_neg fun heq => h (Option.some.inj heq).symm

theorem ne_of_phase {ph ph' : Phase π κ α δ} (ho : phase log o = ph) (hq : phase log q = ph')
    (hne : ph' ≠ ph) : q ≠ o := by
  intro heq
  subst heq
  exact hne (hq.symm.trans ho)

theorem absent_of_payload {ph : Phase π κ α δ} (h : ph.payload = none) : ph = .absent := by
  cases ph with
  | absent => rfl
  | _ => cases h

/-- A request carries to the end what it was taken in with. -/
theorem issue_payload (h : phase log o = .accepted p a) :
    (phase (.issue k o a :: log) q).payload = (phase log q).payload := by
  by_cases heq : q = o
  · rw [heq, phase_issue_self, h, Phase.payload, Phase.payload]
  · rw [phase_issue_ne heq]

theorem answer_payload (h : phase log o = .issued k a) :
    (phase (.decide k d (some o) :: log) q).payload = (phase log q).payload := by
  by_cases heq : q = o
  · rw [heq, phase_answer_self h, h, Phase.payload, Phase.payload]
  · rw [phase_answer_ne heq]

theorem Phase.of_decide {ph : Phase π κ α δ} (h : ph.decide k d = .accepted p a) :
    ph = .accepted p a := by
  cases ph with
  | issued k' a' => cases h
  | _ => exact h

theorem accept_mem (hphase : phase log o = .accepted p a) : .accept p o a ∈ log := by
  induction log with
  | nil => cases hphase
  | cons e log ih =>
    cases e with
    | accept p' o' a' =>
      by_cases heq : o = o'
      · rw [heq, phase_accept_self] at hphase
        obtain ⟨rfl, rfl⟩ := Phase.accepted.inj hphase
        rw [heq]
        exact List.mem_cons_self
      · rw [phase_accept_ne heq] at hphase
        exact List.mem_cons_of_mem _ (ih hphase)
    | issue k' o' a' =>
      by_cases heq : o = o'
      · rw [heq, phase_issue_self] at hphase
        cases hphase
      · rw [phase_issue_ne heq] at hphase
        exact List.mem_cons_of_mem _ (ih hphase)
    | decide k' d' answered =>
      rw [phase] at hphase
      split at hphase
      · exact List.mem_cons_of_mem _ (ih (Phase.of_decide hphase))
      · exact List.mem_cons_of_mem _ (ih hphase)

theorem Lawful.issue_mem (h : Lawful log) (hphase : phase log o = .issued k a) :
    .issue k o a ∈ log := by
  induction h with
  | nil => cases hphase
  | @accept log p o' a' _ _ ih =>
    by_cases heq : o = o'
    · rw [heq, phase_accept_self] at hphase
      cases hphase
    · rw [phase_accept_ne heq] at hphase
      exact List.mem_cons_of_mem _ (ih hphase)
  | @issue log p k' o' a' _ _ _ ih =>
    by_cases heq : o = o'
    · rw [heq, phase_issue_self] at hphase
      obtain ⟨rfl, rfl⟩ := Phase.issued.inj hphase
      rw [heq]
      exact List.mem_cons_self
    · rw [phase_issue_ne heq] at hphase
      exact List.mem_cons_of_mem _ (ih hphase)
  | ignore _ ih => exact List.mem_cons_of_mem _ (ih hphase)
  | @answer log k' d' o' a' _ hissued ih =>
    by_cases heq : o = o'
    · rw [heq, phase_answer_self hissued] at hphase
      cases hphase
    · rw [phase_answer_ne heq] at hphase
      exact List.mem_cons_of_mem _ (ih hphase)

/-- An answered request was answered by a decision on the key it was passed on
under. -/
theorem Lawful.answered_after (h : Lawful log) (hphase : phase log o = .answered k d a) :
    ∃ newer older, log = newer ++ .decide k d (some o) :: older ∧ .issue k o a ∈ older := by
  induction h with
  | nil => cases hphase
  | @accept log p o' a' _ _ ih =>
    by_cases heq : o = o'
    · rw [heq, phase_accept_self] at hphase
      cases hphase
    · rw [phase_accept_ne heq] at hphase
      obtain ⟨newer, older, rfl, hmem⟩ := ih hphase
      exact ⟨_ :: newer, older, rfl, hmem⟩
  | @issue log p k' o' a' _ _ _ ih =>
    by_cases heq : o = o'
    · rw [heq, phase_issue_self] at hphase
      cases hphase
    · rw [phase_issue_ne heq] at hphase
      obtain ⟨newer, older, rfl, hmem⟩ := ih hphase
      exact ⟨_ :: newer, older, rfl, hmem⟩
  | ignore _ ih =>
    obtain ⟨newer, older, rfl, hmem⟩ := ih hphase
    exact ⟨_ :: newer, older, rfl, hmem⟩
  | @answer log k' d' o' a' hlog hissued ih =>
    by_cases heq : o = o'
    · subst heq
      rw [phase_answer_self hissued] at hphase
      obtain ⟨rfl, rfl, rfl⟩ := Phase.answered.inj hphase
      exact ⟨[], log, rfl, hlog.issue_mem hissued⟩
    · rw [phase_answer_ne heq] at hphase
      obtain ⟨newer, older, rfl, hmem⟩ := ih hphase
      exact ⟨_ :: newer, older, rfl, hmem⟩

theorem Lawful.keys_nodup (h : Lawful log) : (keys log).Nodup := by
  induction h with
  | nil => exact List.nodup_nil
  | issue _ _ hnew ih => exact List.nodup_cons.mpr ⟨hnew, ih⟩
  | _ => assumption

/-- A key names one request. -/
theorem Lawful.owner_unique (h : Lawful log) (ho : .issue k o a ∈ log)
    (ho' : .issue k o' a' ∈ log) : o = o' := by
  induction h with
  | nil => cases ho
  | accept _ _ ih =>
    exact ih (List.mem_of_ne_of_mem (by simp) ho) (List.mem_of_ne_of_mem (by simp) ho')
  | issue _ _ hnew ih =>
    obtain heq | htail := List.mem_cons.mp ho
    · obtain ⟨rfl, rfl, rfl⟩ := Event.issue.inj heq
      obtain heq' | htail' := List.mem_cons.mp ho'
      · exact (Event.issue.inj heq').2.1.symm
      · exact (hnew (mem_keys htail')).elim
    · obtain heq' | htail' := List.mem_cons.mp ho'
      · obtain ⟨rfl, rfl, rfl⟩ := Event.issue.inj heq'
        exact (hnew (mem_keys htail)).elim
      · exact ih htail htail'
  | ignore _ ih =>
    exact ih (List.mem_of_ne_of_mem (by simp) ho) (List.mem_of_ne_of_mem (by simp) ho')
  | answer _ _ ih =>
    exact ih (List.mem_of_ne_of_mem (by simp) ho) (List.mem_of_ne_of_mem (by simp) ho')

theorem Lawful.answered_phase (h : Lawful log) (hmem : .decide k d (some o) ∈ log) :
    ∃ a, phase log o = .answered k d a := by
  induction h with
  | nil => cases hmem
  | @accept log p o' a' _ habsent ih =>
    obtain ⟨a, ha⟩ := ih (List.mem_of_ne_of_mem (by simp) hmem)
    have hne : o ≠ o' := by
      intro hsame
      subst hsame
      cases ha.symm.trans habsent
    exact ⟨a, (phase_accept_ne hne).trans ha⟩
  | @issue log p k' o' a' _ haccepted _ ih =>
    obtain ⟨a, ha⟩ := ih (List.mem_of_ne_of_mem (by simp) hmem)
    have hne : o ≠ o' := by
      intro hsame
      subst hsame
      cases ha.symm.trans haccepted
    exact ⟨a, (phase_issue_ne hne).trans ha⟩
  | ignore _ ih => exact ih (List.mem_of_ne_of_mem (by simp) hmem)
  | @answer log k' d' o' a' _ hissued ih =>
    obtain heq | htail := List.mem_cons.mp hmem
    · obtain ⟨rfl, rfl, howner⟩ := Event.decide.inj heq
      obtain rfl := Option.some.inj howner
      exact ⟨a', phase_answer_self hissued⟩
    · obtain ⟨a, ha⟩ := ih htail
      have hne : o ≠ o' := by
        intro hsame
        subst hsame
        cases ha.symm.trans hissued
      exact ⟨a, (phase_answer_ne hne).trans ha⟩

theorem Lawful.answered_nodup (h : Lawful log) : (answered log).Nodup := by
  induction h with
  | nil => exact List.nodup_nil
  | @answer log k d o a hlog hissued ih =>
    refine List.nodup_cons.mpr ⟨fun hmem => ?_, ih⟩
    obtain ⟨k', d', hdecide⟩ := of_mem_answered hmem
    obtain ⟨a', ha'⟩ := hlog.answered_phase hdecide
    cases ha'.symm.trans hissued
  | _ => assumption

end NineWire.Correlation
