import NineWire.Client.FileWriter

/-! Flushing one buffer against a server that acknowledges with any counts. The
loop takes a count as it is, so that only counts that fit bring it to an end. -/
namespace NineWire.Client
open NineWire.Wire NineWire.Futures

def FileWriter.pollTimes (checked : Bool) :
    FileWriter → List (List Answer) → Polled ByteString Unit × FileWriter
  | w, [] => (.pending, w)
  | w, answers :: polls =>
    match w.pollFlush checked answers with
    | (.pending, w) => pollTimes checked w polls
    | out => out

/-- A writer that has just accepted `data`. Its history starts there. -/
def FileWriter.buffered (fid : UInt32) (offset : UInt64) (data : Bytes) (fut : Stored Twrite) :
    FileWriter where
  fid := fid
  offset := offset
  buffer := data
  futValid := false
  fut := fut
  log := []

def acknowledgements (counts : List UInt32) : List Answer :=
  counts.map fun count => .ok (.rwrite ⟨count⟩)

def requests : List WriteEntry → List Twrite
  | [] => []
  | .sent req :: log => req :: requests log
  | _ :: log => requests log

def Shrinking (reqs : List Twrite) : Prop :=
  reqs.Pairwise fun newer older => newer.data.length < older.data.length

/-- A flush of `data` does not panic, and sends at most as many requests as
there are bytes. -/
structure Survives (data : Bytes) (out : Polled ByteString Unit × FileWriter) : Prop where
  calm : out.1 ≠ .panicked
  bounded : (requests out.2.log).length ≤ data.length
  shrinks : Shrinking (requests out.2.log)

/-- While something is left, a count acknowledges some of it and no more, and
the offset after it is one that can be counted to. -/
def Progresses (checked : Bool) : Nat → Nat → List UInt32 → Prop
  | _, _, [] => True
  | offset, left, count :: counts =>
    left = 0 ∨ 1 ≤ count.toNat ∧ count.toNat ≤ left ∧
      (checked → offset + count.toNat < 2 ^ 64) ∧
      Progresses checked (offset + count.toNat) (left - count.toNat) counts

section Flush
variable {checked : Bool} {w w' : FileWriter} {answers answers' : List Answer}
  {count : UInt32} {counts : List UInt32}

/-! Polling again. -/

def FileWriter.Pollable (w : FileWriter) : Prop := ∃ req, w.refresh.fut.live = some req

theorem pollable_fresh (h : w.futValid = false) : w.Pollable := by
  refine ⟨w.request, ?_⟩
  rw [FileWriter.refresh, if_neg (by simp [h])]
  rfl

theorem passed_running {fut : Stored Twrite} {req : Twrite} (h : fut.live = some req)
    (polled : Polled ByteString UInt32) (log : List WriteEntry) :
    passed (.running req) polled ++ (issued fut ++ log) = passed fut polled ++ log := by
  have hrunning : (Stored.running req).live = some req := rfl
  have hissued : issued (.running req) = [] := rfl
  cases polled <;> simp [passed, h, hrunning, hissued]

/-- A flush that has to wait has sent its request. -/
theorem turn_waits (checked : Bool) (hpollable : w.Pollable) :
    ∃ req, w.refresh.fut.live = some req ∧
      w.turn checked none = (.pending, w.polled (.running req)) := by
  obtain ⟨req, hlive⟩ := hpollable
  refine ⟨req, hlive, ?_⟩
  have hturn := turn_turns checked w none
  generalize w.turn checked none = out at hturn ⊢
  cases hturn with
  | dead hdead _ => cases hdead.symm.trans hlive
  | waits hlive' _ =>
    obtain rfl := Option.some.inj (hlive'.symm.trans hlive)
    rfl
  | fails _ hanswer => cases hanswer
  | overruns _ _ hanswer => cases hanswer
  | goesOn _ hanswer => cases hanswer

/-- The turn after that one is as the first one would have been. -/
theorem turn_again {req : Twrite} (hlive : w.refresh.fut.live = some req)
    (answer : Option Answer) :
    (w.polled (.running req)).turn checked answer = w.turn checked answer := by
  have hrefresh : (w.polled (.running req)).refresh = w.polled (.running req) := if_pos rfl
  rw [FileWriter.turn, FileWriter.turn, hrefresh]
  simp only [FileWriter.polled, poll_running hlive, passed_running hlive, FileWriter.refresh_fid,
    FileWriter.refresh_offset, FileWriter.refresh_buffer, FileWriter.refresh_log,
    FileWriter.refresh_valid]

theorem turn_not_pending (checked : Bool) (hpollable : w.Pollable) (answer : Answer) :
    (w.turn checked (some answer)).1 ≠ .pending := by
  obtain ⟨req, hlive⟩ := hpollable
  have hturn := turn_turns checked w (some answer)
  generalize w.turn checked (some answer) = out at hturn ⊢
  cases hturn with
  | dead hdead _ => cases hdead.symm.trans hlive
  | waits _ hnone => cases hnone
  | fails | overruns | goesOn => exact nofun

theorem turn_ready_fresh {answer : Option Answer} (h : w.turn checked answer = (.ready (), w')) :
    w'.futValid = false := by
  cases turns_of_eq h with
  | dead _ hres => obtain hres | hres := hres <;> cases hres
  | goesOn _ _ hadvanced =>
    rw [hadvanced.eq]
    rfl

/-- A flush that is pending goes on from there as it would have gone on. -/
theorem FileWriter.Flushes.append_pending {out : Polled ByteString Unit × FileWriter}
    (h : w.Flushes checked answers out) (hpollable : w.Pollable) (hout : out = (.pending, w')) :
    w'.Pollable ∧
      ∀ answers', w'.pollFlush checked answers' = w.pollFlush checked (answers ++ answers') := by
  induction h with
  | empty => cases hout
  | @waits w _ hbuffer heq _ =>
    obtain ⟨req, hlive, hwaits⟩ := turn_waits checked hpollable
    rw [← heq, hwaits] at hout
    cases hout
    have hbuffer' : (w.polled (.running req)).buffer ≠ [] := hbuffer
    refine ⟨⟨req, rfl⟩, fun answers' => ?_⟩
    rw [List.nil_append]
    cases answers' with
    | nil => rw [pollFlush_nil hbuffer, pollFlush_nil hbuffer', turn_again hlive]
    | cons answer answers' =>
      rw [pollFlush_cons hbuffer, pollFlush_cons hbuffer', turn_again hlive]
  | @stops w answer _ _ _ heq _ =>
    have hpending := turn_not_pending checked hpollable answer
    rw [heq, hout] at hpending
    exact absurd rfl hpending
  | goesOn hbuffer heq _ ih =>
    obtain ⟨hnext, hrest⟩ := ih (pollable_fresh (turn_ready_fresh heq)) hout
    refine ⟨hnext, fun answers' => ?_⟩
    rw [List.cons_append, pollFlush_cons hbuffer, heq]
    exact hrest answers'

/-- A flush that is not pending takes no more answers. -/
theorem FileWriter.Flushes.append_stopped {out : Polled ByteString Unit × FileWriter}
    (h : w.Flushes checked answers out) (hpollable : w.Pollable) (hout : out.1 ≠ .pending)
    (answers' : List Answer) : w.pollFlush checked (answers ++ answers') = out := by
  induction h with
  | empty hbuffer => exact pollFlush_empty hbuffer _
  | waits _ heq _ =>
    obtain ⟨req, -, hwaits⟩ := turn_waits checked hpollable
    rw [← heq, hwaits] at hout
    exact absurd rfl hout
  | @stops _ _ _ out hbuffer heq hready =>
    obtain ⟨res, w'⟩ := out
    rw [List.cons_append, pollFlush_cons hbuffer, heq]
    cases res with
    | ready _ => exact absurd rfl hready
    | pending | failed _ | panicked => rfl
  | goesOn hbuffer heq _ ih =>
    rw [List.cons_append, pollFlush_cons hbuffer, heq]
    exact ih (pollable_fresh (turn_ready_fresh heq)) hout

theorem pollTimes_flatten (hpollable : w.Pollable) (answers : List Answer)
    (polls : List (List Answer)) :
    w.pollTimes checked (answers :: polls) = w.pollFlush checked (answers :: polls).flatten := by
  induction polls generalizing w answers with
  | nil =>
    rw [FileWriter.pollTimes, List.flatten_cons, List.flatten_nil, List.append_nil]
    split
    · rename_i hpoll
      rw [hpoll, FileWriter.pollTimes]
    · rfl
  | cons answers' polls ih =>
    have hflush := pollFlush_flushes checked w answers
    rw [FileWriter.pollTimes, List.flatten_cons]
    cases hpoll : w.pollFlush checked answers with
    | mk res w' =>
      rw [hpoll] at hflush
      cases res with
      | pending =>
        obtain ⟨hnext, hrest⟩ := hflush.append_pending hpollable rfl
        rw [← hrest]
        exact ih hnext answers'
      | ready _ | failed _ | panicked => exact (hflush.append_stopped hpollable nofun _).symm

/-! The counts. -/

theorem requests_append (log log' : List WriteEntry) :
    requests (log ++ log') = requests log ++ requests log' := by
  induction log with
  | nil => rfl
  | cons entry log ih =>
    cases entry with
    | sent req => rw [List.cons_append, requests, ih, requests, List.cons_append]
    | accepted _ _ | acknowledged _ _ => exact ih

theorem refresh_fresh (h : w.futValid = false) : w.refresh.fut = .created w.request := by
  rw [FileWriter.refresh, if_neg (by simp [h])]

structure Flushed (checked : Bool) (w : FileWriter) (counts : List UInt32)
    (out : Polled ByteString Unit × FileWriter) (new : List WriteEntry) : Prop where
  log : out.2.log = new ++ w.log
  first : w.buffer ≠ [] → ∃ newer, requests new = newer ++ [w.request]
  survives : out.1 ≠ .panicked ∧ Shrinking (requests new) ↔
    Progresses checked w.offset.toNat w.buffer.length counts
  bounded : Progresses checked w.offset.toNat w.buffer.length counts →
    (requests new).length ≤ w.buffer.length ∧
      ∀ req ∈ requests new, req.data.length ≤ w.buffer.length

/-- A count that overruns the buffer ends the flush in a panic. -/
theorem Flushed.overruns (hbuffer : w.buffer ≠ []) (hover : w.Overruns checked count)
    {buffer : Bytes} (counts : List UInt32) (hfut : w.refresh.fut = .created w.request) :
    Flushed checked w (count :: counts) (.panicked, { w.answered w.request count with buffer })
      [.acknowledged w.request count, .sent w.request] := by
  have hnot : ¬Progresses checked w.offset.toNat w.buffer.length (count :: counts) := by
    intro hprogress
    obtain hnil | ⟨-, hle, hfits, -⟩ := hprogress
    · exact hbuffer (List.length_eq_zero_iff.mp hnil)
    · obtain hlt | ⟨hchecked, hge⟩ := hover
      · exact absurd hle (Nat.not_le.mpr hlt)
      · exact absurd (hfits hchecked) (Nat.not_lt.mpr hge)
  refine ⟨?_, fun _ => ⟨[], rfl⟩, ⟨fun h => absurd rfl h.1, fun h => absurd h hnot⟩,
    fun h => absurd h hnot⟩
  simp [FileWriter.answered, hfut, issued]

/-- Where overflow is not checked the offset does not matter. -/
theorem progresses_unchecked {left : Nat} (offset offset' : Nat)
    (h : Progresses false offset left counts) : Progresses false offset' left counts := by
  induction counts generalizing offset offset' left with
  | nil => trivial
  | cons count counts ih =>
    obtain hleft | ⟨hpos, hle, -, hrest⟩ := h
    · exact .inl hleft
    · exact .inr ⟨hpos, hle, nofun, ih _ _ hrest⟩

theorem progresses_advanced {offset : UInt64} {left : Nat}
    (hfits : checked → offset.toNat + count.toNat < 2 ^ 64) :
    Progresses checked (offset + .ofNat count.toNat).toNat left counts ↔
      Progresses checked (offset.toNat + count.toNat) left counts := by
  cases checked with
  | false => exact ⟨progresses_unchecked _ _, progresses_unchecked _ _⟩
  | true =>
    have hlt := hfits rfl
    rw [UInt64.toNat_add, UInt64.toNat_ofNat', Nat.mod_eq_of_lt (by omega)]
    rw [Nat.mod_eq_of_lt (by omega)]

theorem progresses_cons {offset left : Nat} (hleft : left ≠ 0) (hle : count.toNat ≤ left)
    (hfits : checked → offset + count.toNat < 2 ^ 64) :
    Progresses checked offset left (count :: counts) ↔ 1 ≤ count.toNat ∧
      Progresses checked (offset + count.toNat) (left - count.toNat) counts := by
  constructor
  · intro h
    obtain hnil | ⟨hpos, -, -, hrest⟩ := h
    · exact absurd hnil hleft
    · exact ⟨hpos, hrest⟩
  · exact fun ⟨hpos, hrest⟩ => .inr ⟨hpos, hle, hfits, hrest⟩

/-- A count that the buffer takes leaves less to flush, unless it is 0. -/
theorem Flushed.cons {new : List WriteEntry} {out : Polled ByteString Unit × FileWriter}
    (hbuffer : w.buffer ≠ []) (hfut : w.refresh.fut = .created w.request)
    (hadvanced : Advanced checked (w.answered w.request count) count w')
    (h : Flushed checked w' counts out new) :
    Flushed checked w (count :: counts) out
      (new ++ [.acknowledged w.request count, .sent w.request]) := by
  obtain ⟨hle, hfits, rfl⟩ := hadvanced
  change count.toNat ≤ w.buffer.length at hle
  change checked → w.offset.toNat + count.toNat < 2 ^ 64 at hfits
  obtain ⟨hlog, hfirst, hsurvives, hbounded⟩ := h
  have hrequests : requests (new ++ [.acknowledged w.request count, .sent w.request]) =
      requests new ++ [w.request] := requests_append ..
  have hlen : (w.buffer.drop count.toNat).length = w.buffer.length - count.toNat :=
    List.length_drop
  have hleft : w.buffer.length ≠ 0 := fun hnil => hbuffer (List.length_eq_zero_iff.mp hnil)
  have hnext : Progresses checked w.offset.toNat w.buffer.length (count :: counts) ↔
      1 ≤ count.toNat ∧ Progresses checked (w.offset + .ofNat count.toNat).toNat
        (w.buffer.drop count.toNat).length counts := by
    rw [progresses_advanced hfits, hlen]
    exact progresses_cons hleft hle hfits
  refine ⟨?_, fun _ => ⟨requests new, hrequests⟩, ?_, fun hprogress => ?_⟩
  · rw [hlog]
    simp [FileWriter.answered, hfut, issued]
  · rw [hrequests, hnext, Shrinking, List.pairwise_append]
    constructor
    · intro h
      obtain ⟨hcalm, hshrinks, -, hshorter⟩ := h
      refine ⟨?_, hsurvives.mp ⟨hcalm, hshrinks⟩⟩
      by_contra hzero
      have hsame : w.buffer.drop count.toNat = w.buffer := by
        rw [Nat.lt_one_iff.mp (Nat.not_le.mp hzero), List.drop_zero]
      obtain ⟨newer, hnewer⟩ := hfirst fun hnil => hbuffer (hsame.symm.trans hnil)
      have hlt := hshorter _ (hnewer ▸ List.mem_append_right newer List.mem_cons_self)
        w.request List.mem_cons_self
      exact absurd (congrArg List.length hsame) (Nat.ne_of_lt hlt)
    · intro h
      obtain ⟨hpos, hrest⟩ := h
      obtain ⟨hcalm, hshrinks⟩ := hsurvives.mpr hrest
      refine ⟨hcalm, hshrinks, List.pairwise_singleton .., fun req hreq older holder => ?_⟩
      obtain rfl := List.mem_singleton.mp holder
      have hreqlen := (hbounded hrest).2 req hreq
      change req.data.length < w.buffer.length
      change req.data.length ≤ (w.buffer.drop count.toNat).length at hreqlen
      omega
  · obtain ⟨hpos, hrest⟩ := hnext.mp hprogress
    obtain ⟨hnumber, hreqs⟩ := hbounded hrest
    change (requests new).length ≤ (w.buffer.drop count.toNat).length at hnumber
    rw [hrequests, List.length_append, List.length_singleton]
    refine ⟨by omega, fun req hreq => ?_⟩
    obtain hreq | hreq := List.mem_append.mp hreq
    · have hreqlen := hreqs req hreq
      change req.data.length ≤ (w.buffer.drop count.toNat).length at hreqlen
      omega
    · obtain rfl := List.mem_singleton.mp hreq
      exact Nat.le_refl _

theorem flush_flushed (checked : Bool) (hvalid : w.futValid = false) (counts : List UInt32) :
    ∃ new, Flushed checked w counts (w.pollFlush checked (acknowledgements counts)) new := by
  induction counts generalizing w with
  | nil =>
    by_cases hbuffer : w.buffer = []
    · rw [pollFlush_empty hbuffer]
      exact ⟨[], rfl, fun h => absurd hbuffer h, by simp [Shrinking, requests, Progresses],
        by simp [requests]⟩
    · have hfut := refresh_fresh hvalid
      obtain ⟨req, hlive, hwaits⟩ := turn_waits checked (pollable_fresh hvalid)
      have hlog : (w.polled (.running req)).log = [.sent w.request] ++ w.log := by
        rw [FileWriter.polled, hfut]
        rfl
      have hpos : 1 ≤ w.buffer.length := List.length_pos_iff.mpr hbuffer
      change ∃ new, Flushed checked w [] (w.pollFlush checked []) new
      rw [pollFlush_nil hbuffer, hwaits]
      refine ⟨[.sent w.request], hlog, fun _ => ⟨[], rfl⟩, ?_, fun _ => ⟨hpos, ?_⟩⟩
      · exact ⟨fun _ => trivial, fun _ => ⟨by simp, List.pairwise_singleton ..⟩⟩
      · intro req hreq
        obtain rfl := List.mem_singleton.mp hreq
        exact Nat.le_refl _
  | cons count counts ih =>
    by_cases hbuffer : w.buffer = []
    · rw [pollFlush_empty hbuffer]
      exact ⟨[], rfl, fun h => absurd hbuffer h,
        by simp [Shrinking, requests, Progresses, hbuffer], by simp [requests]⟩
    · have hfut := refresh_fresh hvalid
      rw [acknowledgements, List.map_cons, pollFlush_cons hbuffer]
      cases hout : w.turn checked (some (.ok (.rwrite ⟨count⟩))) with
      | mk res w' =>
        cases turns_of_eq hout with
        | dead hdead _ =>
          rw [hfut] at hdead
          cases hdead
        | waits _ hnone => cases hnone
        | fails _ hanswer => cases hanswer
        | overruns buffer hlive hanswer hover =>
          rw [hfut] at hlive
          cases hlive
          cases hanswer
          exact ⟨_, Flushed.overruns hbuffer hover counts hfut⟩
        | goesOn hlive hanswer hadvanced =>
          rw [hfut] at hlive
          cases hlive
          cases hanswer
          obtain ⟨new, hnew⟩ := ih (turn_ready_fresh hout)
          exact ⟨_, hnew.cons hbuffer hfut hadvanced⟩

/-- A flush comes through exactly when every count it takes is for some of what
is left and for no more than that. -/
theorem flush_survives_iff (checked : Bool) (fid : UInt32) (offset : UInt64) (data : Bytes)
    (fut : Stored Twrite) (polls : List (List UInt32)) :
    Survives data ((FileWriter.buffered fid offset data fut).pollTimes checked
      (polls.map acknowledgements)) ↔
        Progresses checked offset.toNat data.length polls.flatten := by
  cases polls with
  | nil => exact ⟨fun _ => trivial, fun _ => ⟨nofun, Nat.zero_le _, .nil⟩⟩
  | cons counts polls =>
    let w := FileWriter.buffered fid offset data fut
    have hflatten : ((counts :: polls).map acknowledgements).flatten =
        acknowledgements (counts :: polls).flatten := List.map_flatten.symm
    obtain ⟨new, hlog, -, hsurvives, hbounded⟩ := flush_flushed (w := w) checked rfl
      (counts :: polls).flatten
    rw [List.map_cons, pollTimes_flatten (pollable_fresh rfl), ← List.map_cons, hflatten]
    have hnew : new = (w.pollFlush checked (acknowledgements (counts :: polls).flatten)).2.log := by
      rw [hlog]
      exact (List.append_nil new).symm
    rw [hnew] at hsurvives hbounded
    constructor
    · intro h
      obtain ⟨hcalm, -, hshrinks⟩ := h
      exact hsurvives.mp ⟨hcalm, hshrinks⟩
    · intro hprogress
      obtain ⟨hcalm, hshrinks⟩ := hsurvives.mpr hprogress
      exact ⟨hcalm, (hbounded hprogress).1, hshrinks⟩

theorem flush_survives_counterexample : ¬∀ (checked : Bool) (fid : UInt32) (offset : UInt64)
    (data : Bytes) (fut : Stored Twrite) (polls : List (List UInt32)),
    Survives data ((FileWriter.buffered fid offset data fut).pollTimes checked
      (polls.map acknowledgements)) := by
  intro h
  exact (h true 1 0 [7] .never [[2]]).calm rfl

end Flush

end NineWire.Client
