import NineWire.Client.FileReader
import NineWire.Transition

/-! `FileWriter`: one buffer at a time, written out by as many `Twrite`s as the
counts of their acknowledgements make necessary. What has been accepted is what
has been stored and then what is buffered. -/
namespace NineWire.Client
open NineWire.Wire NineWire.Futures NineWire.Transition

def writeReply : Answer → Except ByteString UInt32
  | .error e => .error e
  | .ok (.rerror ⟨ename⟩) => .error ename
  | .ok (.rwrite ⟨count⟩) => .ok count
  | .ok _ => .error "unexpected message type"

/-- What happens to bytes on their way: a buffer is accepted at an offset, a
request is sent, and it is acknowledged. -/
inductive WriteEntry where
  | accepted (offset : UInt64) (buf : Bytes)
  | sent (req : Twrite)
  | acknowledged (req : Twrite) (count : UInt32)
  deriving DecidableEq

/-- `fid` is that of `file`; `log` is a history, newest first. -/
structure FileWriter where
  fid : UInt32
  offset : UInt64
  buffer : Bytes
  futValid : Bool
  fut : Stored Twrite
  log : List WriteEntry

def FileWriter.new (fid : UInt32) : FileWriter where
  fid := fid
  offset := 0
  buffer := []
  futValid := false
  fut := .never
  log := []

def FileWriter.request (w : FileWriter) : Twrite where
  fid := w.fid
  offset := w.offset
  data := w.buffer

/-- The future that is polled: a new one, unless the stored one is valid. -/
def FileWriter.refresh (w : FileWriter) : FileWriter :=
  if w.futValid then w else { w with fut := .created w.request, futValid := true }

def issued : Stored Twrite → List WriteEntry
  | .created req => [.sent req]
  | _ => []

def passed (fut : Stored Twrite) (polled : Polled ByteString UInt32) : List WriteEntry :=
  match polled, fut.live with
  | .ready count, some req => .acknowledged req count :: issued fut
  | _, _ => issued fut

/-- `self.buffer.advance(res)` and `self.offset += res`. -/
def FileWriter.advance (checked : Bool) (w : FileWriter) (count : UInt32) :
    Polled ByteString Unit × FileWriter :=
  if w.buffer.length < count.toNat then (.panicked, w)
  else
    let w := { w with buffer := w.buffer.drop count.toNat }
    match addOffset checked w.offset count.toNat with
    | none => (.panicked, w)
    | some offset => (.ready (), { w with offset })

def FileWriter.turn (checked : Bool) (w : FileWriter) (answer : Option Answer) :
    Polled ByteString Unit × FileWriter :=
  let w := w.refresh
  let (polled, fut) := w.fut.poll (answer.map writeReply)
  let w := { w with fut, log := passed w.fut polled ++ w.log }
  polled.andThen w fun count => { w with futValid := false }.advance checked count

/-- The answers that are there for one turn after the other; then the loop has
to wait. -/
def FileWriter.pollFlush (checked : Bool) :
    FileWriter → List Answer → Polled ByteString Unit × FileWriter
  | w, [] => if w.buffer.isEmpty then (.ready (), w) else w.turn checked none
  | w, answer :: answers =>
    if w.buffer.isEmpty then (.ready (), w)
    else
      let (res, w) := w.turn checked (some answer)
      res.andThen w fun _ => pollFlush checked w answers

def FileWriter.pollWrite (checked : Bool) (w : FileWriter) (buf : Bytes) (answers : List Answer) :
    Polled ByteString Nat × FileWriter :=
  let (res, w) := w.pollFlush checked answers
  res.andThen w fun _ =>
    (.ready buf.length, { w with buffer := buf, log := .accepted w.offset buf :: w.log })

def FileWriter.pollShutdown (checked : Bool) (w : FileWriter) (answers : List Answer) :
    Polled ByteString Unit × FileWriter :=
  w.pollFlush checked answers

/-- `start_seek`; a seek from the end is still to do. -/
def FileWriter.startSeek (w : FileWriter) (position : SeekFrom) :
    Polled ByteString Unit × FileWriter :=
  if !w.buffer.isEmpty || w.futValid then (.failed "other error", w)
  else
    match position with
    | .start offset => (.ready (), { w with offset })
    | .current d =>
      match checkedAddSigned w.offset d with
      | none => (.failed "invalid input parameter", w)
      | some offset => (.ready (), { w with offset })
    | .fromEnd _ => (.panicked, w)

def FileWriter.pollComplete (checked : Bool) (w : FileWriter) (answers : List Answer) :
    Polled ByteString UInt64 × FileWriter :=
  let (res, w) := w.pollFlush checked answers
  res.andThen w fun _ => (.ready w.offset, w)

inductive WriterCall where
  | pollWrite (buf : Bytes) (answers : List Answer)
  | pollFlush (answers : List Answer)
  | pollShutdown (answers : List Answer)
  | startSeek (position : SeekFrom)
  | pollComplete (answers : List Answer)

inductive WriterEvent where
  | write (res : Polled ByteString Nat)
  | unit (res : Polled ByteString Unit)
  | complete (res : Polled ByteString UInt64)
  deriving DecidableEq

def FileWriter.react (checked : Bool) (w : FileWriter) : WriterCall → WriterEvent × FileWriter
  | .pollWrite buf answers =>
    let (res, w) := w.pollWrite checked buf answers
    (.write res, w)
  | .pollFlush answers =>
    let (res, w) := w.pollFlush checked answers
    (.unit res, w)
  | .pollShutdown answers =>
    let (res, w) := w.pollShutdown checked answers
    (.unit res, w)
  | .startSeek position =>
    let (res, w) := w.startSeek position
    (.unit res, w)
  | .pollComplete answers =>
    let (res, w) := w.pollComplete checked answers
    (.complete res, w)

def FileWriter.step (checked : Bool) (w : FileWriter) (call : WriterCall) : Option FileWriter :=
  match w.react checked call with
  | (.write .panicked, _) | (.unit .panicked, _) | (.complete .panicked, _) => none
  | (_, w) => some w

/-! Where bytes are. -/

/-- Bytes and their positions from an offset on. -/
def place : UInt64 → Bytes → List (UInt64 × UInt8)
  | _, [] => []
  | offset, b :: bytes => (offset, b) :: place (offset + 1) bytes

/-- The bytes of a `Twrite` that are sent, truncated by `transact`: none if the
bound underflows. -/
def sentData (maxlen : Nat) (req : Twrite) : Bytes :=
  (writeBound maxlen).elim [] fun bound => req.data.take bound

/-- All bytes accepted, oldest first, at the positions they were accepted for. -/
def acceptedBytes : List WriteEntry → List (UInt64 × UInt8)
  | [] => []
  | .accepted offset buf :: log => acceptedBytes log ++ place offset buf
  | _ :: log => acceptedBytes log

/-- All bytes stored, oldest first: of what a request sent, as many as it was
acknowledged for. -/
def storedBytes (maxlen : Nat) : List WriteEntry → List (UInt64 × UInt8)
  | [] => []
  | .acknowledged req count :: log =>
    storedBytes maxlen log ++ place req.offset ((sentData maxlen req).take count.toNat)
  | _ :: log => storedBytes maxlen log

def sentRequests : List WriteEntry → List Twrite
  | [] => []
  | .sent req :: log => sentRequests log ++ [req]
  | _ :: log => sentRequests log

def acknowledgedRequests : List WriteEntry → List Twrite
  | [] => []
  | .acknowledged req _ :: log => acknowledgedRequests log ++ [req]
  | _ :: log => acknowledgedRequests log

/-- The request that is under way, or the last one when it has failed. -/
def FileWriter.unacknowledged (w : FileWriter) : Option Twrite :=
  match w.futValid, w.fut with
  | true, .running req | true, .completed req => some req
  | _, _ => none

/-- Every acknowledgement is for some of the bytes sent, and for no more. -/
def Acknowledges (maxlen : Nat) (log : List WriteEntry) : Prop :=
  ∀ req count, .acknowledged req count ∈ log →
    1 ≤ count.toNat ∧ count.toNat ≤ (sentData maxlen req).length

section Writer
variable {checked : Bool} {maxlen : Nat} {w w' : FileWriter} {req : Twrite} {answer : Answer}
  {answers : List Answer} {count : UInt32} {log : List WriteEntry} {call : WriterCall}

theorem place_append (offset : UInt64) (bytes bytes' : Bytes) :
    place offset (bytes ++ bytes') =
      place offset bytes ++ place (offset + .ofNat bytes.length) bytes' := by
  induction bytes generalizing offset with
  | nil => simp [place]
  | cons b bytes ih =>
    have hoffset : offset + .ofNat (bytes.length + 1) = offset + 1 + .ofNat bytes.length := by
      rw [UInt64.ofNat_add, UInt64.add_assoc, UInt64.add_comm 1]
      rfl
    rw [List.cons_append, place, place, ih, List.length_cons, hoffset, List.cons_append]

@[simp] theorem acceptedBytes_issued (fut : Stored Twrite) (log : List WriteEntry) :
    acceptedBytes (issued fut ++ log) = acceptedBytes log := by
  cases fut <;> rfl

@[simp] theorem storedBytes_issued (fut : Stored Twrite) (log : List WriteEntry) :
    storedBytes maxlen (issued fut ++ log) = storedBytes maxlen log := by
  cases fut <;> rfl

@[simp] theorem acknowledgedRequests_issued (fut : Stored Twrite) (log : List WriteEntry) :
    acknowledgedRequests (issued fut ++ log) = acknowledgedRequests log := by
  cases fut <;> rfl

theorem Acknowledges.of_suffix {log' : List WriteEntry} (h : Acknowledges maxlen log')
    (hsuffix : log <:+ log') : Acknowledges maxlen log :=
  fun req count hmem => h req count (hsuffix.mem hmem)

structure Advanced (checked : Bool) (w : FileWriter) (count : UInt32) (w' : FileWriter) : Prop where
  le : count.toNat ≤ w.buffer.length
  fits : checked → w.offset.toNat + count.toNat < 2 ^ 64
  eq : w' = { w with buffer := w.buffer.drop count.toNat, offset := w.offset + .ofNat count.toNat }

def FileWriter.Overruns (checked : Bool) (w : FileWriter) (count : UInt32) : Prop :=
  w.buffer.length < count.toNat ∨ checked ∧ 2 ^ 64 ≤ w.offset.toNat + count.toNat

theorem advance_cases (checked : Bool) (w : FileWriter) (count : UInt32) :
    (w.Overruns checked count ∧
      ∃ buffer, w.advance checked count = (.panicked, { w with buffer })) ∨
    ∃ w', w.advance checked count = (.ready (), w') ∧ Advanced checked w count w' := by
  unfold FileWriter.advance
  split
  · rename_i hlt
    exact .inl ⟨.inl hlt, w.buffer, rfl⟩
  · rename_i hle
    rw [Nat.not_lt] at hle
    by_cases hfits : checked ∧ 2 ^ 64 ≤ w.offset.toNat + count.toNat
    · refine .inl ⟨.inr hfits, w.buffer.drop count.toNat, ?_⟩
      simp only [addOffset, if_pos hfits]
    · refine .inr ⟨_, by simp only [addOffset, if_neg hfits], hle, fun hchecked => ?_, rfl⟩
      exact Nat.lt_of_not_le fun hle => hfits ⟨hchecked, hle⟩

def FileWriter.polled (w : FileWriter) (fut : Stored Twrite) : FileWriter :=
  { w with fut, futValid := true, log := issued w.refresh.fut ++ w.log }

def FileWriter.answered (w : FileWriter) (req : Twrite) (count : UInt32) : FileWriter :=
  { w with
    fut := .completed req
    futValid := false
    log := .acknowledged req count :: (issued w.refresh.fut ++ w.log) }

inductive FileWriter.Turns (checked : Bool) (w : FileWriter) (answer : Option Answer) :
    Polled ByteString Unit × FileWriter → Prop
  | dead {res : Polled ByteString Unit} : w.refresh.fut.live = none →
      res = .pending ∨ res = .panicked → Turns checked w answer (res, w.refresh)
  | waits {req : Twrite} : w.refresh.fut.live = some req → answer = none →
      Turns checked w answer (.pending, w.polled (.running req))
  | fails {req : Twrite} {e : ByteString} : w.refresh.fut.live = some req →
      answer.map writeReply = some (.error e) →
      Turns checked w answer (.failed e, w.polled (.completed req))
  | overruns {req : Twrite} {count : UInt32} (buffer : Bytes) : w.refresh.fut.live = some req →
      answer.map writeReply = some (.ok count) → w.Overruns checked count →
      Turns checked w answer (.panicked, { w.answered req count with buffer })
  | goesOn {req : Twrite} {count : UInt32} {w' : FileWriter} : w.refresh.fut.live = some req →
      answer.map writeReply = some (.ok count) → Advanced checked (w.answered req count) count w' →
      Turns checked w answer (.ready (), w')

theorem FileWriter.refresh_fut (w : FileWriter) :
    w.refresh.fut = if w.futValid then w.fut else .created w.request := by
  unfold FileWriter.refresh
  split <;> rfl

@[simp] theorem FileWriter.refresh_fid (w : FileWriter) : w.refresh.fid = w.fid := by
  unfold FileWriter.refresh
  split <;> rfl

@[simp] theorem FileWriter.refresh_offset (w : FileWriter) : w.refresh.offset = w.offset := by
  unfold FileWriter.refresh
  split <;> rfl

@[simp] theorem FileWriter.refresh_buffer (w : FileWriter) : w.refresh.buffer = w.buffer := by
  unfold FileWriter.refresh
  split <;> rfl

@[simp] theorem FileWriter.refresh_log (w : FileWriter) : w.refresh.log = w.log := by
  unfold FileWriter.refresh
  split <;> rfl

@[simp] theorem FileWriter.refresh_valid (w : FileWriter) : w.refresh.futValid = true := by
  unfold FileWriter.refresh
  split
  · assumption
  · rfl

theorem turn_turns (checked : Bool) (w : FileWriter) (answer : Option Answer) :
    w.Turns checked answer (w.turn checked answer) := by
  unfold FileWriter.turn
  cases hlive : w.refresh.fut.live with
  | none =>
    have hissued : issued w.refresh.fut = [] := by
      cases hfut : w.refresh.fut with
      | created _ => simp [hfut, Stored.live] at hlive
      | _ => rfl
    obtain hpoll | hpoll := poll_dead hlive (answer.map writeReply)
    · simp only [hpoll, Polled.andThen, passed, hissued]
      exact .dead hlive (.inl rfl)
    · simp only [hpoll, Polled.andThen, passed, hissued]
      exact .dead hlive (.inr rfl)
  | some req =>
    cases hanswer : answer.map writeReply with
    | none =>
      have hturn : w.Turns checked answer _ := .waits hlive (Option.map_eq_none_iff.mp hanswer)
      simpa [poll_none hlive, Polled.andThen, passed, FileWriter.polled] using hturn
    | some res =>
      cases res with
      | error e =>
        have hturn : w.Turns checked answer _ := .fails hlive hanswer
        simpa [poll_error hlive, Polled.andThen, passed, FileWriter.polled] using hturn
      | ok count =>
        simp only [poll_ok hlive, Polled.andThen, passed, hlive, FileWriter.refresh_fid,
          FileWriter.refresh_offset, FileWriter.refresh_buffer, FileWriter.refresh_log]
        change w.Turns checked answer ((w.answered req count).advance checked count)
        obtain ⟨hover, buffer, heq⟩ | ⟨w', heq, hadvanced⟩ :=
          advance_cases checked (w.answered req count) count
        · rw [heq]
          exact .overruns buffer hlive hanswer hover
        · rw [heq]
          exact .goesOn hlive hanswer hadvanced

theorem turns_of_eq {answer : Option Answer} {out : Polled ByteString Unit × FileWriter}
    (h : w.turn checked answer = out) : w.Turns checked answer out := by
  rw [← h]
  exact turn_turns checked w answer

theorem pollFlush_cons (hbuffer : w.buffer ≠ []) (answer : Answer) (answers : List Answer) :
    w.pollFlush checked (answer :: answers) =
      (w.turn checked (some answer)).1.andThen (w.turn checked (some answer)).2
        fun _ => (w.turn checked (some answer)).2.pollFlush checked answers := by
  rw [FileWriter.pollFlush, if_neg (by simpa using hbuffer)]

theorem pollFlush_nil (hbuffer : w.buffer ≠ []) : w.pollFlush checked [] = w.turn checked none := by
  rw [FileWriter.pollFlush, if_neg (by simpa using hbuffer)]

theorem pollFlush_empty (hbuffer : w.buffer = []) (answers : List Answer) :
    w.pollFlush checked answers = (.ready (), w) := by
  cases answers <;> rw [FileWriter.pollFlush, if_pos (by simpa using hbuffer)]

/-- How a flush comes to its end, turn by turn. -/
inductive FileWriter.Flushes (checked : Bool) :
    FileWriter → List Answer → Polled ByteString Unit × FileWriter → Prop
  | empty {w : FileWriter} {answers : List Answer} : w.buffer = [] →
      Flushes checked w answers (.ready (), w)
  | waits {w : FileWriter} {out : Polled ByteString Unit × FileWriter} : w.buffer ≠ [] →
      w.turn checked none = out → out.1 ≠ .ready () → Flushes checked w [] out
  | stops {w : FileWriter} {answer : Answer} {answers : List Answer}
      {out : Polled ByteString Unit × FileWriter} : w.buffer ≠ [] →
      w.turn checked (some answer) = out → out.1 ≠ .ready () →
      Flushes checked w (answer :: answers) out
  | goesOn {w w' : FileWriter} {answer : Answer} {answers : List Answer}
      {out : Polled ByteString Unit × FileWriter} : w.buffer ≠ [] →
      w.turn checked (some answer) = (.ready (), w') → Flushes checked w' answers out →
      Flushes checked w (answer :: answers) out

/-- Without an answer the loop does not go on. -/
theorem turn_none (checked : Bool) (w : FileWriter) : (w.turn checked none).1 ≠ .ready () := by
  have hturn := turn_turns checked w none
  generalize w.turn checked none = out at hturn ⊢
  cases hturn with
  | dead _ hres => obtain rfl | rfl := hres <;> exact nofun
  | waits | fails | overruns => exact nofun
  | goesOn _ hanswer => cases hanswer

theorem pollFlush_flushes (checked : Bool) (w : FileWriter) (answers : List Answer) :
    w.Flushes checked answers (w.pollFlush checked answers) := by
  induction answers generalizing w with
  | nil =>
    by_cases hbuffer : w.buffer = []
    · rw [pollFlush_empty hbuffer]
      exact .empty hbuffer
    · rw [pollFlush_nil hbuffer]
      exact .waits hbuffer rfl (turn_none checked w)
  | cons answer answers ih =>
    by_cases hbuffer : w.buffer = []
    · rw [pollFlush_empty hbuffer]
      exact .empty hbuffer
    · rw [pollFlush_cons hbuffer]
      cases hturn : w.turn checked (some answer) with
      | mk res w' =>
        cases res with
        | ready _ => exact .goesOn hbuffer hturn (ih w')
        | pending | failed _ | panicked => exact .stops hbuffer hturn nofun

/-- What every turn that does not panic keeps, a flush that does not keeps. -/
theorem pollFlush_invariant {I : FileWriter → Prop} (answers : List Answer) (hw : I w)
    (hturn : ∀ {w}, I w → w.buffer ≠ [] → ∀ answer, (w.turn checked answer).1 ≠ .panicked →
      I (w.turn checked answer).2)
    (hcalm : (w.pollFlush checked answers).1 ≠ .panicked) : I (w.pollFlush checked answers).2 := by
  have hflush := pollFlush_flushes checked w answers
  generalize w.pollFlush checked answers = out at hflush hcalm ⊢
  induction hflush with
  | empty => exact hw
  | waits hbuffer heq _ | stops hbuffer heq _ =>
    subst heq
    exact hturn hw hbuffer _ hcalm
  | @goesOn w w' answer _ _ hbuffer heq _ ih =>
    refine ih ?_ hcalm
    have hnext := hturn hw hbuffer (some answer)
    rw [heq] at hnext
    exact hnext nofun

/-- A turn only adds to the history. -/
theorem turn_log (checked : Bool) (w : FileWriter) (answer : Option Answer) :
    w.log <:+ (w.turn checked answer).2.log := by
  have hturn := turn_turns checked w answer
  generalize w.turn checked answer = out at hturn ⊢
  have hissued : w.log <:+ issued w.refresh.fut ++ w.log := List.suffix_append ..
  cases hturn with
  | dead => simp
  | waits | fails => exact hissued
  | overruns => exact hissued.trans (List.suffix_cons ..)
  | goesOn _ _ hadvanced =>
    rw [hadvanced.eq]
    exact hissued.trans (List.suffix_cons ..)

structure FileWriter.Intact (maxlen : Nat) (w : FileWriter) : Prop where
  own : w.futValid → ∀ req, w.fut.live = some req → req = w.request
  idle : w.buffer = [] → w.futValid = false
  conserved : acceptedBytes w.log = storedBytes maxlen w.log ++ place w.offset w.buffer

theorem FileWriter.Intact.refresh (h : w.Intact maxlen) (hlive : w.refresh.fut.live = some req) :
    req = w.request := by
  unfold FileWriter.refresh at hlive
  split at hlive
  · rename_i hvalid
    exact h.own hvalid req hlive
  · exact (Option.some.inj hlive).symm

/-- The bytes that are acknowledged move from the buffer to the file. -/
theorem place_acknowledged (w : FileWriter)
    (hcount : count.toNat ≤ (sentData maxlen w.request).length) :
    place w.offset ((sentData maxlen w.request).take count.toNat) ++
      place (w.offset + .ofNat count.toNat) (w.buffer.drop count.toNat) =
        place w.offset w.buffer := by
  have hsent : (sentData maxlen w.request).take count.toNat = w.buffer.take count.toNat := by
    unfold sentData at hcount ⊢
    cases hbound : writeBound maxlen with
    | none =>
      rw [hbound] at hcount
      obtain hzero := Nat.le_zero.mp hcount
      simp [hzero]
    | some bound =>
      rw [hbound, Option.elim_some, List.length_take] at hcount
      rw [Option.elim_some, List.take_take, Nat.min_eq_left (by omega)]
      rfl
  have hlen : (w.buffer.take count.toNat).length = count.toNat := by
    rw [← hsent, List.length_take, Nat.min_eq_left hcount]
  rw [hsent]
  conv_rhs => rw [← List.take_append_drop count.toNat w.buffer, place_append, hlen]

/-- A turn of the loop loses no byte and moves none. -/
theorem FileWriter.Intact.turn (h : Acknowledges maxlen w.log → w.Intact maxlen)
    (hbuffer : w.buffer ≠ []) (answer : Option Answer)
    (hcalm : (w.turn checked answer).1 ≠ .panicked)
    (hacks : Acknowledges maxlen (w.turn checked answer).2.log) :
    (w.turn checked answer).2.Intact maxlen := by
  have hw := h (hacks.of_suffix (turn_log checked w answer))
  have hturn := turn_turns checked w answer
  generalize w.turn checked answer = out at hcalm hacks hturn ⊢
  have hpolled {fut : Stored Twrite} (hlive : ∀ req, fut.live = some req → req = w.request) :
      (w.polled fut).Intact maxlen :=
    ⟨fun _ => hlive, fun hempty => absurd hempty hbuffer, by simpa [polled] using hw.conserved⟩
  cases hturn with
  | dead hlive _ =>
    refine ⟨fun _ req hreq => ?_, fun hempty => ?_, by simpa using hw.conserved⟩
    · rw [hlive] at hreq
      cases hreq
    · exact absurd (by simpa using hempty) hbuffer
  | waits hlive _ =>
    refine hpolled fun req hreq => ?_
    obtain rfl := Option.some.inj hreq
    exact hw.refresh hlive
  | fails hlive _ => exact hpolled nofun
  | overruns => exact absurd rfl hcalm
  | @goesOn req count w' hlive _ hadvanced =>
    obtain ⟨hle, -, rfl⟩ := hadvanced
    obtain rfl := hw.refresh hlive
    obtain ⟨-, hcount⟩ := hacks w.request count List.mem_cons_self
    refine ⟨nofun, fun _ => rfl, ?_⟩
    have hplace := place_acknowledged w hcount
    simp only [answered, acceptedBytes, storedBytes, acceptedBytes_issued, storedBytes_issued,
      hw.conserved, List.append_assoc]
    rw [← hplace]
    rfl

theorem FileWriter.Intact.pollFlush (checked : Bool)
    (h : Acknowledges maxlen w.log → w.Intact maxlen) (answers : List Answer)
    (hcalm : (w.pollFlush checked answers).1 ≠ .panicked) :
    Acknowledges maxlen (w.pollFlush checked answers).2.log →
      (w.pollFlush checked answers).2.Intact maxlen :=
  pollFlush_invariant (I := fun w => Acknowledges maxlen w.log → w.Intact maxlen) answers h
    (fun hw hbuffer answer hcalm hacks => Intact.turn hw hbuffer answer hcalm hacks) hcalm

/-- A flush that is done has nothing left. -/
theorem pollFlush_ready (h : w.pollFlush checked answers = (.ready (), w')) : w'.buffer = [] := by
  have hflush := pollFlush_flushes checked w answers
  generalize w.pollFlush checked answers = out at hflush h
  induction hflush with
  | empty hbuffer =>
    cases h
    exact hbuffer
  | waits _ _ hready | stops _ _ hready => exact absurd (congrArg Prod.fst h) hready
  | goesOn _ _ _ ih => exact ih h

inductive FileWriter.Moves (checked : Bool) (w : FileWriter) : FileWriter → Prop
  | flush {answers : List Answer} : (w.pollFlush checked answers).1 ≠ .panicked →
      Moves checked w (w.pollFlush checked answers).2
  | write {answers : List Answer} {w₁ : FileWriter} (buf : Bytes) :
      w.pollFlush checked answers = (.ready (), w₁) →
      Moves checked w { w₁ with buffer := buf, log := .accepted w₁.offset buf :: w₁.log }
  | stay : Moves checked w w
  | seek (offset : UInt64) : w.buffer = [] → w.futValid = false →
      Moves checked w { w with offset }

/-- A seek moves a writer that has nothing to write, or none. -/
theorem startSeek_cases (w : FileWriter) (position : SeekFrom) :
    (w.startSeek position).2 = w ∨ ∃ offset, w.buffer = [] ∧ w.futValid = false ∧
      (w.startSeek position).2 = { w with offset } := by
  unfold FileWriter.startSeek
  by_cases hbusy : !w.buffer.isEmpty || w.futValid
  · rw [if_pos hbusy]
    exact .inl rfl
  · rw [if_neg hbusy]
    obtain ⟨hbuffer, hvalid⟩ : w.buffer = [] ∧ w.futValid = false := by simpa using hbusy
    cases position with
    | start offset => exact .inr ⟨offset, hbuffer, hvalid, rfl⟩
    | current d =>
      cases hadd : checkedAddSigned w.offset d with
      | none => exact .inl (by simp only [hadd])
      | some offset => exact .inr ⟨offset, hbuffer, hvalid, by simp only [hadd]⟩
    | fromEnd d => exact .inl rfl

theorem step_moves (h : w.step checked call = some w') : w.Moves checked w' := by
  cases call with
  | pollWrite buf answers =>
    have hflush := @FileWriter.Moves.flush checked w answers
    simp only [FileWriter.step, FileWriter.react, FileWriter.pollWrite] at h
    cases hpoll : w.pollFlush checked answers with
    | mk res w₁ =>
      rw [hpoll] at h hflush
      cases res with
      | panicked => cases h
      | ready _ =>
        obtain rfl := Option.some.inj h
        exact .write buf hpoll
      | pending | failed _ =>
        obtain rfl := Option.some.inj h
        exact hflush nofun
  | pollFlush answers | pollShutdown answers | pollComplete answers =>
    have hflush := @FileWriter.Moves.flush checked w answers
    simp only [FileWriter.step, FileWriter.react, FileWriter.pollShutdown,
      FileWriter.pollComplete] at h
    cases hpoll : w.pollFlush checked answers with
    | mk res w₁ =>
      rw [hpoll] at h hflush
      cases res with
      | panicked => cases h
      | ready _ | pending | failed _ =>
        obtain rfl := Option.some.inj h
        exact hflush nofun
  | startSeek position =>
    have hseek := startSeek_cases w position
    simp only [FileWriter.step, FileWriter.react] at h
    generalize w.startSeek position = out at h hseek
    obtain ⟨res, w₁⟩ := out
    cases res with
    | panicked => cases h
    | ready _ | pending | failed _ =>
      obtain rfl := Option.some.inj h
      obtain rfl | ⟨offset, hbuffer, hvalid, rfl⟩ := hseek
      · exact .stay
      · exact .seek offset hbuffer hvalid

theorem FileWriter.Intact.step (h : Acknowledges maxlen w.log → w.Intact maxlen)
    (hstep : w.step checked call = some w') (hacks : Acknowledges maxlen w'.log) :
    w'.Intact maxlen := by
  cases step_moves hstep with
  | flush hcalm => exact Intact.pollFlush checked h _ hcalm hacks
  | @write answers w₁ buf hready =>
    have hflush := Intact.pollFlush checked h answers
    rw [hready] at hflush
    have hw₁ := hflush nofun (hacks.of_suffix (List.suffix_cons ..))
    have hidle := hw₁.idle (pollFlush_ready hready)
    refine ⟨fun hvalid => ?_, fun _ => hidle, ?_⟩
    · rw [hidle] at hvalid
      cases hvalid
    · have hconserved := hw₁.conserved
      rw [pollFlush_ready hready, place, List.append_nil] at hconserved
      simp only [acceptedBytes, storedBytes, hconserved]
  | stay => exact h hacks
  | seek offset hbuffer hvalid =>
    have hw := h hacks
    refine ⟨fun hvalid' => ?_, fun _ => hvalid, ?_⟩
    · rw [hvalid] at hvalid'
      cases hvalid'
    · have hconserved := hw.conserved
      rw [hbuffer] at hconserved ⊢
      exact hconserved

def FileWriter.Answered (w : FileWriter) : Prop :=
  sentRequests w.log = acknowledgedRequests w.log ++ w.unacknowledged.toList

/-- A turn goes on with the request under way, or sends the only one. -/
theorem FileWriter.Answered.refresh (h : w.Answered) (hlive : w.refresh.fut.live = some req) :
    sentRequests (issued w.refresh.fut ++ w.log) = acknowledgedRequests w.log ++ [req] := by
  unfold Answered unacknowledged at h
  rw [refresh_fut] at hlive ⊢
  cases hvalid : w.futValid with
  | false =>
    rw [hvalid] at h hlive
    obtain rfl := Option.some.inj hlive
    simpa [issued, sentRequests] using h
  | true =>
    rw [hvalid] at h hlive
    cases hfut : w.fut with
    | created _ | running _ =>
      rw [hfut] at h hlive
      obtain rfl := Option.some.inj hlive
      simpa [issued, sentRequests] using h
    | never | completed _ =>
      rw [hfut] at hlive
      cases hlive

theorem FileWriter.Answered.turn (h : w.Answered) (answer : Option Answer)
    (hcalm : (w.turn checked answer).1 ≠ .panicked) : (w.turn checked answer).2.Answered := by
  have hturn := turn_turns checked w answer
  generalize w.turn checked answer = out at hcalm hturn ⊢
  cases hturn with
  | dead hlive _ =>
    -- only a valid future is dead, and then nothing is refreshed
    have hvalid : w.futValid = true := by
      by_contra hinvalid
      rw [refresh_fut, if_neg hinvalid] at hlive
      cases hlive
    rwa [FileWriter.refresh, if_pos hvalid]
  | waits hlive _ | fails hlive _ =>
    simpa [Answered, polled, unacknowledged] using h.refresh hlive
  | overruns => exact absurd rfl hcalm
  | goesOn hlive _ hadvanced =>
    obtain ⟨-, -, rfl⟩ := hadvanced
    simpa [Answered, answered, unacknowledged, sentRequests, acknowledgedRequests] using
      h.refresh hlive

theorem FileWriter.Answered.pollFlush (checked : Bool) (h : w.Answered) (answers : List Answer)
    (hcalm : (w.pollFlush checked answers).1 ≠ .panicked) :
    (w.pollFlush checked answers).2.Answered :=
  pollFlush_invariant (I := FileWriter.Answered) answers h
    (fun hw _ answer hcalm => hw.turn answer hcalm) hcalm

theorem FileWriter.Answered.step (h : w.Answered) (hstep : w.step checked call = some w') :
    w'.Answered := by
  cases step_moves hstep with
  | flush hcalm => exact h.pollFlush checked _ hcalm
  | @write answers w₁ buf hready =>
    have hflush := h.pollFlush checked answers
    rw [hready] at hflush
    exact hflush nofun
  | stay | seek _ _ _ => exact h

end Writer

/-- Every byte accepted is stored or buffered, in the order and at the position
it was accepted for. Every request sent is acknowledged once, but for the one
under way. A flush that is done has left nothing, and no seek is possible while
something is buffered. -/
theorem file_writer_stores (maxlen : Nat) (checked : Bool) (fid : UInt32) (w : FileWriter)
    (h : Reaches (FileWriter.step checked) (.new fid) w) (hacks : Acknowledges maxlen w.log) :
    acceptedBytes w.log = storedBytes maxlen w.log ++ place w.offset w.buffer ∧
    sentRequests w.log = acknowledgedRequests w.log ++ w.unacknowledged.toList ∧
    (∀ answers w', w.pollFlush checked answers = (.ready (), w') → w'.buffer = []) ∧
    (∀ position, w.buffer ≠ [] → w.startSeek position = (.failed "other error", w)) := by
  have hintact : Acknowledges maxlen w.log → w.Intact maxlen :=
    h.invariant (I := fun w => Acknowledges maxlen w.log → w.Intact maxlen)
      (fun _ => ⟨nofun, fun _ => rfl, rfl⟩) fun hw _ hstep => FileWriter.Intact.step hw hstep
  have hanswered : w.Answered :=
    h.invariant (I := FileWriter.Answered) rfl fun hw _ hstep => hw.step hstep
  refine ⟨(hintact hacks).conserved, hanswered, fun answers w' => pollFlush_ready,
    fun position hbuffer => ?_⟩
  unfold FileWriter.startSeek
  rw [if_pos (by simp [hbuffer])]

/-- Three bytes where a datagram has room for two of them. -/
theorem file_writer_stores_truncated : ∃ w,
    exec (FileWriter.step true) (.new 1)
      [.pollWrite [7, 8, 9] [], .pollFlush [.ok (.rwrite ⟨2⟩)]] = some w ∧
    acceptedBytes w.log = storedBytes (twriteOverhead + 2) w.log ++ [(2, 9)] ∧
    sentRequests w.log = acknowledgedRequests w.log ++ [⟨1, 2, [9]⟩] := by
  obtain ⟨w, hexec, hplace, hunder, hlog⟩ : ∃ w,
      exec (FileWriter.step true) (.new 1)
        [.pollWrite [7, 8, 9] [], .pollFlush [.ok (.rwrite ⟨2⟩)]] = some w ∧
      place w.offset w.buffer = [(2, 9)] ∧ w.unacknowledged = some ⟨1, 2, [9]⟩ ∧
      w.log = [.sent ⟨1, 2, [9]⟩, .acknowledged ⟨1, 0, [7, 8, 9]⟩ 2, .sent ⟨1, 0, [7, 8, 9]⟩,
        .accepted 0 [7, 8, 9]] := ⟨_, rfl, rfl, rfl, rfl⟩
  have hacks : Acknowledges (twriteOverhead + 2) w.log := by
    intro req count hmem
    obtain ⟨rfl, rfl⟩ : req = ⟨1, 0, [7, 8, 9]⟩ ∧ count = 2 := by simpa [hlog] using hmem
    decide
  obtain ⟨hstores, hsent, -, -⟩ := file_writer_stores _ true 1 w (reaches_of_exec hexec) hacks
  rw [hplace] at hstores
  rw [hunder] at hsent
  exact ⟨w, hexec, hstores, hsent⟩

end NineWire.Client
