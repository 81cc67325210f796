import NineWire.Client.Filesystem
import NineWire.Futures
import NineWire.Refinement

/-! `FileReader`: reading an open file from where it was left, with at most one
`Tread` under way. It refines a cursor that moves over the file's content. -/
namespace NineWire.Client
open NineWire.Wire NineWire.Futures NineWire.Refinement

abbrev Answer := Except ByteString RMessage

inductive SeekFrom where
  | start (offset : UInt64)
  | current (offset : Int64)
  | fromEnd (offset : Int64)
  deriving DecidableEq

/-- `offset.checked_add_signed(d)`. -/
def checkedAddSigned (offset : UInt64) (d : Int64) : Option UInt64 :=
  let sum := (offset.toNat : Int) + d.toInt
  if 0 ≤ sum ∧ sum < 2 ^ 64 then some (.ofNat sum.toNat) else none

/-- `offset += n`: where overflow is `checked` it panics, elsewhere it wraps. -/
def addOffset (checked : Bool) (offset : UInt64) (n : Nat) : Option UInt64 :=
  if checked ∧ 2 ^ 64 ≤ offset.toNat + n then none else some (offset + .ofNat n)

/-- What `read_at` makes of the answer. -/
def readReply : Answer → Except ByteString Bytes
  | .error e => .error e
  | .ok (.rerror ⟨ename⟩) => .error ename
  | .ok (.rread ⟨data⟩) => .ok data
  | .ok _ => .error "unexpected message type"

structure FileReader where
  fid : UInt32
  offset : UInt64
  futValid : Bool
  fut : Stored Tread

def FileReader.new (fid : UInt32) : FileReader where
  fid := fid
  offset := 0
  futValid := false
  fut := .never

/-- `remaining.try_into().unwrap_or(u32::MAX)`. -/
def toCount (remaining : Nat) : UInt32 :=
  if remaining < 2 ^ 32 then .ofNat remaining else 0xFFFFFFFF

/-- The future that is polled: a new one, unless the stored one is valid. -/
def FileReader.refresh (r : FileReader) (remaining : Nat) : FileReader :=
  if r.futValid then r
  else { r with fut := .created ⟨r.fid, r.offset, toCount remaining⟩, futValid := true }

/-- What is placed in a buffer with `remaining` bytes of room. -/
def FileReader.pollRead (checked : Bool) (r : FileReader) (remaining : Nat)
    (answer : Option Answer) : Polled ByteString Bytes × FileReader :=
  if remaining = 0 then (.ready [], r)
  else
    let r := r.refresh remaining
    let (polled, fut) := r.fut.poll (answer.map readReply)
    polled.andThen { r with fut } fun res =>
      let n := min res.length remaining
      match addOffset checked r.offset n with
      | none => (.panicked, { r with fut, futValid := false })
      | some offset => (.ready (res.take n), { r with fut, futValid := false, offset })

def FileReader.seekTo (r : FileReader) (offset : UInt64) : FileReader :=
  { r with offset, futValid := if offset ≠ r.offset then false else r.futValid }

/-- `start_seek`; a seek from the end is still to do. -/
def FileReader.startSeek (r : FileReader) (position : SeekFrom) :
    Polled ByteString Unit × FileReader :=
  match position with
  | .start offset => (.ready (), r.seekTo offset)
  | .current d =>
    match checkedAddSigned r.offset d with
    | none => (.failed "invalid input parameter", r)
    | some offset => (.ready (), r.seekTo offset)
  | .fromEnd _ => (.panicked, r)

def FileReader.pollComplete (r : FileReader) : Polled ByteString UInt64 × FileReader :=
  (.ready r.offset, r)

inductive ReaderCall where
  | pollRead (remaining : Nat) (answer : Option Answer)
  | startSeek (position : SeekFrom)
  | pollComplete

inductive ReaderEvent where
  | read (remaining : Nat) (res : Polled ByteString Bytes)
  | seek (position : SeekFrom) (res : Polled ByteString Unit)
  | complete (res : Polled ByteString UInt64)
  deriving DecidableEq

def FileReader.react (checked : Bool) (r : FileReader) : ReaderCall → ReaderEvent × FileReader
  | .pollRead remaining answer =>
    let (res, r) := r.pollRead checked remaining answer
    (.read remaining res, r)
  | .startSeek position =>
    let (res, r) := r.startSeek position
    (.seek position res, r)
  | .pollComplete =>
    let (res, r) := r.pollComplete
    (.complete res, r)

/-! What a reader is for. -/

/-- The bytes of a file. Their number fits the `length` of its stat. -/
structure Content where
  bytes : Bytes
  fits : bytes.length < 2 ^ 64

/-- Data that answers a `Tread`: what is there from its offset on, up to its
count, and nothing only if nothing is there. -/
structure Content.Answers (content : Content) (req : Tread) (data : Bytes) : Prop where
  part : data <+: (content.bytes.drop req.offset.toNat).take req.count.toNat
  some_left : data = [] → content.bytes.length ≤ req.offset.toNat

def Content.Serves (content : Content) (r : FileReader) (call : ReaderCall) : Prop :=
  ∀ remaining data req, call = .pollRead remaining (some (.ok (.rread ⟨data⟩))) →
    remaining ≠ 0 → (r.refresh remaining).fut.live = some req → content.Answers req data

/-- A cursor over the content of a file: the position before an event, and the
position after it. -/
inductive Content.Cursor (content : Content) : Nat → ReaderEvent → Nat → Prop
  | placed {pos remaining : Nat} {bytes : Bytes} :
      bytes <+: content.bytes.drop pos → bytes.length ≤ remaining →
      (0 < remaining → bytes = [] → content.bytes.length ≤ pos) →
      Cursor content pos (.read remaining (.ready bytes)) (pos + bytes.length)
  | unread {pos remaining : Nat} {res : Polled ByteString Bytes} :
      (∀ bytes, res ≠ .ready bytes) → Cursor content pos (.read remaining res) pos
  | start {pos : Nat} (offset : UInt64) :
      Cursor content pos (.seek (.start offset) (.ready ())) offset.toNat
  | current {pos pos' : Nat} {d : Int64} : (pos' : Int) = pos + d.toInt → pos' < 2 ^ 64 →
      Cursor content pos (.seek (.current d) (.ready ())) pos'
  | outside {pos : Nat} {d : Int64} {e : ByteString} :
      ¬(0 ≤ (pos : Int) + d.toInt ∧ (pos : Int) + d.toInt < 2 ^ 64) →
      Cursor content pos (.seek (.current d) (.failed e)) pos
  | fromEnd {pos : Nat} {d : Int64} : Cursor content pos (.seek (.fromEnd d) .panicked) pos
  | complete {pos : Nat} {offset : UInt64} : offset.toNat = pos →
      Cursor content pos (.complete (.ready offset)) pos

section Reader
variable {checked : Bool} {r : FileReader} {remaining : Nat} {answer : Option Answer}
  {content : Content} {call : ReaderCall}

theorem readReply_ok {data : Bytes} (h : answer.map readReply = some (.ok data)) :
    answer = some (.ok (.rread ⟨data⟩)) := by
  obtain ⟨res, rfl, hres⟩ := Option.map_eq_some_iff.mp h
  cases res with
  | error e => cases hres
  | ok resp =>
    cases resp with
    | rread resp =>
      obtain rfl := Except.ok.inj hres
      rfl
    | _ => cases hres

inductive FileReader.Polls (checked : Bool) (r : FileReader) (remaining : Nat)
    (answer : Option Answer) : Polled ByteString Bytes × FileReader → Prop
  | dead {res : Polled ByteString Bytes} : (r.refresh remaining).fut.live = none →
      res = .pending ∨ res = .panicked → Polls checked r remaining answer (res, r.refresh remaining)
  | waits {req : Tread} : (r.refresh remaining).fut.live = some req → answer = none →
      Polls checked r remaining answer (.pending, { r.refresh remaining with fut := .running req })
  | fails {req : Tread} {e : ByteString} : (r.refresh remaining).fut.live = some req →
      answer.map readReply = some (.error e) → Polls checked r remaining answer
        (.failed e, { r.refresh remaining with fut := .completed req })
  | overflow {req : Tread} {data : Bytes} : (r.refresh remaining).fut.live = some req →
      answer = some (.ok (.rread ⟨data⟩)) →
      addOffset checked r.offset (min data.length remaining) = none →
      Polls checked r remaining answer
        (.panicked, { r.refresh remaining with fut := .completed req, futValid := false })
  | placed {req : Tread} {data : Bytes} {offset : UInt64} :
      (r.refresh remaining).fut.live = some req → answer = some (.ok (.rread ⟨data⟩)) →
      addOffset checked r.offset (min data.length remaining) = some offset →
      Polls checked r remaining answer (.ready (data.take (min data.length remaining)),
        { r.refresh remaining with fut := .completed req, futValid := false, offset })

theorem refresh_fut (r : FileReader) (remaining : Nat) : (r.refresh remaining).fut =
    if r.futValid then r.fut else .created ⟨r.fid, r.offset, toCount remaining⟩ := by
  unfold FileReader.refresh
  split <;> rfl

theorem refresh_offset (r : FileReader) (remaining : Nat) :
    (r.refresh remaining).offset = r.offset := by
  unfold FileReader.refresh
  split <;> rfl

theorem pollRead_polls (checked : Bool) (r : FileReader) (answer : Option Answer)
    (h : remaining ≠ 0) :
    r.Polls checked remaining answer (r.pollRead checked remaining answer) := by
  rw [FileReader.pollRead, if_neg h]
  cases hlive : (r.refresh remaining).fut.live with
  | none =>
    obtain hpoll | hpoll := poll_dead hlive (answer.map readReply)
    · simp only [hpoll, Polled.andThen]
      exact .dead hlive (.inl rfl)
    · simp only [hpoll, Polled.andThen]
      exact .dead hlive (.inr rfl)
  | some req =>
    cases hanswer : answer.map readReply with
    | none =>
      simp only [poll_none hlive, Polled.andThen]
      exact .waits hlive (Option.map_eq_none_iff.mp hanswer)
    | some res =>
      cases res with
      | error e =>
        simp only [poll_error hlive, Polled.andThen]
        exact .fails hlive hanswer
      | ok data =>
        have hdata := readReply_ok hanswer
        simp only [poll_ok hlive, Polled.andThen]
        cases hoffset : addOffset checked (r.refresh remaining).offset
            (min data.length remaining) with
        | none => exact .overflow hlive hdata (refresh_offset r remaining ▸ hoffset)
        | some offset => exact .placed hlive hdata (refresh_offset r remaining ▸ hoffset)

/-- The read under way is one for the present offset. -/
def FileReader.Aligned (r : FileReader) : Prop :=
  r.futValid → ∀ req, r.fut.live = some req → req.offset = r.offset ∧ 0 < req.count.toNat

theorem toCount_pos (h : remaining ≠ 0) : 0 < (toCount remaining).toNat := by
  unfold toCount
  split
  · rename_i hlt
    rw [UInt32.toNat_ofNat_of_lt' hlt]
    exact Nat.pos_of_ne_zero h
  · decide

theorem FileReader.Aligned.refresh (h : r.Aligned) (hremaining : remaining ≠ 0) :
    (r.refresh remaining).Aligned := by
  unfold FileReader.refresh
  split
  · exact h
  · intro _ req hreq
    obtain rfl := Option.some.inj hreq
    exact ⟨rfl, toCount_pos hremaining⟩

theorem refresh_valid (r : FileReader) (remaining : Nat) : (r.refresh remaining).futValid := by
  unfold FileReader.refresh
  split
  · assumption
  · rfl

theorem FileReader.Aligned.seekTo (h : r.Aligned) (offset : UInt64) :
    (r.seekTo offset).Aligned := by
  by_cases hoffset : offset = r.offset
  · subst hoffset
    simpa [FileReader.seekTo, FileReader.Aligned] using h
  · simp [FileReader.seekTo, FileReader.Aligned, hoffset]

theorem FileReader.Aligned.pollRead (h : r.Aligned) (checked : Bool) (remaining : Nat)
    (answer : Option Answer) : (r.pollRead checked remaining answer).2.Aligned := by
  by_cases hremaining : remaining = 0
  · rwa [FileReader.pollRead, if_pos hremaining]
  · have hpoll := pollRead_polls checked r answer hremaining
    generalize r.pollRead checked remaining answer = out at hpoll ⊢
    have haligned := h.refresh hremaining
    cases hpoll with
    | dead => exact haligned
    | @waits req hlive _ =>
      intro _ req' hreq
      obtain rfl := Option.some.inj hreq
      exact haligned (refresh_valid r remaining) req hlive
    | fails | overflow | placed => exact nofun

theorem FileReader.Aligned.react (h : r.Aligned) (checked : Bool) (call : ReaderCall) :
    (r.react checked call).2.Aligned := by
  cases call with
  | pollRead remaining answer => exact h.pollRead checked remaining answer
  | startSeek position =>
    cases position with
    | start offset => exact h.seekTo offset
    | current d =>
      simp only [FileReader.react, FileReader.startSeek]
      cases checkedAddSigned r.offset d with
      | none => exact h
      | some offset => exact h.seekTo offset
    | fromEnd d => exact h
  | pollComplete => exact h

theorem addOffset_fits (checked : Bool) {offset : UInt64} {n : Nat}
    (hfits : offset.toNat + n < 2 ^ 64) :
    ∃ offset', addOffset checked offset n = some offset' ∧ offset'.toNat = offset.toNat + n := by
  refine ⟨offset + .ofNat n, ?_, ?_⟩
  · rw [addOffset, if_neg fun h => absurd hfits (Nat.not_lt.mpr h.2)]
  · rw [UInt64.toNat_add, UInt64.toNat_ofNat']
    omega

theorem checkedAddSigned_some {offset offset' : UInt64} {d : Int64}
    (h : checkedAddSigned offset d = some offset') :
    (offset'.toNat : Int) = offset.toNat + d.toInt := by
  simp only [checkedAddSigned] at h
  split at h
  · rename_i hsum
    obtain rfl := Option.some.inj h
    rw [UInt64.toNat_ofNat', Nat.mod_eq_of_lt (by omega)]
    omega
  · cases h

theorem checkedAddSigned_none {offset : UInt64} {d : Int64} (h : checkedAddSigned offset d = none) :
    ¬(0 ≤ (offset.toNat : Int) + d.toInt ∧ (offset.toNat : Int) + d.toInt < 2 ^ 64) := by
  simp only [checkedAddSigned] at h
  split at h
  · cases h
  · assumption

/-- What is placed is the part of the content at the offset. -/
theorem Content.Answers.placed {req : Tread} {data : Bytes} (h : content.Answers req data)
    (remaining : Nat) :
    data.take (min data.length remaining) <+: content.bytes.drop req.offset.toNat ∧
      (data = [] ∨ req.offset.toNat + min data.length remaining ≤ content.bytes.length) := by
  have hprefix : data <+: content.bytes.drop req.offset.toNat := h.part.trans (List.take_prefix ..)
  refine ⟨(List.take_prefix ..).trans hprefix, ?_⟩
  have hlen := hprefix.length_le
  rw [List.length_drop] at hlen
  cases data with
  | nil => exact .inl rfl
  | cons b data =>
    rw [List.length_cons] at hlen
    refine .inr ?_
    rw [List.length_cons]
    omega

/-- A poll of a read is a step of the cursor. -/
theorem pollRead_cursor (h : r.Aligned) (hserves : content.Serves r (.pollRead remaining answer)) :
    content.Cursor r.offset.toNat (.read remaining (r.pollRead checked remaining answer).1)
      (r.pollRead checked remaining answer).2.offset.toNat := by
  by_cases hremaining : remaining = 0
  · subst hremaining
    rw [FileReader.pollRead, if_pos rfl]
    exact .placed (List.nil_prefix) (Nat.le_refl 0) nofun
  · have hpoll := pollRead_polls checked r answer hremaining
    generalize r.pollRead checked remaining answer = out at hpoll ⊢
    have haligned := h.refresh hremaining (refresh_valid r remaining)
    cases hpoll with
    | dead _ hres =>
      rw [refresh_offset]
      obtain rfl | rfl := hres <;> exact .unread nofun
    | waits | fails | overflow =>
      rw [refresh_offset]
      exact .unread nofun
    | @placed req data offset hlive hanswer hoffset =>
      obtain ⟨hreq, -⟩ := haligned req hlive
      rw [refresh_offset] at hreq
      have hdata := hserves remaining data req (by rw [hanswer]) hremaining hlive
      obtain ⟨hpart, hroom⟩ := hdata.placed remaining
      rw [hreq] at hpart hroom
      have hfits : r.offset.toNat + min data.length remaining < 2 ^ 64 := by
        obtain rfl | hle := hroom
        · simpa using r.offset.toNat_lt
        · exact Nat.lt_of_le_of_lt hle content.fits
      obtain ⟨offset', hoffset', hnat⟩ := addOffset_fits checked hfits
      obtain rfl := Option.some.inj (hoffset.symm.trans hoffset')
      have hlen : (data.take (min data.length remaining)).length = min data.length remaining := by
        rw [List.length_take]
        omega
      have hafter : offset.toNat =
          r.offset.toNat + (data.take (min data.length remaining)).length := by
        rw [hnat, hlen]
      rw [hafter]
      refine .placed hpart (by omega) fun _ hnil => ?_
      rw [← hreq]
      refine hdata.some_left ?_
      have hzero : min data.length remaining = 0 := by rw [← hlen, hnil, List.length_nil]
      exact List.length_eq_zero_iff.mp (by omega)

theorem react_cursor (h : r.Aligned) (hserves : content.Serves r call) :
    content.Cursor r.offset.toNat (r.react checked call).1
      (r.react checked call).2.offset.toNat := by
  cases call with
  | pollRead remaining answer => exact pollRead_cursor h hserves
  | startSeek position =>
    cases position with
    | start offset => exact .start offset
    | current d =>
      simp only [FileReader.react, FileReader.startSeek]
      cases hadd : checkedAddSigned r.offset d with
      | none => exact .outside (checkedAddSigned_none hadd)
      | some offset => exact .current (checkedAddSigned_some hadd) offset.toNat_lt
    | fromEnd d => exact .fromEnd
  | pollComplete => exact .complete rfl

end Reader

/-- Whatever is asked of a reader in whatever order, what it shows is what a
cursor over the content shows. A seek that fails leaves it as it was. -/
theorem file_reader_refines (content : Content) (checked : Bool) (fid : UInt32)
    (events : List ReaderEvent) (r : FileReader)
    (h : Runs (FileReader.react checked) content.Serves (.new fid) events r) :
    Traces content.Cursor 0 events r.offset.toNat ∧
      ∀ position e, (r.startSeek position).1 = .failed e → (r.startSeek position).2 = r := by
  constructor
  · refine h.refines (I := FileReader.Aligned) (fun r => r.offset.toNat) nofun ?_ ?_
    · exact fun h _ => h.react checked _
    · exact fun h hserves => react_cursor h hserves
  · intro position e hfailed
    cases position with
    | start offset => cases hfailed
    | current d =>
      simp only [FileReader.startSeek] at hfailed ⊢
      cases hadd : checkedAddSigned r.offset d with
      | none => rfl
      | some offset =>
        rw [hadd] at hfailed
        cases hfailed
    | fromEnd d => rfl

/-- A read at 0 is given up for one at 1, whose data arrives for a smaller
buffer; then a seek too far back. -/
theorem file_reader_refines_sought : Traces (Content.Cursor ⟨[7, 8, 9], by decide⟩) 0
    [.read 2 .pending, .seek (.start 1) (.ready ()), .read 8 .pending, .read 1 (.ready [8]),
      .seek (.current (-9)) (.failed "invalid input parameter"), .complete (.ready 2)] 2 := by
  let content : Content := ⟨[7, 8, 9], by decide⟩
  have hserves : content.Serves ⟨1, 1, true, .running ⟨1, 1, 8⟩⟩
      (.pollRead 1 (some (.ok (.rread ⟨[8, 9]⟩)))) := by
    intro remaining data req hcall _ hreq
    cases hcall
    cases hreq
    exact ⟨by decide, nofun⟩
  refine (file_reader_refines content true 1 _ ⟨1, 2, false, .completed ⟨1, 1, 8⟩⟩ ?_).1
  refine runs_of_reactions [.pollRead 2 none, .startSeek (.start 1), .pollRead 8 none,
    .pollRead 1 (some (.ok (.rread ⟨[8, 9]⟩))), .startSeek (.current (-9)), .pollComplete] ?_ rfl
  exact ⟨nofun, nofun, nofun, hserves, nofun, nofun, trivial⟩

end NineWire.Client
