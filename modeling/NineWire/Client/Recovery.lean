import NineWire.Client.FileWriter

/-! The flag beside the stored future of a reader and of a writer. It is cleared
by what a call returns, but not by an error: the future that failed stays there,
marked as valid, to be polled once more. -/
namespace NineWire.Client
open NineWire.Wire NineWire.Futures NineWire.Transition

def Started {ι : Type} (futValid : Bool) (fut : Stored ι) : Prop :=
  futValid → ∃ args, fut = .running args

/-- A poll with room in the buffer that is answered with an error. -/
def ReaderCall.MeetsError : ReaderCall → Prop
  | .pollRead remaining answer => remaining ≠ 0 ∧ ∃ e, answer.map readReply = some (.error e)
  | .startSeek _ | .pollComplete => False

def total (counts : List UInt32) : Nat := (counts.map UInt32.toNat).sum

/-- An error that a flush gets to, behind counts that leave some of the buffer. -/
def FileWriter.MeetsError (checked : Bool) (w : FileWriter) (answers : List Answer) : Prop :=
  ∃ counts e rest, answers.map writeReply = counts.map .ok ++ .error e :: rest ∧
    total counts < w.buffer.length ∧ (checked → w.offset.toNat + total counts < 2 ^ 64)

def WriterCall.MeetsError (checked : Bool) (w : FileWriter) : WriterCall → Prop
  | .pollWrite _ answers | .pollFlush answers | .pollShutdown answers | .pollComplete answers =>
    w.MeetsError checked answers
  | .startSeek _ => False

theorem started_live {ι : Type} {futValid : Bool} {fut : Stored ι} (h : Started futValid fut)
    (args : ι) : ∃ args', (if futValid then fut else .created args).live = some args' := by
  split
  · rename_i hvalid
    obtain ⟨args', rfl⟩ := h hvalid
    exact ⟨args', rfl⟩
  · exact ⟨args, rfl⟩

section Reader
variable {checked : Bool} {r : FileReader} {remaining : Nat} {answer : Option Answer}
  {call : ReaderCall}

theorem started_refresh (h : Started r.futValid r.fut) (remaining : Nat) :
    ∃ req, (r.refresh remaining).fut.live = some req := by
  rw [refresh_fut]
  exact started_live h _

theorem started_pollRead (checked : Bool) (h : Started r.futValid r.fut)
    (hremaining : remaining ≠ 0) :
    Started (r.pollRead checked remaining answer).2.futValid
      (r.pollRead checked remaining answer).2.fut ↔
        ¬∃ e, answer.map readReply = some (.error e) := by
  obtain ⟨req, hlive⟩ := started_refresh h remaining
  have hpoll := pollRead_polls checked r answer hremaining
  generalize r.pollRead checked remaining answer = out at hpoll ⊢
  cases hpoll with
  | dead hdead _ => cases hdead.symm.trans hlive
  | waits _ hanswer => simp [hanswer, Started]
  | fails _ hanswer =>
    refine iff_of_false (fun hstarted => ?_) fun hnone => hnone ⟨_, hanswer⟩
    obtain ⟨req', hfut⟩ := hstarted (refresh_valid r remaining)
    cases hfut
  | overflow _ hanswer _ => simp [hanswer, Started, readReply]
  | placed _ hanswer _ => simp [hanswer, Started, readReply]

theorem started_seekTo (h : Started r.futValid r.fut) (offset : UInt64) :
    Started (r.seekTo offset).futValid (r.seekTo offset).fut := by
  intro hvalid
  simp only [FileReader.seekTo] at hvalid ⊢
  split at hvalid
  · cases hvalid
  · exact h hvalid

theorem started_reader_react (checked : Bool) (h : Started r.futValid r.fut) (call : ReaderCall) :
    Started (r.react checked call).2.futValid (r.react checked call).2.fut ↔ ¬call.MeetsError := by
  cases call with
  | pollRead remaining answer =>
    by_cases hremaining : remaining = 0
    · simp [FileReader.react, FileReader.pollRead, hremaining, ReaderCall.MeetsError, h]
    · simp only [ReaderCall.MeetsError, ne_eq, hremaining, not_false_eq_true, true_and]
      exact started_pollRead checked h hremaining
  | startSeek position =>
    refine iff_of_true ?_ not_false
    cases position with
    | start offset => exact started_seekTo h offset
    | current d =>
      simp only [FileReader.react, FileReader.startSeek]
      cases checkedAddSigned r.offset d with
      | none => exact h
      | some offset => exact started_seekTo h offset
    | fromEnd d => exact h
  | pollComplete => exact iff_of_true h not_false

end Reader

section Writer
variable {checked : Bool} {w w' : FileWriter} {answer : Answer} {answers : List Answer}
  {count : UInt32} {req : Twrite}

theorem meetsError_empty (hbuffer : w.buffer = []) : ¬w.MeetsError checked answers := by
  intro h
  obtain ⟨counts, e, rest, -, hleft, -⟩ := h
  rw [hbuffer] at hleft
  exact Nat.not_lt_zero _ hleft

theorem meetsError_error {e : ByteString} (hbuffer : w.buffer ≠ [])
    (hanswer : writeReply answer = .error e) : w.MeetsError checked (answer :: answers) := by
  refine ⟨[], e, answers.map writeReply, by simp [hanswer], ?_, fun _ => w.offset.toNat_lt⟩
  exact List.length_pos_iff.mpr hbuffer

theorem meetsError_cons (hanswer : writeReply answer = .ok count) :
    w.MeetsError checked (answer :: answers) ↔
      ∃ counts e rest, answers.map writeReply = counts.map .ok ++ .error e :: rest ∧
        count.toNat + total counts < w.buffer.length ∧
        (checked → w.offset.toNat + (count.toNat + total counts) < 2 ^ 64) := by
  constructor
  · intro h
    obtain ⟨counts, e, rest, hmap, hleft, hfits⟩ := h
    rw [List.map_cons, hanswer] at hmap
    cases counts with
    | nil => cases hmap
    | cons count' counts =>
      obtain ⟨hcount, htail⟩ := List.cons.inj hmap
      obtain rfl := Except.ok.inj hcount
      exact ⟨counts, e, rest, htail, hleft, hfits⟩
  · intro h
    obtain ⟨counts, e, rest, hmap, hleft, hfits⟩ := h
    exact ⟨count :: counts, e, rest, by simp [hanswer, hmap], hleft, hfits⟩

theorem meetsError_overruns (hanswer : writeReply answer = .ok count)
    (hover : w.Overruns checked count) : ¬w.MeetsError checked (answer :: answers) := by
  rw [meetsError_cons hanswer]
  intro h
  obtain ⟨counts, e, rest, -, hleft, hfits⟩ := h
  obtain hlt | ⟨hchecked, hge⟩ := hover
  · omega
  · have hlt := hfits hchecked
    omega

theorem meetsError_advanced (hanswer : writeReply answer = .ok count)
    (hadvanced : Advanced checked (w.answered req count) count w') :
    w'.MeetsError checked answers ↔ w.MeetsError checked (answer :: answers) := by
  obtain ⟨hle, hfits, rfl⟩ := hadvanced
  change count.toNat ≤ w.buffer.length at hle
  change checked → w.offset.toNat + count.toNat < 2 ^ 64 at hfits
  have hlen : (w.buffer.drop count.toNat).length = w.buffer.length - count.toNat :=
    List.length_drop
  have hoffset (n : Nat) : (checked → (w.offset + .ofNat count.toNat).toNat + n < 2 ^ 64) ↔
      (checked → w.offset.toNat + (count.toNat + n) < 2 ^ 64) := by
    refine forall_congr' fun hchecked => ?_
    have hlt := hfits hchecked
    rw [UInt64.toNat_add, UInt64.toNat_ofNat']
    omega
  rw [meetsError_cons hanswer]
  simp only [FileWriter.MeetsError, FileWriter.answered, hlen, hoffset, Nat.lt_sub_iff_add_lt']

theorem started_writer_refresh (h : Started w.futValid w.fut) :
    ∃ req, w.refresh.fut.live = some req := by
  rw [FileWriter.refresh_fut]
  exact started_live h _

theorem FileWriter.Flushes.started {out : Polled ByteString Unit × FileWriter}
    (hflush : w.Flushes checked answers out) (h : Started w.futValid w.fut) :
    Started out.2.futValid out.2.fut ↔ ¬w.MeetsError checked answers := by
  induction hflush with
  | empty hbuffer => exact iff_of_true h (meetsError_empty hbuffer)
  | waits _ heq _ =>
    refine iff_of_true ?_ (by simp [FileWriter.MeetsError])
    obtain ⟨req, hreq⟩ := started_writer_refresh h
    cases turns_of_eq heq with
    | dead hdead _ => cases hdead.symm.trans hreq
    | @waits req _ _ => exact fun _ => ⟨req, rfl⟩
    | fails _ hanswer => cases hanswer
    | overruns _ _ hanswer => cases hanswer
    | goesOn _ hanswer => cases hanswer
  | stops hbuffer heq hready =>
    obtain ⟨req, hreq⟩ := started_writer_refresh h
    cases turns_of_eq heq with
    | dead hdead _ => cases hdead.symm.trans hreq
    | waits _ hnone => cases hnone
    | fails _ hanswer =>
      refine iff_of_false (fun hstarted => ?_) fun hnot => hnot ?_
      · obtain ⟨req', hfut⟩ := hstarted rfl
        cases hfut
      · exact meetsError_error hbuffer (Option.some.inj hanswer)
    | overruns buffer _ hanswer hover =>
      exact iff_of_true nofun (meetsError_overruns (Option.some.inj hanswer) hover)
    | goesOn => exact absurd rfl hready
  | goesOn _ heq _ ih =>
    cases turns_of_eq heq with
    | dead _ hres => obtain hres | hres := hres <;> cases hres
    | goesOn _ hanswer hadvanced =>
      rw [← meetsError_advanced (Option.some.inj hanswer) hadvanced]
      refine ih ?_
      rw [hadvanced.eq]
      exact nofun

theorem started_flush (checked : Bool) (h : Started w.futValid w.fut) (answers : List Answer) :
    Started (w.pollFlush checked answers).2.futValid (w.pollFlush checked answers).2.fut ↔
      ¬w.MeetsError checked answers :=
  (pollFlush_flushes checked w answers).started h

/-- What a call does to the flag its flush does, since the rest of it is done
only where the flush was. -/
theorem started_writer_react (checked : Bool) (h : Started w.futValid w.fut) (call : WriterCall) :
    Started (w.react checked call).2.futValid (w.react checked call).2.fut ↔
      ¬call.MeetsError checked w := by
  cases call with
  | pollWrite buf answers =>
    have hflush := started_flush checked h answers
    simp only [FileWriter.react, FileWriter.pollWrite, WriterCall.MeetsError]
    rw [← hflush]
    cases (w.pollFlush checked answers).1 <;> rfl
  | pollFlush answers => exact started_flush checked h answers
  | pollShutdown answers => exact started_flush checked h answers
  | pollComplete answers =>
    have hflush := started_flush checked h answers
    simp only [FileWriter.react, FileWriter.pollComplete, WriterCall.MeetsError]
    rw [← hflush]
    cases (w.pollFlush checked answers).1 <;> rfl
  | startSeek position =>
    refine iff_of_true ?_ not_false
    simp only [FileWriter.react]
    obtain hseek | ⟨offset, -, -, hseek⟩ := startSeek_cases w position
    · rwa [hseek]
    · rwa [hseek]

end Writer

/-- What comes of it: the next poll panics, whatever the answer to it would be. -/
theorem failed_read_panics {checked : Bool} {r r' : FileReader} {remaining remaining' : Nat}
    {answer : Option Answer} {e : ByteString}
    (h : r.pollRead checked remaining answer = (.failed e, r')) (hremaining' : remaining' ≠ 0)
    (answer' : Option Answer) : (r'.pollRead checked remaining' answer').1 = .panicked := by
  have hremaining : remaining ≠ 0 := by
    intro heq
    subst heq
    rw [FileReader.pollRead, if_pos rfl] at h
    cases h
  have hpoll := pollRead_polls checked r answer hremaining
  rw [h] at hpoll
  cases hpoll with
  | dead _ hres => obtain hres | hres := hres <;> cases hres
  | @fails req _ _ _ =>
    let r' : FileReader := { r.refresh remaining with fut := .completed req }
    have hrefresh : r'.refresh remaining' = r' := if_pos (refresh_valid r remaining)
    change (r'.pollRead checked remaining' answer').1 = .panicked
    simp only [FileReader.pollRead, if_neg hremaining', hrefresh, r', poll_completed,
      Polled.andThen]

theorem completed_flush_panics {w : FileWriter} {req : Twrite} (checked : Bool)
    (hbuffer : w.buffer ≠ []) (answers : List Answer) :
    ((w.polled (.completed req)).pollFlush checked answers).1 = .panicked := by
  have hrefresh : (w.polled (.completed req)).refresh = w.polled (.completed req) := if_pos rfl
  have hfut : (w.polled (.completed req)).fut = .completed req := rfl
  have hturn (answer : Option Answer) :
      ((w.polled (.completed req)).turn checked answer).1 = .panicked := by
    simp only [FileWriter.turn, hrefresh, hfut, poll_completed, Polled.andThen]
  have hbuffer' : (w.polled (.completed req)).buffer ≠ [] := hbuffer
  cases answers with
  | nil => rw [pollFlush_nil hbuffer', hturn]
  | cons answer answers =>
    rw [pollFlush_cons hbuffer', hturn]
    rfl

theorem failed_flush_panics {checked : Bool} {w w' : FileWriter} {answers : List Answer}
    {e : ByteString} (h : w.pollFlush checked answers = (.failed e, w')) (answers' : List Answer) :
    (w'.pollFlush checked answers').1 = .panicked := by
  have hflush := pollFlush_flushes checked w answers
  generalize w.pollFlush checked answers = out at hflush h
  induction hflush with
  | empty => cases h
  | waits hbuffer heq _ | stops hbuffer heq _ =>
    cases turns_of_eq (heq.trans h) with
    | dead _ hres => obtain hres | hres := hres <;> cases hres
    | fails => exact completed_flush_panics checked hbuffer answers'
  | goesOn _ _ _ ih => exact ih h

def FileReader.after (checked : Bool) (r : FileReader) (call : ReaderCall) : Option FileReader :=
  some (r.react checked call).2

def FileWriter.after (checked : Bool) (w : FileWriter) (call : WriterCall) : Option FileWriter :=
  some (w.react checked call).2

/-- While no call gets to an error, a future that is valid has been started and
has not completed; the first call that gets to one breaks this. -/
theorem fut_valid_started_iff (checked : Bool) (fid : UInt32) :
    (∀ r, Steps (FileReader.after checked) (fun _ call => ¬call.MeetsError) (.new fid) r →
      Started r.futValid r.fut ∧ ∀ call r', r.after checked call = some r' →
        (Started r'.futValid r'.fut ↔ ¬call.MeetsError)) ∧
    (∀ w, Steps (FileWriter.after checked) (fun w call => ¬call.MeetsError checked w) (.new fid) w →
      Started w.futValid w.fut ∧ ∀ call w', w.after checked call = some w' →
        (Started w'.futValid w'.fut ↔ ¬call.MeetsError checked w)) := by
  constructor
  · intro r h
    have hr : Started r.futValid r.fut := by
      refine h.invariant (I := fun r => Started r.futValid r.fut) nofun fun hr hok hstep => ?_
      obtain rfl := Option.some.inj hstep
      exact (started_reader_react checked hr _).mpr hok
    refine ⟨hr, fun call r' hstep => ?_⟩
    obtain rfl := Option.some.inj hstep
    exact started_reader_react checked hr call
  · intro w h
    have hw : Started w.futValid w.fut := by
      refine h.invariant (I := fun w => Started w.futValid w.fut) nofun fun hw hok hstep => ?_
      obtain rfl := Option.some.inj hstep
      exact (started_writer_react checked hw _).mpr hok
    refine ⟨hw, fun call w' hstep => ?_⟩
    obtain rfl := Option.some.inj hstep
    exact started_writer_react checked hw call

theorem fut_valid_started_iff_refused : ∃ r r',
    exec (FileReader.after true) (.new 1)
      [.pollRead 2 none, .pollRead 2 (some (.ok (.rread ⟨[7]⟩))), .startSeek (.start 5)] = some r ∧
    r.after true (.pollRead 1 (some (.ok (.rerror ⟨"fid not open"⟩)))) = some r' ∧
    Started r.futValid r.fut ∧ ¬Started r'.futValid r'.fut := by
  refine ⟨_, _, rfl, rfl, ?_⟩
  have hrun := (fut_valid_started_iff true 1).1 _ (.tail (.startSeek (.start 5))
    (.tail (.pollRead 2 (some (.ok (.rread ⟨[7]⟩))))
      (.tail (.pollRead 2 none) .refl (by simp [ReaderCall.MeetsError]) rfl)
      (by simp [ReaderCall.MeetsError, readReply]) rfl) not_false rfl)
  refine ⟨hrun.1, fun hstarted => ?_⟩
  exact (hrun.2 _ _ rfl).mp hstarted ⟨Nat.one_ne_zero, _, rfl⟩

theorem fut_valid_started_counterexample : ¬∀ (checked : Bool) (fid : UInt32) (r : FileReader),
    Reaches (FileReader.after checked) (.new fid) r → Started r.futValid r.fut := by
  intro h
  have hstarted := h true 1 _ (.tail (.pollRead 1 (some (.ok (.rerror ⟨"fid not open"⟩)))) .refl
    trivial rfl)
  obtain ⟨req, hfut⟩ := hstarted rfl
  cases hfut

end NineWire.Client
