import NineWire.Codec.Cut
import NineWire.Wire.Length

/-! A message cut short is always noticed, and as nothing else: whichever field
the cut falls into, the decoder runs out of bytes before it can object to
anything it has read. -/
namespace NineWire.Wire
open NineWire.Codec NineWire.LittleEndian

/-! Fields. -/

theorem trySplitTo_short {e : DeserializeError} {n : Nat} {buf : Bytes} (h : buf.length < n) :
    (trySplitTo e n).run buf = .error e := by
  rw [trySplitTo, run_bind_of_ok (StateT.run_get _)]
  simp only [h, if_true]
  rfl

theorem length_lt_of_cut {p bs : Bytes} (hp : p <+: bs) (hne : p ≠ bs) : p.length < bs.length := by
  obtain hlt | hge := Nat.lt_or_ge p.length bs.length
  · exact hlt
  · exact absurd (hp.eq_of_length_le hge) hne

theorem putSlice_cuts (e : DeserializeError) (bs : Bytes) (n : Nat) (h : bs.length = n) :
    Cuts (putSlice bs) (trySplitTo e n) e := by
  intro buf out hrun
  obtain rfl : buf ++ bs = out := (Prod.mk.inj (Except.ok.inj hrun)).2
  exact ⟨bs, rfl, fun p hp hne => trySplitTo_short (h ▸ length_lt_of_cut hp hne)⟩

section Fields
variable (tag : UInt16)

theorem u8_cuts (v : UInt8) : Cuts (putU8 v) (tryGetU8 (short tag)) (short tag) :=
  (putSlice_cuts _ [v] 1 rfl).last _

theorem u16_cuts (v : UInt16) : Cuts (putU16Le v) (tryGetU16Le (short tag)) (short tag) :=
  (putSlice_cuts _ _ 2 (by simp)).last _

theorem u32_cuts (v : UInt32) : Cuts (putU32Le v) (tryGetU32Le (short tag)) (short tag) :=
  (putSlice_cuts _ _ 4 (by simp)).last _

theorem u64_cuts (v : UInt64) : Cuts (putU64Le v) (tryGetU64Le (short tag)) (short tag) :=
  (putSlice_cuts _ _ 8 (by simp)).last _

theorem qid_cuts (qid : Qid) : Cuts (putQid qid) (yankQid tag) (short tag) :=
  (putSlice_cuts _ _ 13 (by simp [Qid.toBytes])).last _

/-- The length test of a string comes before the UTF-8 test. -/
theorem string_cuts (s : ByteString) : Cuts (putString s) (yankString tag) (short tag) := by
  refine Cuts.yields (u16TryFrom_yields _) fun len hlen => ?_
  refine (u16_cuts tag len).bind (u16_roundTrips _ len) ?_
  exact (putSlice_cuts _ _ _ hlen.symm).last _

/-- The length test of counted bytes comes before the end of the buffer. -/
theorem data_cuts (data : Bytes) : Cuts (putData data) (yankData tag) (short tag) := by
  refine Cuts.yields (u32TryFrom_yields _) fun len hlen => ?_
  refine (u32_cuts tag len).bind (u32_roundTrips _ len) ?_
  exact (putSlice_cuts _ _ _ hlen.symm).last _

/-- A cut behind the size field leaves fewer bytes than it announces, so the
body is never entered. -/
theorem sized_cuts {α : Type} {body : BytesMut Unit} {n : Nat} (r : Buf α)
    (h : Writes body n) : Cuts (putSized body) (yankSized tag r) (short tag) := by
  intro buf out hrun
  obtain ⟨mid, len, hbody, hlen, rfl⟩ := putSized_ok hrun
  obtain ⟨bs, -, rfl, -⟩ := h _ _ hbody
  have hn : len.toNat = bs.length := by
    simp only [hlen, List.length_append, toLe_length]
    omega
  refine ⟨toLe 2 len.toNat ++ bs, by simp, fun p hp hne => ?_⟩
  obtain ⟨hlow, hlowne⟩ | ⟨q, rfl, hq⟩ := prefix_append_cases hp
  · have hlt := length_lt_of_cut hlow hlowne
    rw [toLe_length] at hlt
    exact run_bind_of_error (run_bind_of_error (trySplitTo_short hlt))
  · have hlt := length_lt_of_cut hq fun hqb => hne (by rw [hqb])
    rw [yankSized, run_bind_of_ok (u16_read _ len q), run_bind_of_ok (StateT.run_get _)]
    simp only [hn, hlt, if_true]
    rfl

theorem many_cuts {α : Type} {w : α → BytesMut Unit} {r : Buf α} (as : List α) (n : Nat)
    (hr : ∀ a, RoundTrips (w a) r a) (h : ∀ a, Cuts (w a) r (short tag)) (hn : n = as.length) :
    Cuts (as.forM w) (readMany r n) (short tag) := by
  subst hn
  exact Cuts.many as hr h

end Fields

/-! The header. -/

def cutTag (p : Bytes) (tag : UInt16) : Option UInt16 := if p.length < 3 then none else some tag

theorem deserializeHeader_short {p : Bytes} (h : p.length < 3) :
    deserializeHeader p = .error (.tooShort none) := by
  cases p with
  | nil => rfl
  | cons v q =>
    have hq : q.length < 2 := by
      rw [List.length_cons] at h
      omega
    have hu16 : (tryGetU16Le (.tooShort none)).run q = .error (.tooShort none) :=
      run_bind_of_error (trySplitTo_short hq)
    rw [deserializeHeader, u8_read]
    simp only [hu16]

/-- A decoder that reads the header and then hands over to a body, which is
what `deserialize_t` and `deserialize_r` both are. -/
theorem deserialize_cut {α : Type} {body : TypeId → UInt16 → Buf α} {type_ : TypeId}
    {tag : UInt16} {w : BytesMut Unit} {b p : Bytes} (hw : Cuts w (body type_ tag) (short tag))
    (hb : freeze type_ tag w = .ok b) (hp : p <+: b) (hne : p ≠ b) :
    (do
      let (type_, tag, buf) ← deserializeHeader p
      let (m, _) ← (body type_ tag).run buf
      return (tag, m)) = .error (.tooShort (cutTag p tag)) := by
  obtain ⟨bs, rfl, hcut⟩ := hw _ _ (freeze_ok hb)
  obtain ⟨hlow, hlowne⟩ | ⟨q, rfl, hq⟩ := prefix_append_cases hp
  · have hlt := length_lt_of_cut hlow hlowne
    rw [header_length] at hlt
    rw [deserializeHeader_short hlt, cutTag, if_pos hlt]
    rfl
  · have hrun := hcut q hq fun hqb => hne (by rw [hqb])
    have hlong : ¬(header type_ tag ++ q).length < 3 := by
      rw [List.length_append, header_length]
      omega
    rw [deserializeHeader_header, cutTag, if_neg hlong]
    simp only [bind, Except.bind, hrun]
    rfl

/-! Messages. -/

section Messages
variable {tag : UInt16} {b p : Bytes}

theorem deserializeT_cut {type_ : TypeId} {w : BytesMut Unit}
    (hw : Cuts w (deserializeTBody type_ tag) (short tag)) (hb : freeze type_ tag w = .ok b)
    (hp : p <+: b) (hne : p ≠ b) : deserializeT p = .error (.tooShort (cutTag p tag)) :=
  deserialize_cut hw hb hp hne

theorem deserializeR_cut {type_ : TypeId} {w : BytesMut Unit}
    (hw : Cuts w (deserializeRBody type_ tag) (short tag)) (hb : freeze type_ tag w = .ok b)
    (hp : p <+: b) (hne : p ≠ b) : deserializeR p = .error (.tooShort (cutTag p tag)) :=
  deserialize_cut hw hb hp hne

theorem TMessage.deserialize_cut (m : TMessage) (h : m.serialize tag = .ok b) (hp : p <+: b)
    (hne : p ≠ b) : deserializeT p = .error (.tooShort (cutTag p tag)) := by
  cases m with
  | treads v =>
    refine deserializeT_cut (Cuts.last ?_ _) h hp hne
    refine (u32_cuts tag _).bind (u32_roundTrips _ _) ?_
    exact (u64_cuts tag _).bind (u64_roundTrips _ _) ((u32_cuts tag _).last _)
  | tversion v =>
    refine deserializeT_cut (Cuts.last ?_ _) h hp hne
    exact (u32_cuts tag _).bind (u32_roundTrips _ _) ((string_cuts tag _).last _)
  | tauth v =>
    refine deserializeT_cut (Cuts.last ?_ _) h hp hne
    refine (u32_cuts tag _).bind (u32_roundTrips _ _) ?_
    exact (string_cuts tag _).bind (string_roundTrips _ _) ((string_cuts tag _).last _)
  | tflush v => exact deserializeT_cut (((u16_cuts tag _).last _).last _) h hp hne
  | tattach v =>
    refine deserializeT_cut (Cuts.last ?_ _) h hp hne
    refine (u32_cuts tag _).bind (u32_roundTrips _ _) ?_
    refine (u32_cuts tag _).bind (u32_roundTrips _ _) ?_
    exact (string_cuts tag _).bind (string_roundTrips _ _) ((string_cuts tag _).last _)
  | twalk v =>
    refine deserializeT_cut (Cuts.last ?_ _) h hp hne
    refine (u32_cuts tag _).bind (u32_roundTrips _ _) ?_
    refine (u32_cuts tag _).bind (u32_roundTrips _ _) ?_
    refine Cuts.yields (u16TryFrom_yields _) fun nwname hn => ?_
    refine (u16_cuts tag _).bind (u16_roundTrips _ _) (Cuts.last ?_ _)
    exact many_cuts tag _ _ (string_roundTrips tag) (string_cuts tag) hn
  | topen v =>
    refine deserializeT_cut (Cuts.last ?_ _) h hp hne
    exact (u32_cuts tag _).bind (u32_roundTrips _ _) ((u8_cuts tag _).last _)
  | tcreate v =>
    refine deserializeT_cut (Cuts.last ?_ _) h hp hne
    refine (u32_cuts tag _).bind (u32_roundTrips _ _) ?_
    refine (string_cuts tag _).bind (string_roundTrips _ _) ?_
    exact (u32_cuts tag _).bind (u32_roundTrips _ _) ((u8_cuts tag _).last _)
  | tread v =>
    refine deserializeT_cut (Cuts.last ?_ _) h hp hne
    refine (u32_cuts tag _).bind (u32_roundTrips _ _) ?_
    exact (u64_cuts tag _).bind (u64_roundTrips _ _) ((u32_cuts tag _).last _)
  | twrite v =>
    refine deserializeT_cut (Cuts.last ?_ _) h hp hne
    refine (u32_cuts tag _).bind (u32_roundTrips _ _) ?_
    exact (u64_cuts tag _).bind (u64_roundTrips _ _) ((data_cuts tag _).last _)
  | tclunk v => exact deserializeT_cut (((u32_cuts tag _).last _).last _) h hp hne
  | tremove v => exact deserializeT_cut (((u32_cuts tag _).last _).last _) h hp hne
  | tstat v => exact deserializeT_cut (((u32_cuts tag _).last _).last _) h hp hne
  | twstat v =>
    refine deserializeT_cut (Cuts.last ?_ _) h hp hne
    refine (u32_cuts tag _).bind (u32_roundTrips _ _) ?_
    exact (sized_cuts tag _ (stat_writes _)).last _

theorem RMessage.deserialize_cut (m : RMessage) (hm : m.Is9P2000) (h : m.serialize tag = .ok b)
    (hp : p <+: b) (hne : p ≠ b) : deserializeR p = .error (.tooShort (cutTag p tag)) := by
  cases m with
  | rreads v => exact False.elim hm
  | rversion v =>
    refine deserializeR_cut (Cuts.last ?_ _) h hp hne
    exact (u32_cuts tag _).bind (u32_roundTrips _ _) ((string_cuts tag _).last _)
  | rauth v => exact deserializeR_cut (((qid_cuts tag _).last _).last _) h hp hne
  | rerror v => exact deserializeR_cut (((string_cuts tag _).last _).last _) h hp hne
  | rflush v => exact deserializeR_cut (Cuts.pure _ _) h hp hne
  | rattach v => exact deserializeR_cut (((qid_cuts tag _).last _).last _) h hp hne
  | rwalk v =>
    refine deserializeR_cut (Cuts.last ?_ _) h hp hne
    refine Cuts.yields (u16TryFrom_yields _) fun nwqid hn => ?_
    refine (u16_cuts tag _).bind (u16_roundTrips _ _) (Cuts.last ?_ _)
    exact many_cuts tag _ _ (qid_roundTrips tag) (qid_cuts tag) hn
  | ropen v =>
    refine deserializeR_cut (Cuts.last ?_ _) h hp hne
    exact (qid_cuts tag _).bind (qid_roundTrips _ _) ((u32_cuts tag _).last _)
  | rcreate v =>
    refine deserializeR_cut (Cuts.last ?_ _) h hp hne
    exact (qid_cuts tag _).bind (qid_roundTrips _ _) ((u32_cuts tag _).last _)
  | rread v => exact deserializeR_cut (((data_cuts tag _).last _).last _) h hp hne
  | rwrite v => exact deserializeR_cut (((u32_cuts tag _).last _).last _) h hp hne
  | rclunk v => exact deserializeR_cut (Cuts.pure _ _) h hp hne
  | rremove v => exact deserializeR_cut (Cuts.pure _ _) h hp hne
  | rstat v => exact deserializeR_cut (((sized_cuts tag _ (stat_writes _)).last _).last _) h hp hne
  | rwstat v => exact deserializeR_cut (Cuts.pure _ _) h hp hne

end Messages

/-- Every proper prefix of a serialized message is too short and nothing else,
with the tag named as soon as it is there. -/
theorem truncation_detected (tag : UInt16) (b p : Bytes) (hp : p <+: b) (hne : p ≠ b) :
    (∀ m : TMessage, m.serialize tag = .ok b →
      deserializeT p = .error (.tooShort (cutTag p tag))) ∧
    ∀ m : RMessage, m.Is9P2000 → m.serialize tag = .ok b →
      deserializeR p = .error (.tooShort (cutTag p tag)) :=
  ⟨fun m h => m.deserialize_cut h hp hne, fun m hm h => m.deserialize_cut hm h hp hne⟩

theorem truncation_detected_clunk :
    deserializeT [120, 7, 0, 1, 0, 0] = .error (.tooShort (some 7)) :=
  (truncation_detected 7 [120, 7, 0, 1, 0, 0, 0] [120, 7, 0, 1, 0, 0] ⟨[0], rfl⟩ (by decide)).1
    (.tclunk ⟨1⟩) (by decide)

end NineWire.Wire
