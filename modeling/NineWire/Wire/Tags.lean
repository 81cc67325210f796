import NineWire.Codec.Failure
import NineWire.Wire.Truncation

/-! The tag of a request that does not decode: every exit of `deserialize_t`
behind the header names it. -/
namespace NineWire.Wire
open NineWire.Codec NineWire.LittleEndian

def Names {α : Type} (tag : UInt16) (r : Buf α) : Prop := Raises r fun e => e.tag = some tag

section Readers
variable {α : Type} {tag : UInt16}

theorem ite_names {c : Prop} [Decidable c] {r r' : Buf α} (h : Names tag r) (h' : Names tag r') :
    Names tag (if c then r else r') := by
  split
  · exact h
  · exact h'

theorem trySplitTo_names (n : Nat) : Names tag (trySplitTo (short tag) n) := by
  refine Raises.get.bind fun buf => ?_
  exact ite_names (Raises.throw rfl) ((Raises.set _).bind fun _ => Raises.pure _)

theorem u8_names : Names tag (tryGetU8 (short tag)) :=
  (trySplitTo_names 1).bind fun _ => Raises.pure _

theorem u16_names : Names tag (tryGetU16Le (short tag)) :=
  (trySplitTo_names 2).bind fun _ => Raises.pure _

theorem u32_names : Names tag (tryGetU32Le (short tag)) :=
  (trySplitTo_names 4).bind fun _ => Raises.pure _

theorem u64_names : Names tag (tryGetU64Le (short tag)) :=
  (trySplitTo_names 8).bind fun _ => Raises.pure _

theorem qid_names : Names tag (yankQid tag) := (trySplitTo_names 13).bind fun _ => Raises.pure _

theorem string_names : Names tag (yankString tag) := by
  refine u16_names.bind fun len => (trySplitTo_names len.toNat).bind fun str => ?_
  cases String.fromUTF8? ⟨str.toArray⟩ with
  | some str => exact Raises.pure str
  | none => exact Raises.throw rfl

theorem sized_names {body : Buf α} (h : Names tag body) : Names tag (yankSized tag body) := by
  refine u16_names.bind fun len => Raises.get.bind fun buf => ?_
  exact ite_names (Raises.throw rfl) h

theorem stat_names : Names tag (yankStat tag) := by
  refine sized_names (u16_names.bind fun _ => u32_names.bind fun _ => qid_names.bind fun _ => ?_)
  refine u32_names.bind fun _ => u32_names.bind fun _ => u32_names.bind fun _ => ?_
  refine u64_names.bind fun _ => string_names.bind fun _ => string_names.bind fun _ => ?_
  exact string_names.bind fun _ => string_names.bind fun _ => Raises.pure _

theorem ensureEmpty_names : Names tag (ensureEmpty tag) :=
  Raises.get.bind fun _ => ite_names (Raises.throw rfl) (Raises.pure _)

theorem end_names (a : α) : Names tag (ensureEmpty tag >>= fun _ => pure a) :=
  ensureEmpty_names.bind fun _ => Raises.pure a

theorem data_names : Names tag (yankData tag) :=
  u32_names.bind fun count => (trySplitTo_names count.toNat).bind fun _ => end_names _

theorem deserializeTBody_names (type_ : TypeId) (tag : UInt16) :
    Names tag (deserializeTBody type_ tag) := by
  have arm {γ : Type} {r : Buf γ} {f : γ → TMessage} (h : Names tag r) :
      Names tag (r >>= fun m => pure (f m)) := h.bind fun _ => Raises.pure _
  cases type_ with
  | treads =>
    exact arm (u32_names.bind fun _ => u64_names.bind fun _ => u32_names.bind fun _ => end_names _)
  | tversion => exact arm (u32_names.bind fun _ => string_names.bind fun _ => end_names _)
  | tflush => exact arm (u16_names.bind fun _ => end_names _)
  | twalk =>
    refine arm (u32_names.bind fun _ => u32_names.bind fun _ => u16_names.bind fun n => ?_)
    exact (string_names.many n.toNat).bind fun _ => end_names _
  | tread =>
    exact arm (u32_names.bind fun _ => u64_names.bind fun _ => u32_names.bind fun _ => end_names _)
  | twrite =>
    exact arm (u32_names.bind fun _ => u64_names.bind fun _ => data_names.bind fun _ =>
      Raises.pure _)
  | tclunk => exact arm (u32_names.bind fun _ => end_names _)
  | tremove => exact arm (u32_names.bind fun _ => end_names _)
  | tauth =>
    exact arm (u32_names.bind fun _ => string_names.bind fun _ => string_names.bind fun _ =>
      Raises.pure _)
  | tattach =>
    exact arm (u32_names.bind fun _ => u32_names.bind fun _ => string_names.bind fun _ =>
      string_names.bind fun _ => Raises.pure _)
  | topen => exact arm (u32_names.bind fun _ => u8_names.bind fun _ => end_names _)
  | tcreate =>
    exact arm (u32_names.bind fun _ => string_names.bind fun _ => u32_names.bind fun _ =>
      u8_names.bind fun _ => end_names _)
  | tstat => exact arm (u32_names.bind fun _ => end_names _)
  | twstat =>
    exact arm (u32_names.bind fun _ => (sized_names stat_names).bind fun _ => end_names _)
  | _ => exact Raises.throw rfl

end Readers

def tagAt (b : Bytes) : UInt16 := UInt16.ofNat (ofLe ((b.drop 1).take 2))

def Attributed (b : Bytes) (tag : UInt16) : Prop :=
  (∃ m, deserializeT b = .ok (tag, m)) ∨ ∃ e, deserializeT b = .error e ∧ e.tag = some tag

theorem deserializeT_attributed {b : Bytes} (h : 3 ≤ b.length) : Attributed b (tagAt b) := by
  obtain ⟨v, lo, hi, bs, rfl⟩ : ∃ v lo hi bs, b = v :: lo :: hi :: bs := by
    match b, h with
    | v :: lo :: hi :: bs, _ => exact ⟨v, lo, hi, bs, rfl⟩
  have htype : (tryGetU8 (.tooShort none)).run (v :: lo :: hi :: bs) = .ok (v, lo :: hi :: bs) :=
    u8_read _ v (lo :: hi :: bs)
  have htag : (tryGetU16Le (.tooShort none)).run (lo :: hi :: bs) =
      .ok (tagAt (v :: lo :: hi :: bs), bs) := rfl
  generalize tagAt (v :: lo :: hi :: bs) = tag at htag ⊢
  cases htry : TypeId.tryFrom v with
  | none =>
    have hhead : deserializeHeader (v :: lo :: hi :: bs) = .error (.unknownType v tag) := by
      rw [deserializeHeader, htype]
      simp only [htry, htag]
    exact .inr ⟨.unknownType v tag, by rw [deserializeT, hhead]; rfl, rfl⟩
  | some type_ =>
    have hhead : deserializeHeader (v :: lo :: hi :: bs) = .ok (type_, tag, bs) := by
      rw [deserializeHeader, htype]
      simp only [htry, htag]
    rw [Attributed, deserializeT, hhead]
    simp only [bind, Except.bind]
    cases hbody : (deserializeTBody type_ tag).run bs with
    | ok r => exact .inl ⟨r.1, rfl⟩
    | error e => exact .inr ⟨e, rfl, deserializeTBody_names type_ tag bs e hbody⟩

theorem deserializeT_untagged {b : Bytes} (h : b.length < 3) :
    ∃ e, deserializeT b = .error e ∧ e.tag = none := by
  refine ⟨.tooShort none, ?_, rfl⟩
  rw [deserializeT, deserializeHeader_short h]
  rfl

end NineWire.Wire
