import NineWire.Codec.Inverse
import NineWire.Wire.Length

/-! Each field that is read is written back as the bytes it was read from, and
so is the header. -/
namespace NineWire.Wire
open NineWire.Codec NineWire.LittleEndian

/-! Fields. -/

theorem trySplitTo_ok {e : DeserializeError} {n : Nat} {buf bs rest : Bytes}
    (h : (trySplitTo e n).run buf = .ok (bs, rest)) : buf = bs ++ rest ∧ bs.length = n := by
  rw [trySplitTo, run_bind_of_ok (StateT.run_get _)] at h
  by_cases hn : buf.length < n
  · simp only [hn, if_true] at h
    cases h
  · simp only [hn, if_false] at h
    obtain ⟨rfl, rfl⟩ := Prod.mk.inj (Except.ok.inj h)
    exact ⟨(List.take_append_drop n buf).symm, List.length_take_of_le (Nat.le_of_not_lt hn)⟩

theorem putSlice_puts (bs : Bytes) : Puts (putSlice bs) bs := fun _ => rfl

theorem split_reads {α : Type} {w : α → BytesMut Unit} (e : DeserializeError) (n : Nat)
    (f : Bytes → α) (hw : ∀ bs, bs.length = n → Puts (w (f bs)) bs) :
    Reads (do return f (← trySplitTo e n)) w := by
  intro buf a rest h
  obtain ⟨bs, mid, hsplit, hdone⟩ := run_bind_ok.mp h
  obtain ⟨rfl, rfl⟩ := Prod.mk.inj (Except.ok.inj hdone)
  obtain ⟨rfl, hlen⟩ := trySplitTo_ok hsplit
  exact ⟨bs, rfl, hw bs hlen⟩

theorem toLe_ofLe_of_length {bs : Bytes} {n k : Nat} (h : bs.length = n) (hk : k = ofLe bs) :
    toLe n k = bs := by
  rw [hk, ← h, toLe_ofLe]

theorem ofLe_lt_of_length {bs : Bytes} {n : Nat} (h : bs.length = n) : ofLe bs < 256^n :=
  h ▸ ofLe_lt bs

theorem u8_reads (e : DeserializeError) : Reads (tryGetU8 e) putU8 := by
  refine split_reads e 1 _ fun bs hbs => ?_
  obtain ⟨v, rfl⟩ := List.length_eq_one_iff.mp hbs
  have hv : UInt8.ofNat (ofLe [v]) = v := by simp [ofLe]
  rw [hv]
  exact putSlice_puts [v]

theorem u16_reads (e : DeserializeError) : Reads (tryGetU16Le e) putU16Le := by
  refine split_reads e 2 _ fun bs hbs => ?_
  have hv := toLe_ofLe_of_length hbs (UInt16.toNat_ofNat_of_lt' (ofLe_lt_of_length hbs))
  rw [putU16Le, hv]
  exact putSlice_puts bs

theorem u32_reads (e : DeserializeError) : Reads (tryGetU32Le e) putU32Le := by
  refine split_reads e 4 _ fun bs hbs => ?_
  have hv := toLe_ofLe_of_length hbs (UInt32.toNat_ofNat_of_lt' (ofLe_lt_of_length hbs))
  rw [putU32Le, hv]
  exact putSlice_puts bs

theorem u64_reads (e : DeserializeError) : Reads (tryGetU64Le e) putU64Le := by
  refine split_reads e 8 _ fun bs hbs => ?_
  have hv := toLe_ofLe_of_length hbs (UInt64.toNat_ofNat_of_lt' (ofLe_lt_of_length hbs))
  rw [putU64Le, hv]
  exact putSlice_puts bs

theorem Qid.toBytes_ofBytes {bs : Bytes} (h : bs.length = 13) : (Qid.ofBytes bs).toBytes = bs := by
  have h1 : (bs.take 1).length = 1 := by simp [h]
  have h4 : ((bs.drop 1).take 4).length = 4 := by simp [h]
  have h8 : ((bs.drop 5).take 8).length = 8 := by simp [h]
  obtain ⟨v, hv⟩ := List.length_eq_one_iff.mp h1
  have hversion := toLe_ofLe_of_length h4 (UInt32.toNat_ofNat_of_lt' (ofLe_lt_of_length h4))
  have hpath := toLe_ofLe_of_length h8 (UInt64.toNat_ofNat_of_lt' (ofLe_lt_of_length h8))
  have htype : [UInt8.ofNat (ofLe (bs.take 1))] = bs.take 1 := by simp [hv, ofLe]
  have hlast : (bs.drop 5).take 8 = bs.drop 5 := List.take_of_length_le (by simp [h])
  simp only [Qid.toBytes, Qid.ofBytes, htype, hversion, hpath]
  rw [hlast, List.append_assoc]
  have hmid : (bs.drop 1).take 4 ++ bs.drop 5 = bs.drop 1 := by
    have hdrop : bs.drop 5 = (bs.drop 1).drop 4 := by rw [List.drop_drop]
    rw [hdrop, List.take_append_drop]
  rw [hmid, List.take_append_drop]

theorem u16_puts {v : UInt16} {bs : Bytes} (h : Puts (putU16Le v) bs) : bs = toLe 2 v.toNat :=
  (Prod.mk.inj (Except.ok.inj (h []))).2.symm

theorem u32_puts {v : UInt32} {bs : Bytes} (h : Puts (putU32Le v) bs) : bs = toLe 4 v.toNat :=
  (Prod.mk.inj (Except.ok.inj (h []))).2.symm

theorem qid_reads (tag : UInt16) : Reads (yankQid tag) putQid := by
  refine split_reads _ 13 _ fun bs hbs => ?_
  rw [putQid, Qid.toBytes_ofBytes hbs]
  exact putSlice_puts bs

theorem asBytes_fromUTF8 {bs : Bytes} {s : ByteString}
    (h : String.fromUTF8? ⟨bs.toArray⟩ = some s) : asBytes s = bs := by
  rw [String.fromUTF8?] at h
  split at h
  · obtain rfl := Option.some.inj h
    simp [asBytes, String.fromUTF8]
  · cases h

/-- A string is written as its length and its bytes. -/
theorem putString_puts {s : ByteString} (h : (asBytes s).length < 2^16) :
    Puts (putString s) (toLe 2 (asBytes s).length ++ asBytes s) := by
  intro buf
  rw [putString, run_bind_of_ok (u16TryFrom_run h buf)]
  have hlen : toLe 2 (UInt16.ofNat (asBytes s).length).toNat = toLe 2 (asBytes s).length := by
    rw [UInt16.toNat_ofNat_of_lt' h]
  rw [← hlen]
  exact (putSlice_puts _).bind (putSlice_puts _) buf

theorem string_reads (tag : UInt16) : Reads (yankString tag) putString := by
  intro buf s rest h
  obtain ⟨len, bs, mid, rfl, hlen, hbody⟩ := (u16_reads _).peel h
  obtain ⟨str, mid', hstr, hutf8⟩ := run_bind_ok.mp hbody
  obtain ⟨rfl, hn⟩ := trySplitTo_ok hstr
  cases hutf : String.fromUTF8? ⟨str.toArray⟩ with
  | none =>
    rw [hutf] at hutf8
    cases hutf8
  | some s' =>
    rw [hutf] at hutf8
    obtain ⟨rfl, rfl⟩ := Prod.mk.inj (Except.ok.inj hutf8)
    obtain rfl := asBytes_fromUTF8 hutf
    have hlt : (asBytes s').length < 2^16 := hn ▸ len.toNat_lt
    have hbs : toLe 2 (asBytes s').length = bs := by rw [hn, u16_puts hlen]
    refine ⟨bs ++ asBytes s', by simp, ?_⟩
    rw [← hbs]
    exact putString_puts hlt

/-- A count that was read is the length that is written. -/
theorem counted_puts {f : UInt16 → BytesMut Unit} {k : Nat} {n : UInt16} {bs : Bytes}
    (hk : k = n.toNat) (h : Puts (f n) bs) : Puts (u16TryFrom k >>= f) bs := by
  intro buf
  have hlt : k < 2^16 := hk ▸ n.toNat_lt
  rw [run_bind_of_ok (u16TryFrom_run hlt buf), hk, UInt16.ofNat_toNat]
  exact h buf

theorem ensureEmpty_ok {α : Type} {tag : UInt16} {a c : α} {buf rest : Bytes}
    (h : (do ensureEmpty tag; return a : Buf α).run buf = .ok (c, rest)) :
    buf = [] ∧ rest = [] ∧ c = a := by
  cases buf with
  | nil =>
    obtain ⟨rfl, rfl⟩ := Prod.mk.inj (Except.ok.inj h)
    exact ⟨rfl, rfl, rfl⟩
  | cons v buf => cases h

theorem yankData_ok {tag : UInt16} {buf data rest : Bytes}
    (h : (yankData tag).run buf = .ok (data, rest)) :
    Puts (putData data) buf ∧ ofLe (buf.take 4) = data.length := by
  obtain ⟨count, bs, mid, rfl, hcount, hbody⟩ := (u32_reads _).peel h
  obtain ⟨data', mid', hsplit, hend⟩ := run_bind_ok.mp hbody
  obtain ⟨rfl, hn⟩ := trySplitTo_ok hsplit
  obtain ⟨rfl, rfl, rfl⟩ := ensureEmpty_ok hend
  have hlt : data.length < 2^32 := hn ▸ count.toNat_lt
  have hcount' : UInt32.ofNat data.length = count := by rw [hn, UInt32.ofNat_toNat]
  refine ⟨fun out => ?_, ?_⟩
  · rw [putData, run_bind_of_ok (u32TryFrom_run hlt out), hcount', List.append_nil]
    exact hcount.bind (putSlice_puts data) out
  · rw [u32_puts hcount, List.take_left' (toLe_length 4 _), ofLe_toLe 4 _ count.toNat_lt, hn]

/-! The header and the dispatch on its type id. -/

theorem TypeId.toU8_of_tryFrom {v : UInt8} {ty : TypeId} (h : TypeId.tryFrom v = some ty) :
    ty.toU8 = v := by
  unfold TypeId.tryFrom at h
  split at h <;> cases h <;> rfl

theorem deserializeHeader_ok {b bs : Bytes} {type_ : TypeId} {tag : UInt16}
    (h : deserializeHeader b = .ok (type_, tag, bs)) : b = header type_ tag ++ bs := by
  unfold deserializeHeader at h
  cases hty : (tryGetU8 (.tooShort none)).run b with
  | error e =>
    rw [hty] at h
    cases h
  | ok r =>
    obtain ⟨v, mid⟩ := r
    rw [hty] at h
    obtain ⟨vs, rfl, hv⟩ := u8_reads _ _ _ _ hty
    obtain rfl : [v] = vs := (Prod.mk.inj (Except.ok.inj (hv []))).2
    cases htry : TypeId.tryFrom v with
    | none =>
      cases htag : (tryGetU16Le (.tooShort none)).run mid <;> simp [htry, htag] at h
    | some ty =>
      cases htag : (tryGetU16Le (.tooShort none)).run mid with
      | error e => simp [htry, htag] at h
      | ok r =>
        obtain ⟨t, rest⟩ := r
        obtain ⟨ts, rfl, ht⟩ := u16_reads _ _ _ _ htag
        obtain rfl := u16_puts ht
        simp only [htry, htag, Except.ok.injEq, Prod.mk.injEq] at h
        obtain ⟨rfl, rfl, rfl⟩ := h
        rw [header, TypeId.toU8_of_tryFrom htry]
        rfl

theorem deserialize_ok {α : Type} {body : TypeId → UInt16 → Buf α} {b : Bytes} {tag : UInt16}
    {m : α} (h : (do
      let (type_, tag, buf) ← deserializeHeader b
      let (m, _) ← (body type_ tag).run buf
      return (tag, m)) = Except.ok (tag, m)) :
    ∃ type_ bs rest, b = header type_ tag ++ bs ∧ (body type_ tag).run bs = .ok (m, rest) := by
  cases hhead : deserializeHeader b with
  | error e =>
    rw [hhead] at h
    cases h
  | ok r =>
    obtain ⟨type_, tag', bs⟩ := r
    rw [hhead] at h
    cases hbody : (body type_ tag').run bs with
    | error e =>
      simp only [bind, Except.bind, hbody] at h
      cases h
    | ok r =>
      obtain ⟨m', rest⟩ := r
      simp only [bind, Except.bind, hbody] at h
      obtain ⟨rfl, rfl⟩ := Prod.mk.inj (Except.ok.inj h)
      exact ⟨type_, bs, rest, deserializeHeader_ok hhead, hbody⟩

theorem freeze_puts {type_ : TypeId} {tag : UInt16} {w : BytesMut Unit} {bs : Bytes}
    (h : Puts w bs) : freeze type_ tag w = .ok (header type_ tag ++ bs) := by
  have hhead : StateT.run (do putU8 type_.toU8; putU16Le tag; w : BytesMut Unit) [] =
      w.run (header type_ tag) := rfl
  rw [freeze, hhead, h]
  rfl

theorem arm_ok {α γ : Type} {r : Buf α} {f : α → γ} {m : γ} {buf rest : Bytes}
    (h : (do return f (← r) : Buf γ).run buf = .ok (m, rest)) :
    ∃ v, m = f v ∧ r.run buf = .ok (v, rest) := by
  obtain ⟨v, mid, hr, hdone⟩ := run_bind_ok.mp h
  obtain ⟨rfl, rfl⟩ := Prod.mk.inj (Except.ok.inj hdone)
  exact ⟨v, rfl, hr⟩

end NineWire.Wire
