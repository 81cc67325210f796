import NineWire.Wire.Inverse

/-! What the decoders accept is what the encoders produce. The two requests
whose decoder does not look for the end of the buffer are the exceptions. -/
namespace NineWire.Wire
open NineWire.Codec NineWire.LittleEndian

def sizeAt (b : Bytes) (pos : Nat) : Nat := ofLe ((b.drop pos).take 2)

def stringEnd (b : Bytes) (pos : Nat) : Nat := pos + 2 + sizeAt b pos

theorem sizeAt_append {size : Bytes} (pre rest : Bytes) (h : size.length = 2) :
    sizeAt (pre ++ (size ++ rest)) pre.length = ofLe size := by
  rw [sizeAt, List.drop_left, ← h, List.take_left]

theorem putString_ok {s : ByteString} {bs : Bytes} (h : Puts (putString s) bs) :
    bs = toLe 2 (asBytes s).length ++ asBytes s ∧ (asBytes s).length < 2^16 := by
  have hlt := string_shows s _ _ _ (h [])
  exact ⟨h.unique (putString_puts hlt), hlt⟩

theorem stringEnd_puts {s : ByteString} {b bs : Bytes} {pos : Nat} (pre rest : Bytes)
    (h : Puts (putString s) bs) (hb : b = pre ++ (bs ++ rest)) (hpos : pre.length = pos) :
    stringEnd b pos = pos + bs.length := by
  obtain ⟨rfl, hlt⟩ := putString_ok h
  rw [hb, ← hpos, stringEnd, List.append_assoc, sizeAt_append pre _ (toLe_length 2 _),
    ofLe_toLe 2 _ hlt, List.length_append, toLe_length, Nat.add_assoc]

theorem stringEnd_two {s s' : ByteString} {bs cs : Bytes} {pos : Nat} (pre rest : Bytes)
    (h : Puts (putString s) bs) (h' : Puts (putString s') cs) (hpos : pre.length = pos) :
    stringEnd (pre ++ (bs ++ (cs ++ rest))) (stringEnd (pre ++ (bs ++ (cs ++ rest))) pos) =
      pos + bs.length + cs.length := by
  have hpos' : (pre ++ bs).length = pos + bs.length := by rw [List.length_append, hpos]
  rw [stringEnd_puts pre (cs ++ rest) h rfl hpos]
  exact stringEnd_puts (pre ++ bs) rest h' (List.append_assoc _ _ _).symm hpos'

theorem u32_puts_length {v : UInt32} {bs : Bytes} (h : Puts (putU32Le v) bs) : bs.length = 4 :=
  h.length (u32_writes v)

/-! Requests, each read from the bytes behind its header. -/

section Requests
variable {tag : UInt16} {bs rest : Bytes}

theorem Tversion.serialize_deserialize {m : Tversion}
    (h : (Tversion.deserialize tag).run bs = .ok (m, rest)) :
    m.serialize tag = .ok (header .tversion tag ++ bs) := by
  obtain ⟨msize, b1, mid1, rfl, hmsize, h1⟩ := (u32_reads _).peel h
  obtain ⟨version, b2, mid2, rfl, hversion, h2⟩ := (string_reads _).peel h1
  obtain ⟨rfl, rfl, rfl⟩ := ensureEmpty_ok h2
  rw [List.append_nil]
  exact freeze_puts (hmsize.bind hversion)

theorem Tflush.serialize_deserialize {m : Tflush}
    (h : (Tflush.deserialize tag).run bs = .ok (m, rest)) :
    m.serialize tag = .ok (header .tflush tag ++ bs) := by
  obtain ⟨oldtag, b1, mid1, rfl, holdtag, h1⟩ := (u16_reads _).peel h
  obtain ⟨rfl, rfl, rfl⟩ := ensureEmpty_ok h1
  rw [List.append_nil]
  exact freeze_puts holdtag

/-- The name vector is written back by as many writes as its count says. -/
theorem Twalk.serialize_deserialize {m : Twalk}
    (h : (Twalk.deserialize tag).run bs = .ok (m, rest)) :
    m.serialize tag = .ok (header .twalk tag ++ bs) := by
  obtain ⟨fid, b1, mid1, rfl, hfid, h1⟩ := (u32_reads _).peel h
  obtain ⟨newfid, b2, mid2, rfl, hnewfid, h2⟩ := (u32_reads _).peel h1
  obtain ⟨nwname, b3, mid3, rfl, hnwname, h3⟩ := (u16_reads _).peel h2
  obtain ⟨wname, mid4, hmany, h4⟩ := run_bind_ok.mp h3
  obtain ⟨hlen, b4, rfl, hwname⟩ := (string_reads tag).many _ hmany
  obtain ⟨rfl, rfl, rfl⟩ := ensureEmpty_ok h4
  rw [List.append_nil]
  exact freeze_puts (hfid.bind (hnewfid.bind (counted_puts hlen (hnwname.bind hwname))))

theorem Topen.serialize_deserialize {m : Topen}
    (h : (Topen.deserialize tag).run bs = .ok (m, rest)) :
    m.serialize tag = .ok (header .topen tag ++ bs) := by
  obtain ⟨fid, b1, mid1, rfl, hfid, h1⟩ := (u32_reads _).peel h
  obtain ⟨mode, b2, mid2, rfl, hmode, h2⟩ := (u8_reads _).peel h1
  obtain ⟨rfl, rfl, rfl⟩ := ensureEmpty_ok h2
  rw [List.append_nil]
  exact freeze_puts (hfid.bind hmode)

theorem Tcreate.serialize_deserialize {m : Tcreate}
    (h : (Tcreate.deserialize tag).run bs = .ok (m, rest)) :
    m.serialize tag = .ok (header .tcreate tag ++ bs) := by
  obtain ⟨fid, b1, mid1, rfl, hfid, h1⟩ := (u32_reads _).peel h
  obtain ⟨name, b2, mid2, rfl, hname, h2⟩ := (string_reads _).peel h1
  obtain ⟨perm, b3, mid3, rfl, hperm, h3⟩ := (u32_reads _).peel h2
  obtain ⟨mode, b4, mid4, rfl, hmode, h4⟩ := (u8_reads _).peel h3
  obtain ⟨rfl, rfl, rfl⟩ := ensureEmpty_ok h4
  rw [List.append_nil]
  exact freeze_puts (hfid.bind (hname.bind (hperm.bind hmode)))

theorem Tread.serialize_deserialize {m : Tread}
    (h : (Tread.deserialize tag).run bs = .ok (m, rest)) :
    m.serialize tag = .ok (header .tread tag ++ bs) := by
  obtain ⟨fid, b1, mid1, rfl, hfid, h1⟩ := (u32_reads _).peel h
  obtain ⟨offset, b2, mid2, rfl, hoffset, h2⟩ := (u64_reads _).peel h1
  obtain ⟨count, b3, mid3, rfl, hcount, h3⟩ := (u32_reads _).peel h2
  obtain ⟨rfl, rfl, rfl⟩ := ensureEmpty_ok h3
  rw [List.append_nil]
  exact freeze_puts (hfid.bind (hoffset.bind hcount))

theorem Twrite.serialize_deserialize {m : Twrite}
    (h : (Twrite.deserialize tag).run bs = .ok (m, rest)) :
    m.serialize tag = .ok (header .twrite tag ++ bs) := by
  obtain ⟨fid, b1, mid1, rfl, hfid, h1⟩ := (u32_reads _).peel h
  obtain ⟨offset, b2, mid2, rfl, hoffset, h2⟩ := (u64_reads _).peel h1
  obtain ⟨data, mid3, hdata, h3⟩ := run_bind_ok.mp h2
  obtain ⟨rfl, rfl⟩ := Prod.mk.inj (Except.ok.inj h3)
  exact freeze_puts (hfid.bind (hoffset.bind (yankData_ok hdata).1))

theorem Tclunk.serialize_deserialize {m : Tclunk}
    (h : (Tclunk.deserialize tag).run bs = .ok (m, rest)) :
    m.serialize tag = .ok (header .tclunk tag ++ bs) := by
  obtain ⟨fid, b1, mid1, rfl, hfid, h1⟩ := (u32_reads _).peel h
  obtain ⟨rfl, rfl, rfl⟩ := ensureEmpty_ok h1
  rw [List.append_nil]
  exact freeze_puts hfid

theorem Tremove.serialize_deserialize {m : Tremove}
    (h : (Tremove.deserialize tag).run bs = .ok (m, rest)) :
    m.serialize tag = .ok (header .tremove tag ++ bs) := by
  obtain ⟨fid, b1, mid1, rfl, hfid, h1⟩ := (u32_reads _).peel h
  obtain ⟨rfl, rfl, rfl⟩ := ensureEmpty_ok h1
  rw [List.append_nil]
  exact freeze_puts hfid

theorem Tstat.serialize_deserialize {m : Tstat}
    (h : (Tstat.deserialize tag).run bs = .ok (m, rest)) :
    m.serialize tag = .ok (header .tstat tag ++ bs) := by
  obtain ⟨fid, b1, mid1, rfl, hfid, h1⟩ := (u32_reads _).peel h
  obtain ⟨rfl, rfl, rfl⟩ := ensureEmpty_ok h1
  rw [List.append_nil]
  exact freeze_puts hfid

theorem Tauth.serialize_deserialize {m : Tauth}
    (h : (Tauth.deserialize tag).run bs = .ok (m, rest)) :
    ∃ fields, bs = fields ++ rest ∧ m.serialize tag = .ok (header .tauth tag ++ fields) ∧
      stringEnd (header .tauth tag ++ bs)
        (stringEnd (header .tauth tag ++ bs) 7) = 3 + fields.length := by
  obtain ⟨afid, b1, mid1, rfl, hafid, h1⟩ := (u32_reads _).peel h
  obtain ⟨uname, b2, mid2, rfl, huname, h2⟩ := (string_reads _).peel h1
  obtain ⟨aname, b3, mid3, rfl, haname, h3⟩ := (string_reads _).peel h2
  obtain ⟨rfl, rfl⟩ := Prod.mk.inj (Except.ok.inj h3)
  refine ⟨b1 ++ (b2 ++ b3), by simp, freeze_puts (hafid.bind (huname.bind haname)), ?_⟩
  have h4 := u32_puts_length hafid
  have hpos : (header .tauth tag ++ b1).length = 7 := by simp [header_length, h4]
  have hend := stringEnd_two _ mid3 huname haname hpos
  simp only [List.append_assoc] at hend
  rw [hend]
  simp only [List.length_append, h4]
  omega

theorem Tattach.serialize_deserialize {m : Tattach}
    (h : (Tattach.deserialize tag).run bs = .ok (m, rest)) :
    ∃ fields, bs = fields ++ rest ∧ m.serialize tag = .ok (header .tattach tag ++ fields) ∧
      stringEnd (header .tattach tag ++ bs)
        (stringEnd (header .tattach tag ++ bs) 11) = 3 + fields.length := by
  obtain ⟨fid, b0, mid0, rfl, hfid, h0⟩ := (u32_reads _).peel h
  obtain ⟨afid, b1, mid1, rfl, hafid, h1⟩ := (u32_reads _).peel h0
  obtain ⟨uname, b2, mid2, rfl, huname, h2⟩ := (string_reads _).peel h1
  obtain ⟨aname, b3, mid3, rfl, haname, h3⟩ := (string_reads _).peel h2
  obtain ⟨rfl, rfl⟩ := Prod.mk.inj (Except.ok.inj h3)
  refine ⟨b0 ++ (b1 ++ (b2 ++ b3)), by simp,
    freeze_puts (hfid.bind (hafid.bind (huname.bind haname))), ?_⟩
  have h4 := u32_puts_length hfid
  have h4' := u32_puts_length hafid
  have hpos : (header .tattach tag ++ b0 ++ b1).length = 11 := by simp [header_length, h4, h4']
  have hend := stringEnd_two _ mid3 huname haname hpos
  simp only [List.append_assoc] at hend
  rw [hend]
  simp only [List.length_append, h4, h4']
  omega

end Requests

def NothingTrails (b : Bytes) : Prop :=
  match b.head?.bind TypeId.tryFrom with
  | some .tauth => stringEnd b (stringEnd b 7) = b.length
  | some .tattach => stringEnd b (stringEnd b 11) = b.length
  | _ => True

theorem head_header (type_ : TypeId) (tag : UInt16) (bs : Bytes) :
    (header type_ tag ++ bs).head?.bind TypeId.tryFrom = some type_ :=
  TypeId.tryFrom_toU8 type_

theorem trailing_iff {type_ : TypeId} {tag : UInt16} {m : TMessage} {fields rest : Bytes} {n : Nat}
    (h : m.serialize tag = .ok (header type_ tag ++ fields)) (hn : n = 3 + fields.length) :
    m.serialize tag = .ok (header type_ tag ++ (fields ++ rest)) ↔
      n = (header type_ tag ++ (fields ++ rest)).length := by
  rw [h, hn]
  constructor
  · intro heq
    have hrest := List.append_cancel_left (Except.ok.inj heq)
    rw [← hrest, List.length_append, header_length]
  · intro hlen
    simp only [List.length_append, header_length] at hlen
    have hrest : rest = [] := List.length_eq_zero_iff.mp (by omega)
    rw [hrest, List.append_nil]

/-- A decoded request is its own encoding exactly when nothing trails it. Only
`Tauth` and `Tattach` can be trailed: every other decoder checks. -/
theorem request_canonical_iff (b : Bytes) (tag : UInt16) (m : TMessage) (hm : m.Is9P2000)
    (hstat : ∀ v, m ≠ .twstat v) (h : deserializeT b = .ok (tag, m)) :
    m.serialize tag = .ok b ↔ NothingTrails b := by
  obtain ⟨type_, bs, rest, rfl, hbody⟩ := deserialize_ok h
  rw [NothingTrails, head_header]
  cases type_ with
  | tauth =>
    obtain ⟨v, rfl, hrun⟩ := arm_ok hbody
    obtain ⟨fields, rfl, hser, hend⟩ := v.serialize_deserialize hrun
    exact trailing_iff hser hend
  | tattach =>
    obtain ⟨v, rfl, hrun⟩ := arm_ok hbody
    obtain ⟨fields, rfl, hser, hend⟩ := v.serialize_deserialize hrun
    exact trailing_iff hser hend
  | treads =>
    obtain ⟨v, rfl, -⟩ := arm_ok hbody
    exact False.elim hm
  | twstat =>
    obtain ⟨v, rfl, -⟩ := arm_ok hbody
    exact absurd rfl (hstat v)
  | tversion =>
    obtain ⟨v, rfl, hrun⟩ := arm_ok hbody
    exact iff_true_intro (v.serialize_deserialize hrun)
  | tflush =>
    obtain ⟨v, rfl, hrun⟩ := arm_ok hbody
    exact iff_true_intro (v.serialize_deserialize hrun)
  | twalk =>
    obtain ⟨v, rfl, hrun⟩ := arm_ok hbody
    exact iff_true_intro (v.serialize_deserialize hrun)
  | topen =>
    obtain ⟨v, rfl, hrun⟩ := arm_ok hbody
    exact iff_true_intro (v.serialize_deserialize hrun)
  | tcreate =>
    obtain ⟨v, rfl, hrun⟩ := arm_ok hbody
    exact iff_true_intro (v.serialize_deserialize hrun)
  | tread =>
    obtain ⟨v, rfl, hrun⟩ := arm_ok hbody
    exact iff_true_intro (v.serialize_deserialize hrun)
  | twrite =>
    obtain ⟨v, rfl, hrun⟩ := arm_ok hbody
    exact iff_true_intro (v.serialize_deserialize hrun)
  | tclunk =>
    obtain ⟨v, rfl, hrun⟩ := arm_ok hbody
    exact iff_true_intro (v.serialize_deserialize hrun)
  | tremove =>
    obtain ⟨v, rfl, hrun⟩ := arm_ok hbody
    exact iff_true_intro (v.serialize_deserialize hrun)
  | tstat =>
    obtain ⟨v, rfl, hrun⟩ := arm_ok hbody
    exact iff_true_intro (v.serialize_deserialize hrun)
  | _ => cases hbody

theorem request_canonical_iff_auth :
    (TMessage.tauth ⟨1, "", ""⟩).serialize 7 = .ok [102, 7, 0, 1, 0, 0, 0, 0, 0, 0, 0] ↔
      NothingTrails [102, 7, 0, 1, 0, 0, 0, 0, 0, 0, 0] :=
  request_canonical_iff _ 7 (.tauth ⟨1, "", ""⟩) trivial (fun _ => TMessage.noConfusion) (by decide)

/-- A `Tauth` with one byte behind its last string is accepted. -/
theorem request_canonical_counterexample :
    ¬∀ (b : Bytes) (tag : UInt16) (m : TMessage), m.Is9P2000 → (∀ v, m ≠ .twstat v) →
      deserializeT b = .ok (tag, m) → m.serialize tag = .ok b := by
  intro h
  have hser := h [102, 7, 0, 1, 0, 0, 0, 0, 0, 0, 0, 9] 7 (.tauth ⟨1, "", ""⟩) trivial
    (fun _ => TMessage.noConfusion) (by decide)
  exact absurd hser (by decide)

/-! Replies. -/

section Replies
variable {tag : UInt16} {bs rest : Bytes}

theorem Rversion.serialize_deserialize {m : Rversion}
    (h : (Rversion.deserialize tag).run bs = .ok (m, rest)) :
    m.serialize tag = .ok (header .rversion tag ++ bs) := by
  obtain ⟨msize, b1, mid1, rfl, hmsize, h1⟩ := (u32_reads _).peel h
  obtain ⟨version, b2, mid2, rfl, hversion, h2⟩ := (string_reads _).peel h1
  obtain ⟨rfl, rfl, rfl⟩ := ensureEmpty_ok h2
  rw [List.append_nil]
  exact freeze_puts (hmsize.bind hversion)

theorem Rauth.serialize_deserialize {m : Rauth}
    (h : (Rauth.deserialize tag).run bs = .ok (m, rest)) :
    m.serialize tag = .ok (header .rauth tag ++ bs) := by
  obtain ⟨aqid, b1, mid1, rfl, haqid, h1⟩ := (qid_reads _).peel h
  obtain ⟨rfl, rfl, rfl⟩ := ensureEmpty_ok h1
  rw [List.append_nil]
  exact freeze_puts haqid

theorem Rerror.serialize_deserialize {m : Rerror}
    (h : (Rerror.deserialize tag).run bs = .ok (m, rest)) :
    m.serialize tag = .ok (header .rerror tag ++ bs) := by
  obtain ⟨ename, b1, mid1, rfl, hename, h1⟩ := (string_reads _).peel h
  obtain ⟨rfl, rfl, rfl⟩ := ensureEmpty_ok h1
  rw [List.append_nil]
  exact freeze_puts hename

theorem Rattach.serialize_deserialize {m : Rattach}
    (h : (Rattach.deserialize tag).run bs = .ok (m, rest)) :
    m.serialize tag = .ok (header .rattach tag ++ bs) := by
  obtain ⟨qid, b1, mid1, rfl, hqid, h1⟩ := (qid_reads _).peel h
  obtain ⟨rfl, rfl, rfl⟩ := ensureEmpty_ok h1
  rw [List.append_nil]
  exact freeze_puts hqid

/-- The declared qid count and the qids present agree, or the reads run short
or the end of the buffer is not reached. -/
theorem Rwalk.serialize_deserialize {m : Rwalk}
    (h : (Rwalk.deserialize tag).run bs = .ok (m, rest)) :
    m.serialize tag = .ok (header .rwalk tag ++ bs) ∧ ofLe (bs.take 2) = m.wqid.length := by
  obtain ⟨nwqid, b1, mid1, rfl, hnwqid, h1⟩ := (u16_reads _).peel h
  obtain ⟨wqid, mid2, hmany, h2⟩ := run_bind_ok.mp h1
  obtain ⟨hlen, b2, rfl, hwqid⟩ := (qid_reads tag).many _ hmany
  obtain ⟨rfl, rfl, rfl⟩ := ensureEmpty_ok h2
  rw [List.append_nil]
  refine ⟨freeze_puts (counted_puts hlen (hnwqid.bind hwqid)), ?_⟩
  rw [u16_puts hnwqid, List.take_left' (toLe_length 2 _), ofLe_toLe 2 _ nwqid.toNat_lt, hlen]

theorem Ropen.serialize_deserialize {m : Ropen}
    (h : (Ropen.deserialize tag).run bs = .ok (m, rest)) :
    m.serialize tag = .ok (header .ropen tag ++ bs) := by
  obtain ⟨qid, b1, mid1, rfl, hqid, h1⟩ := (qid_reads _).peel h
  obtain ⟨iounit, b2, mid2, rfl, hiounit, h2⟩ := (u32_reads _).peel h1
  obtain ⟨rfl, rfl, rfl⟩ := ensureEmpty_ok h2
  rw [List.append_nil]
  exact freeze_puts (hqid.bind hiounit)

theorem Rcreate.serialize_deserialize {m : Rcreate}
    (h : (Rcreate.deserialize tag).run bs = .ok (m, rest)) :
    m.serialize tag = .ok (header .rcreate tag ++ bs) := by
  obtain ⟨qid, b1, mid1, rfl, hqid, h1⟩ := (qid_reads _).peel h
  obtain ⟨iounit, b2, mid2, rfl, hiounit, h2⟩ := (u32_reads _).peel h1
  obtain ⟨rfl, rfl, rfl⟩ := ensureEmpty_ok h2
  rw [List.append_nil]
  exact freeze_puts (hqid.bind hiounit)

theorem Rread.serialize_deserialize {m : Rread}
    (h : (Rread.deserialize tag).run bs = .ok (m, rest)) :
    m.serialize tag = .ok (header .rread tag ++ bs) ∧ ofLe (bs.take 4) = m.data.length := by
  obtain ⟨data, mid1, hdata, h1⟩ := run_bind_ok.mp h
  obtain ⟨rfl, rfl⟩ := Prod.mk.inj (Except.ok.inj h1)
  obtain ⟨hputs, hlen⟩ := yankData_ok hdata
  exact ⟨freeze_puts hputs, hlen⟩

theorem Rwrite.serialize_deserialize {m : Rwrite}
    (h : (Rwrite.deserialize tag).run bs = .ok (m, rest)) :
    m.serialize tag = .ok (header .rwrite tag ++ bs) := by
  obtain ⟨count, b1, mid1, rfl, hcount, h1⟩ := (u32_reads _).peel h
  obtain ⟨rfl, rfl, rfl⟩ := ensureEmpty_ok h1
  rw [List.append_nil]
  exact freeze_puts hcount

theorem noFields_puts {α : Type} {a c : α}
    (h : (do ensureEmpty tag; return a : Buf α).run bs = .ok (c, rest)) (type_ : TypeId) :
    freeze type_ tag (pure ()) = .ok (header type_ tag ++ bs) := by
  obtain ⟨rfl, -, -⟩ := ensureEmpty_ok h
  exact freeze_puts Puts.pure

end Replies

def CountsExact (b : Bytes) : RMessage → Prop
  | .rwalk m => ofLe ((b.drop 3).take 2) = m.wqid.length ∧ b.length = 5 + 13*m.wqid.length
  | .rread m => ofLe ((b.drop 3).take 4) = m.data.length ∧ b.length = 7 + m.data.length
  | _ => True

/-- A decoded reply is its own encoding, and the counts it carries are right. -/
theorem reply_canonical (b : Bytes) (tag : UInt16) (m : RMessage) (hstat : ∀ v, m ≠ .rstat v)
    (h : deserializeR b = .ok (tag, m)) : m.serialize tag = .ok b ∧ CountsExact b m := by
  obtain ⟨type_, bs, rest, rfl, hbody⟩ := deserialize_ok h
  cases type_ with
  | rstat =>
    obtain ⟨v, rfl, -⟩ := arm_ok hbody
    exact absurd rfl (hstat v)
  | rversion =>
    obtain ⟨v, rfl, hrun⟩ := arm_ok hbody
    exact ⟨v.serialize_deserialize hrun, trivial⟩
  | rauth =>
    obtain ⟨v, rfl, hrun⟩ := arm_ok hbody
    exact ⟨v.serialize_deserialize hrun, trivial⟩
  | rerror =>
    obtain ⟨v, rfl, hrun⟩ := arm_ok hbody
    exact ⟨v.serialize_deserialize hrun, trivial⟩
  | rattach =>
    obtain ⟨v, rfl, hrun⟩ := arm_ok hbody
    exact ⟨v.serialize_deserialize hrun, trivial⟩
  | rwalk =>
    obtain ⟨v, rfl, hrun⟩ := arm_ok hbody
    obtain ⟨hser, hcount⟩ := v.serialize_deserialize hrun
    exact ⟨hser, hcount, (RMessage.rwalk v).serialize_length hser⟩
  | ropen =>
    obtain ⟨v, rfl, hrun⟩ := arm_ok hbody
    exact ⟨v.serialize_deserialize hrun, trivial⟩
  | rcreate =>
    obtain ⟨v, rfl, hrun⟩ := arm_ok hbody
    exact ⟨v.serialize_deserialize hrun, trivial⟩
  | rread =>
    obtain ⟨v, rfl, hrun⟩ := arm_ok hbody
    obtain ⟨hser, hcount⟩ := v.serialize_deserialize hrun
    exact ⟨hser, hcount, (RMessage.rread v).serialize_length hser⟩
  | rwrite =>
    obtain ⟨v, rfl, hrun⟩ := arm_ok hbody
    exact ⟨v.serialize_deserialize hrun, trivial⟩
  | rflush =>
    obtain ⟨v, rfl, hrun⟩ := arm_ok hbody
    exact ⟨noFields_puts hrun _, trivial⟩
  | rclunk =>
    obtain ⟨v, rfl, hrun⟩ := arm_ok hbody
    exact ⟨noFields_puts hrun _, trivial⟩
  | rremove =>
    obtain ⟨v, rfl, hrun⟩ := arm_ok hbody
    exact ⟨noFields_puts hrun _, trivial⟩
  | rwstat =>
    obtain ⟨v, rfl, hrun⟩ := arm_ok hbody
    exact ⟨noFields_puts hrun _, trivial⟩
  | _ => cases hbody

theorem reply_canonical_read :
    (RMessage.rread ⟨[10, 20]⟩).serialize 7 = .ok [117, 7, 0, 2, 0, 0, 0, 10, 20] ∧
      CountsExact [117, 7, 0, 2, 0, 0, 0, 10, 20] (.rread ⟨[10, 20]⟩) :=
  reply_canonical _ 7 (.rread ⟨[10, 20]⟩) (fun _ => RMessage.noConfusion) (by decide)

end NineWire.Wire
