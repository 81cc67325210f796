import NineWire.Wire.Canonical

/-! The two size fields around a stat. The readers only ask that as many bytes
remain; whether a size says where its stat ends is up to the sender. -/
namespace NineWire.Wire
open NineWire.Codec NineWire.LittleEndian

/-- Where the fields of the stat whose size stands at `pos` end: the size
itself, 39 fixed bytes and four strings. -/
def statEnd (b : Bytes) (pos : Nat) : Nat :=
  stringEnd b (stringEnd b (stringEnd b (stringEnd b (pos + 41))))

def StatSizesReach (b : Bytes) (pos : Nat) : Prop :=
  pos + 2 + sizeAt b pos = b.length ∧ pos + 4 + sizeAt b (pos + 2) = b.length

section Fields
variable {tag : UInt16} {stat : Stat} {buf bs rest : Bytes}

theorem yankSized_ok {α : Type} {r : Buf α} {a : α}
    (h : (yankSized tag r).run buf = .ok (a, rest)) :
    ∃ size mid, buf = size ++ mid ∧ size.length = 2 ∧ ofLe size ≤ mid.length ∧
      r.run mid = .ok (a, rest) := by
  obtain ⟨len, size, mid, rfl, hsize, hbody⟩ := (u16_reads _).peel h
  have hlen : ofLe size = len.toNat := by rw [u16_puts hsize, ofLe_toLe 2 _ len.toNat_lt]
  rw [run_bind_of_ok (StateT.run_get _)] at hbody
  by_cases hlt : mid.length < len.toNat
  · simp only [hlt, if_true] at hbody
    cases hbody
  · simp only [hlt, if_false] at hbody
    exact ⟨size, mid, rfl, hsize.length (u16_writes len), hlen ▸ Nat.le_of_not_lt hlt, hbody⟩

theorem yankStatFields_ok (h : (yankStatFields tag).run buf = .ok (stat, rest)) :
    ∃ fields, buf = fields ++ rest ∧ Puts (putStatFields stat) fields ∧
      ∀ pre pos, List.length pre = pos + 2 →
        statEnd (pre ++ buf) pos = pos + 2 + fields.length := by
  obtain ⟨type_, b1, mid1, rfl, htype, h1⟩ := (u16_reads _).peel h
  obtain ⟨dev, b2, mid2, rfl, hdev, h2⟩ := (u32_reads _).peel h1
  obtain ⟨qid, b3, mid3, rfl, hqid, h3⟩ := (qid_reads _).peel h2
  obtain ⟨mode, b4, mid4, rfl, hmode, h4⟩ := (u32_reads _).peel h3
  obtain ⟨atime, b5, mid5, rfl, hatime, h5⟩ := (u32_reads _).peel h4
  obtain ⟨mtime, b6, mid6, rfl, hmtime, h6⟩ := (u32_reads _).peel h5
  obtain ⟨length, b7, mid7, rfl, hlength, h7⟩ := (u64_reads _).peel h6
  obtain ⟨name, b8, mid8, rfl, hname, h8⟩ := (string_reads _).peel h7
  obtain ⟨uid, b9, mid9, rfl, huid, h9⟩ := (string_reads _).peel h8
  obtain ⟨gid, b10, mid10, rfl, hgid, h10⟩ := (string_reads _).peel h9
  obtain ⟨muid, b11, mid11, rfl, hmuid, h11⟩ := (string_reads _).peel h10
  obtain ⟨rfl, rfl⟩ := Prod.mk.inj (Except.ok.inj h11)
  refine ⟨b1 ++ (b2 ++ (b3 ++ (b4 ++ (b5 ++ (b6 ++ (b7 ++ (b8 ++ (b9 ++ (b10 ++ b11))))))))),
    by simp, ?_, fun pre pos hpre => ?_⟩
  · exact htype.bind (hdev.bind (hqid.bind (hmode.bind (hatime.bind (hmtime.bind
      (hlength.bind (hname.bind (huid.bind (hgid.bind hmuid)))))))))
  · have hfixed : (b1 ++ b2 ++ b3 ++ b4 ++ b5 ++ b6 ++ b7).length = 39 := by
      simp only [List.length_append, htype.length (u16_writes _), hdev.length (u32_writes _),
        hqid.length (qid_writes _), hmode.length (u32_writes _), hatime.length (u32_writes _),
        hmtime.length (u32_writes _), hlength.length (u64_writes _)]
    have hpos : (pre ++ (b1 ++ b2 ++ b3 ++ b4 ++ b5 ++ b6 ++ b7)).length = pos + 41 := by
      rw [List.length_append, hpre, hfixed]
    have hpos' : (pre ++ (b1 ++ b2 ++ b3 ++ b4 ++ b5 ++ b6 ++ b7) ++ (b8 ++ b9)).length =
        pos + 41 + b8.length + b9.length := by
      rw [List.length_append, hpos, List.length_append]
      omega
    have hfirst := stringEnd_two _ (b10 ++ (b11 ++ mid11)) hname huid hpos
    have hsecond := stringEnd_two _ mid11 hgid hmuid hpos'
    simp only [List.append_assoc] at hfirst hsecond
    simp only [statEnd]
    rw [hfirst, hsecond]
    simp only [List.length_append] at hfixed ⊢
    omega

/-- Both sizes are rewritten from the fields they cover. -/
theorem sized_stat_iff {outer inner fields : Bytes} (hfields : Puts (putStatFields stat) fields)
    (hout : outer.length = 2) (hin : inner.length = 2) :
    Puts (putSized (putStat stat)) (outer ++ (inner ++ fields)) ↔
      ofLe outer = 2 + fields.length ∧ ofLe inner = fields.length := by
  have hlen := hfields.length (statFields_writes stat)
  have hle := Stat.le_len stat
  have hsized (hlt : stat.len < 2^16) : Puts (putSized (putStat stat))
      (toLe 2 (2 + fields.length) ++ (toLe 2 fields.length ++ fields)) := by
    have hstat : Puts (putStat stat) (toLe 2 fields.length ++ fields) := fun out =>
      putSized_run out (by omega) (hfields _)
    have hcount : (toLe 2 fields.length ++ fields).length = 2 + fields.length := by simp
    have hrun := fun out => putSized_run out (by omega) (hstat (out ++ toLe 2 0))
    rwa [hcount] at hrun
  constructor
  · intro h
    have hlt : stat.len < 2^16 := sized_shows (stat_writes stat) _ _ _ (h [])
    have heq := h.unique (hsized hlt)
    obtain ⟨rfl, heq'⟩ := List.append_inj heq (by simp [hout])
    obtain ⟨rfl, -⟩ := List.append_inj heq' (by simp [hin])
    exact ⟨ofLe_toLe 2 _ (by omega), ofLe_toLe 2 _ (by omega)⟩
  · intro hcase
    obtain ⟨houter, hinner⟩ := hcase
    have hlt := ofLe_lt_of_length hout
    have hbytes := hsized (by omega)
    rwa [toLe_ofLe_of_length hout houter.symm, toLe_ofLe_of_length hin hinner.symm] at hbytes

theorem yankStat_ok (h : (yankStat tag).run buf = .ok (stat, rest)) :
    ∃ size fields, buf = size ++ (fields ++ rest) ∧ size.length = 2 ∧
      ofLe size ≤ (fields ++ rest).length ∧ Puts (putStatFields stat) fields ∧
      statEnd buf 0 = 2 + fields.length := by
  obtain ⟨size, mid, rfl, hsize, hle, hbody⟩ := yankSized_ok h
  obtain ⟨fields, rfl, hfields, hend⟩ := yankStatFields_ok hbody
  have hpos := hend size 0 hsize
  exact ⟨size, fields, rfl, hsize, hle, hfields, by rw [hpos, Nat.zero_add]⟩

/-- The size of a stat is what is consumed exactly when the fields end there. -/
theorem yankStat_consumes_iff (h : (yankStat tag).run buf = .ok (stat, rest)) :
    rest = buf.drop (2 + sizeAt buf 0) ↔ 2 + sizeAt buf 0 = statEnd buf 0 := by
  obtain ⟨size, fields, rfl, hsize, hle, -, hend⟩ := yankStat_ok h
  have hn : sizeAt (size ++ (fields ++ rest)) 0 = ofLe size :=
    sizeAt_append [] (fields ++ rest) hsize
  rw [hend, hn]
  simp only [List.length_append] at hle
  constructor
  · intro hrest
    have hlen := congrArg List.length hrest
    simp only [List.length_drop, List.length_append, hsize] at hlen
    omega
  · intro heq
    have hdrop : (size ++ (fields ++ rest)).drop (2 + ofLe size) = rest := by
      rw [← List.append_assoc]
      exact List.drop_left' (by rw [List.length_append, hsize, heq])
    exact hdrop.symm

theorem stat_message_iff {w : BytesMut Unit} {pre outer inner fields : Bytes} {pos : Nat}
    {type_ : TypeId} (hpre : (header type_ tag ++ pre).length = pos)
    (hout : outer.length = 2) (hin : inner.length = 2)
    (hw : Puts w (pre ++ (outer ++ (inner ++ fields))) ↔
      ofLe outer = 2 + fields.length ∧ ofLe inner = fields.length)
    (hn : ∃ n, Writes w n) {b : Bytes}
    (hb : b = header type_ tag ++ (pre ++ (outer ++ (inner ++ fields)))) :
    sizeAt b pos = 2 + sizeAt b (pos + 2) ∧ freeze type_ tag w = .ok b ↔ StatSizesReach b pos := by
  have hpre' : (header type_ tag ++ pre ++ outer).length = pos + 2 := by
    rw [List.length_append, hpre, hout]
  have houter : sizeAt b pos = ofLe outer := by
    rw [hb, ← List.append_assoc, ← hpre]
    exact sizeAt_append (header type_ tag ++ pre) (inner ++ fields) hout
  have hinner : sizeAt b (pos + 2) = ofLe inner := by
    rw [hb, ← List.append_assoc, ← List.append_assoc, ← hpre']
    exact sizeAt_append (header type_ tag ++ pre ++ outer) fields hin
  have hlen : b.length = pos + 4 + fields.length := by
    rw [hb, ← List.append_assoc, List.length_append, hpre]
    simp only [List.length_append, hout, hin]
    omega
  have hser : freeze type_ tag w = .ok b ↔
      ofLe outer = 2 + fields.length ∧ ofLe inner = fields.length := by
    obtain ⟨n, hn⟩ := hn
    rw [← hw, hb]
    exact ⟨fun h => hn.puts (freeze_ok h), freeze_puts⟩
  rw [hser, StatSizesReach, houter, hinner, hlen]
  omega

theorem statMessage_ok (h : (yankSized tag (yankStat tag)).run buf = .ok (stat, [])) :
    ∃ outer inner fields, buf = outer ++ (inner ++ fields) ∧ outer.length = 2 ∧
      inner.length = 2 ∧ Puts (putStatFields stat) fields := by
  obtain ⟨outer, mid, rfl, hout, -, hbody⟩ := yankSized_ok h
  obtain ⟨inner, fields, rfl, hin, -, hfields, -⟩ := yankStat_ok hbody
  exact ⟨outer, inner, fields, by simp, hout, hin, hfields⟩

end Fields

section Messages
variable {b : Bytes} {tag : UInt16}

theorem Twstat.sizes_iff {m : Twstat} (h : deserializeT b = .ok (tag, .twstat m)) :
    sizeAt b 7 = 2 + sizeAt b 9 ∧ m.serialize tag = .ok b ↔ StatSizesReach b 7 := by
  obtain ⟨type_, bs, rest, rfl, hbody⟩ := deserialize_ok h
  cases type_ with
  | twstat =>
    obtain ⟨v, hv, hrun⟩ := arm_ok hbody
    obtain rfl := TMessage.twstat.inj hv
    obtain ⟨fid, b1, mid1, rfl, hfid, h1⟩ := (u32_reads _).peel hrun
    obtain ⟨stat, mid2, hstat, h2⟩ := run_bind_ok.mp h1
    obtain ⟨rfl, rfl, rfl⟩ := ensureEmpty_ok h2
    obtain ⟨outer, inner, fields, rfl, hout, hin, hfields⟩ := statMessage_ok hstat
    have hpos : (header .twstat tag ++ b1).length = 7 := by
      simp [header_length, u32_puts_length hfid]
    have hsized := sized_writes (stat_writes stat)
    refine stat_message_iff hpos hout hin ?_ ⟨_, (u32_writes fid).bind hsized⟩ rfl
    rw [← sized_stat_iff hfields hout hin]
    exact ⟨fun hw => hsized.puts (hfid.tail hw), fun hw => hfid.bind hw⟩
  | tversion | tflush | twalk | topen | tcreate | tread | twrite | tclunk | tremove | tstat | tauth
  | tattach | treads =>
    obtain ⟨v, hv, -⟩ := arm_ok hbody
    cases hv
  | _ => cases hbody

theorem Rstat.sizes_iff {m : Rstat} (h : deserializeR b = .ok (tag, .rstat m)) :
    sizeAt b 3 = 2 + sizeAt b 5 ∧ m.serialize tag = .ok b ↔ StatSizesReach b 3 := by
  obtain ⟨type_, bs, rest, rfl, hbody⟩ := deserialize_ok h
  cases type_ with
  | rstat =>
    obtain ⟨v, hv, hrun⟩ := arm_ok hbody
    obtain rfl := RMessage.rstat.inj hv
    obtain ⟨stat, mid1, hstat, h1⟩ := run_bind_ok.mp hrun
    obtain ⟨rfl, rfl, rfl⟩ := ensureEmpty_ok h1
    obtain ⟨outer, inner, fields, rfl, hout, hin, hfields⟩ := statMessage_ok hstat
    have hpos : (header .rstat tag ++ []).length = 3 := by simp [header_length]
    exact stat_message_iff hpos hout hin (sized_stat_iff hfields hout hin)
      ⟨_, sized_writes (stat_writes stat)⟩ rfl
  | rversion | rauth | rerror | rflush | rattach | rwalk | ropen | rcreate | rread | rwrite | rclunk
  | rremove | rwstat =>
    obtain ⟨v, hv, -⟩ := arm_ok hbody
    cases hv
  | _ => cases hbody

end Messages

/-- The stat sizes bind exactly when the sender chose them to: the size of a
stat when its four strings end there, the two sizes of a message when both
reach to its end. -/
theorem stat_sizes_bind_iff (b : Bytes) (tag : UInt16) :
    (∀ stat rest, (yankStat tag).run b = .ok (stat, rest) →
      (rest = b.drop (2 + sizeAt b 0) ↔ 2 + sizeAt b 0 = statEnd b 0)) ∧
    (∀ m : Twstat, deserializeT b = .ok (tag, .twstat m) →
      (sizeAt b 7 = 2 + sizeAt b 9 ∧ m.serialize tag = .ok b ↔ StatSizesReach b 7)) ∧
    ∀ m : Rstat, deserializeR b = .ok (tag, .rstat m) →
      (sizeAt b 3 = 2 + sizeAt b 5 ∧ m.serialize tag = .ok b ↔ StatSizesReach b 3) :=
  ⟨fun _ _ h => yankStat_consumes_iff h, fun _ h => Twstat.sizes_iff h, fun _ h => Rstat.sizes_iff h⟩

/-- A stat of 49 zero bytes says that it has none behind its size. -/
theorem stat_sizes_counterexample :
    ¬∀ (b : Bytes) (tag : UInt16),
      (∀ stat rest, (yankStat tag).run b = .ok (stat, rest) → rest = b.drop (2 + sizeAt b 0)) ∧
      (∀ m : Twstat, deserializeT b = .ok (tag, .twstat m) →
        sizeAt b 7 = 2 + sizeAt b 9 ∧ m.serialize tag = .ok b) ∧
      ∀ m : Rstat, deserializeR b = .ok (tag, .rstat m) →
        sizeAt b 3 = 2 + sizeAt b 5 ∧ m.serialize tag = .ok b := by
  intro h
  obtain ⟨hyank, -⟩ := h (List.replicate 49 0) 0
  have hrest := hyank ⟨0, 0, ⟨0, 0, 0⟩, 0, 0, 0, 0, "", "", "", ""⟩ [] (by rfl)
  exact absurd hrest (by decide)

end NineWire.Wire
