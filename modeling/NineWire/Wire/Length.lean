import NineWire.Wire.RoundTrip

/-! How long a serialized reply is. Each length is a formula in the fields; the
strings and lists that vary are the only summands that do. -/
namespace NineWire.Wire
open NineWire.Codec NineWire.LittleEndian

theorem putSlice_writes (bs : Bytes) : Writes (putSlice bs) bs.length := by
  intro buf out h
  obtain rfl : buf ++ bs = out := (Prod.mk.inj (Except.ok.inj h)).2
  exact ⟨bs, rfl, rfl, fun buf' => rfl⟩

theorem u16_writes (v : UInt16) : Writes (putU16Le v) 2 := putSlice_writes (toLe 2 v.toNat)

theorem u32_writes (v : UInt32) : Writes (putU32Le v) 4 := putSlice_writes (toLe 4 v.toNat)

theorem u64_writes (v : UInt64) : Writes (putU64Le v) 8 := putSlice_writes (toLe 8 v.toNat)

theorem qid_writes (qid : Qid) : Writes (putQid qid) 13 := putSlice_writes qid.toBytes

theorem string_writes (s : ByteString) : Writes (putString s) (2 + (asBytes s).length) :=
  Writes.yields (u16TryFrom_yields _) fun len _ => (u16_writes len).bind (putSlice_writes _)

theorem data_writes (data : Bytes) : Writes (putData data) (4 + data.length) :=
  Writes.yields (u32TryFrom_yields _) fun len _ => (u32_writes len).bind (putSlice_writes _)

theorem u16TryFrom_run {n : Nat} (h : n < 2^16) (buf : Bytes) :
    (u16TryFrom n).run buf = .ok (UInt16.ofNat n, buf) := by
  rw [u16TryFrom, if_pos h]
  rfl

theorem u32TryFrom_run {n : Nat} (h : n < 2^32) (buf : Bytes) :
    (u32TryFrom n).run buf = .ok (UInt32.ofNat n, buf) := by
  rw [u32TryFrom, if_pos h]
  rfl

theorem putSized_run {body : BytesMut Unit} {bs : Bytes} (buf : Bytes) (hlen : bs.length < 2^16)
    (h : body.run (buf ++ toLe 2 0) = .ok ((), buf ++ toLe 2 0 ++ bs)) :
    (putSized body).run buf = .ok ((), buf ++ (toLe 2 bs.length ++ bs)) := by
  have hdiff : (buf ++ toLe 2 0 ++ bs).length - (buf ++ toLe 2 0).length = bs.length := by
    rw [List.length_append, Nat.add_sub_cancel_left]
  have hcopy : (copyFromSlice buf.length (toLe 2 bs.length)).run (buf ++ toLe 2 0 ++ bs) =
      .ok ((), buf ++ (toLe 2 bs.length ++ bs)) := by
    have hdrop : (buf ++ toLe 2 0 ++ bs).drop (buf.length + 2) = bs := List.drop_left' (by simp)
    have htake : (buf ++ toLe 2 0 ++ bs).take buf.length = buf := by simp [List.append_assoc]
    have hrun : (copyFromSlice buf.length (toLe 2 bs.length)).run (buf ++ toLe 2 0 ++ bs) =
        .ok ((), (buf ++ toLe 2 0 ++ bs).take buf.length ++ toLe 2 bs.length ++
          (buf ++ toLe 2 0 ++ bs).drop (buf.length + (toLe 2 bs.length).length)) := rfl
    rw [hrun, toLe_length, hdrop, htake, List.append_assoc]
  rw [putSized, run_bind_of_ok (bufLen_run _), run_bind_of_ok (putU16Le_run _ _),
    run_bind_of_ok (bufLen_run _)]
  have hstart : (buf ++ toLe 2 (0 : UInt16).toNat) = buf ++ toLe 2 0 := rfl
  rw [hstart, run_bind_of_ok h, run_bind_of_ok (bufLen_run _), hdiff, run_bind_of_ok (u16TryFrom_run hlen _),
    UInt16.toNat_ofNat_of_lt' hlen]
  exact hcopy

theorem sized_writes {body : BytesMut Unit} {n : Nat} (h : Writes body n) :
    Writes (putSized body) (2 + n) := by
  intro buf out hrun
  obtain ⟨mid, len, hbody, hlen, rfl⟩ := putSized_ok hrun
  obtain ⟨bs, rfl, rfl, hbs⟩ := h _ _ hbody
  have hn : len.toNat = bs.length := by
    simp only [hlen, List.length_append, toLe_length]
    omega
  have hlt : bs.length < 2^16 := hn ▸ len.toNat_lt
  refine ⟨toLe 2 bs.length ++ bs, by simp [Nat.add_comm], by simp [hn], fun buf' => ?_⟩
  exact putSized_run buf' hlt (hbs _)

def Stat.len (stat : Stat) : Nat :=
  49 + (asBytes stat.name).length + (asBytes stat.uid).length + (asBytes stat.gid).length +
    (asBytes stat.muid).length

theorem Stat.le_len (stat : Stat) : 49 ≤ stat.len := by
  simp only [Stat.len]
  omega

theorem statFields_writes (stat : Stat) : Writes (putStatFields stat) (stat.len - 2) := by
  have hlen : stat.len - 2 = 2 + (4 + (13 + (4 + (4 + (4 + (8 + ((2 + (asBytes stat.name).length) +
      ((2 + (asBytes stat.uid).length) + ((2 + (asBytes stat.gid).length) +
      (2 + (asBytes stat.muid).length)))))))))) := by
    simp only [Stat.len]
    omega
  rw [hlen]
  refine (u16_writes _).bind ?_
  refine (u32_writes _).bind ?_
  refine (qid_writes _).bind ?_
  refine (u32_writes _).bind ?_
  refine (u32_writes _).bind ?_
  refine (u32_writes _).bind ?_
  refine (u64_writes _).bind ?_
  refine (string_writes _).bind ?_
  refine (string_writes _).bind ?_
  exact (string_writes _).bind (string_writes _)

theorem stat_writes (stat : Stat) : Writes (putStat stat) stat.len := by
  have hsized := sized_writes (statFields_writes stat)
  have hlen : 2 + (stat.len - 2) = stat.len := by
    simp only [Stat.len]
    omega
  rwa [hlen] at hsized

/-! When the fields of variable length fit. -/

theorem putSlice_total (bs : Bytes) : Total (putSlice bs) := fun _ => ⟨_, rfl⟩

theorem u16TryFrom_total {n : Nat} (h : n < 2^16) (buf : Bytes) :
    ∃ out, (u16TryFrom n).run buf = .ok (UInt16.ofNat n, out) := ⟨buf, u16TryFrom_run h buf⟩

theorem u32TryFrom_total {n : Nat} (h : n < 2^32) (buf : Bytes) :
    ∃ out, (u32TryFrom n).run buf = .ok (UInt32.ofNat n, out) := ⟨buf, u32TryFrom_run h buf⟩

theorem data_total {data : Bytes} (h : data.length < 2^32) : Total (putData data) :=
  Total.bind (u32TryFrom_total h) (Total.bind (putSlice_total _) (putSlice_total _))

theorem u16TryFrom_shows (n : Nat) : Shows (u16TryFrom n) (n < 2^16) := by
  intro buf v out h
  obtain ⟨-, hn⟩ := u16TryFrom_yields n buf v out h
  exact hn ▸ v.toNat_lt

theorem u32TryFrom_shows (n : Nat) : Shows (u32TryFrom n) (n < 2^32) := by
  intro buf v out h
  obtain ⟨-, hn⟩ := u32TryFrom_yields n buf v out h
  exact hn ▸ v.toNat_lt

theorem string_shows (s : ByteString) : Shows (putString s) ((asBytes s).length < 2^16) :=
  (u16TryFrom_shows _).head

theorem data_shows (data : Bytes) : Shows (putData data) (data.length < 2^32) :=
  (u32TryFrom_shows _).head

theorem string_total {s : ByteString} (h : (asBytes s).length < 2^16) : Total (putString s) :=
  Total.bind (u16TryFrom_total h) (Total.bind (putSlice_total _) (putSlice_total _))

theorem qids_total {qids : List Qid} (h : qids.length < 2^16) :
    Total (do let n ← u16TryFrom qids.length; putU16Le n; qids.forM putQid) := by
  have hqids : Total (qids.forM putQid) := Total.many qids fun qid _ => putSlice_total qid.toBytes
  exact Total.bind (u16TryFrom_total h) (Total.bind (putSlice_total _) hqids)

theorem sized_total {body : BytesMut Unit} {n : Nat} (hbody : Total body) (h : Writes body n)
    (hn : n < 2^16) : Total (putSized body) := by
  intro buf
  obtain ⟨out, hout⟩ := hbody (buf ++ toLe 2 0)
  obtain ⟨bs, rfl, rfl, -⟩ := h _ _ hout
  exact ⟨_, putSized_run buf hn hout⟩

theorem sized_shows {body : BytesMut Unit} {n : Nat} (h : Writes body n) :
    Shows (putSized body) (n < 2^16) := by
  intro buf _ out hrun
  obtain ⟨mid, len, hbody, hlen, -⟩ := putSized_ok hrun
  obtain ⟨bs, rfl, rfl, -⟩ := h _ _ hbody
  have hlt := len.toNat_lt
  simp only [hlen, List.length_append, toLe_length] at hlt
  omega

theorem stat_total {stat : Stat} (h : stat.len - 2 < 2^16) : Total (putStat stat) := by
  refine sized_total ?_ (statFields_writes stat) h
  simp only [Stat.len] at h
  refine Total.bind (putSlice_total _) ?_
  refine Total.bind (putSlice_total _) ?_
  refine Total.bind (putSlice_total _) ?_
  refine Total.bind (putSlice_total _) ?_
  refine Total.bind (putSlice_total _) ?_
  refine Total.bind (putSlice_total _) ?_
  refine Total.bind (putSlice_total _) ?_
  refine Total.bind (string_total (by omega)) ?_
  refine Total.bind (string_total (by omega)) ?_
  exact Total.bind (string_total (by omega)) (string_total (by omega))

theorem stat_shows (stat : Stat) : Shows (putStat stat) (stat.len - 2 < 2^16) :=
  sized_shows (statFields_writes stat)

def RMessage.len : RMessage → Nat
  | .rversion v => 9 + (asBytes v.version).length
  | .rauth _ => 16
  | .rerror v => 5 + (asBytes v.ename).length
  | .rflush _ => 3
  | .rattach _ => 16
  | .rwalk v => 5 + 13*v.wqid.length
  | .ropen _ => 20
  | .rcreate _ => 20
  | .rread v => 7 + v.data.length
  | .rreads v => 15 + v.data.length
  | .rwrite _ => 7
  | .rclunk _ => 3
  | .rremove _ => 3
  | .rstat v => 5 + v.stat.len
  | .rwstat _ => 3

theorem freeze_length {type_ : TypeId} {tag : UInt16} {w : BytesMut Unit} {n : Nat} {b : Bytes}
    (hw : Writes w n) (h : freeze type_ tag w = .ok b) : b.length = 3 + n := by
  obtain ⟨bs, rfl, rfl, -⟩ := hw _ _ (freeze_ok h)
  simp [header]
  omega

theorem qids_writes (qids : List Qid) :
    Writes (do let n ← u16TryFrom qids.length; putU16Le n; qids.forM putQid)
      (2 + 13*qids.length) :=
  Writes.yields (u16TryFrom_yields _) fun n _ => (u16_writes n).bind (Writes.many qid_writes qids)

theorem RMessage.serialize_length (m : RMessage) {tag : UInt16} {b : Bytes}
    (h : m.serialize tag = .ok b) : b.length = m.len := by
  cases m with
  | rversion v =>
    have hb := freeze_length ((u32_writes _).bind (string_writes _)) h
    simp only [RMessage.len]
    omega
  | rauth v => exact freeze_length (qid_writes _) h
  | rerror v =>
    have hb := freeze_length (string_writes _) h
    simp only [RMessage.len]
    omega
  | rflush v => exact freeze_length Writes.pure h
  | rattach v => exact freeze_length (qid_writes _) h
  | rwalk v =>
    have hb := freeze_length (qids_writes _) h
    simp only [RMessage.len]
    omega
  | ropen v => exact freeze_length ((qid_writes _).bind (u32_writes _)) h
  | rcreate v => exact freeze_length ((qid_writes _).bind (u32_writes _)) h
  | rread v =>
    have hb := freeze_length (data_writes _) h
    simp only [RMessage.len]
    omega
  | rreads v =>
    have hb := freeze_length ((u64_writes _).bind (data_writes _)) h
    simp only [RMessage.len]
    omega
  | rwrite v => exact freeze_length (u32_writes _) h
  | rclunk v => exact freeze_length Writes.pure h
  | rremove v => exact freeze_length Writes.pure h
  | rstat v =>
    have hb := freeze_length (sized_writes (stat_writes _)) h
    simp only [RMessage.len]
    omega
  | rwstat v => exact freeze_length Writes.pure h

theorem freeze_shows {type_ : TypeId} {tag : UInt16} {w : BytesMut Unit} {P : Prop} {b : Bytes}
    (hw : Shows w P) (h : freeze type_ tag w = .ok b) : P := hw _ _ _ (freeze_ok h)

theorem freeze_isOk {type_ : TypeId} {tag : UInt16} {w : BytesMut Unit} (hw : Total w) :
    ∃ b, freeze type_ tag w = .ok b := by
  obtain ⟨out, hout⟩ := hw (header type_ tag)
  have hhead : StateT.run (do putU8 type_.toU8; putU16Le tag; w : BytesMut Unit) [] =
      w.run (header type_ tag) := rfl
  exact ⟨out, by rw [freeze, hhead, hout]; rfl⟩

def RMessage.Encodable : RMessage → Prop
  | .rversion v => (asBytes v.version).length < 2^16
  | .rerror v => (asBytes v.ename).length < 2^16
  | .rwalk v => v.wqid.length < 2^16
  | .rread v => v.data.length < 2^32
  | .rreads v => v.data.length < 2^32
  | .rstat v => v.stat.len < 2^16
  | _ => True

theorem RMessage.encodable_of_serialize (m : RMessage) {tag : UInt16} {b : Bytes}
    (h : m.serialize tag = .ok b) : m.Encodable := by
  cases m with
  | rversion v => exact freeze_shows (Shows.rest fun _ => string_shows _) h
  | rerror v => exact freeze_shows (string_shows _) h
  | rwalk v => exact freeze_shows (u16TryFrom_shows _).head h
  | rread v => exact freeze_shows (data_shows _) h
  | rreads v => exact freeze_shows (Shows.rest fun _ => data_shows _) h
  | rstat v => exact freeze_shows (sized_shows (stat_writes _)) h
  | _ => trivial

theorem RMessage.serialize_isOk (m : RMessage) (tag : UInt16) (h : m.Encodable) :
    ∃ b, m.serialize tag = .ok b := by
  cases m with
  | rversion v => exact freeze_isOk (Total.bind (putSlice_total _) (string_total h))
  | rauth v => exact freeze_isOk (putSlice_total _)
  | rerror v => exact freeze_isOk (string_total h)
  | rattach v => exact freeze_isOk (putSlice_total _)
  | rwalk v => exact freeze_isOk (qids_total h)
  | ropen v => exact freeze_isOk (Total.bind (putSlice_total _) (putSlice_total _))
  | rcreate v => exact freeze_isOk (Total.bind (putSlice_total _) (putSlice_total _))
  | rread v => exact freeze_isOk (data_total h)
  | rreads v => exact freeze_isOk (Total.bind (putSlice_total _) (data_total h))
  | rwrite v => exact freeze_isOk (putSlice_total _)
  | rstat v =>
    have hfields : v.stat.len - 2 < 2^16 := Nat.lt_of_le_of_lt (Nat.sub_le _ _) h
    exact freeze_isOk (sized_total (stat_total hfields) (stat_writes _) h)
  | _ => exact ⟨_, rfl⟩

end NineWire.Wire
