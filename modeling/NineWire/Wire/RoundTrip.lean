import NineWire.Wire.De

/-! Every field, string, stat and message that serializes is read back by the
matching reader. The message theorems follow the two dispatch tables. -/
namespace NineWire.Wire
open NineWire.Codec NineWire.LittleEndian

@[simp] theorem putSlice_run (bs buf : Bytes) : (putSlice bs).run buf = .ok ((), buf ++ bs) := rfl

theorem trySplitTo_append (e : DeserializeError) (bs rest : Bytes) :
    (trySplitTo e bs.length).run (bs ++ rest) = .ok (bs, rest) := by
  rw [trySplitTo, run_bind_of_ok (StateT.run_get _)]
  simp
  rfl

theorem putSlice_roundTrips (e : DeserializeError) (bs : Bytes) (n : Nat) (h : bs.length = n) :
    RoundTrips (putSlice bs) (trySplitTo e n) bs := by
  intro buf out hrun
  subst h
  obtain rfl : buf ++ bs = out := (Prod.mk.inj (Except.ok.inj hrun)).2
  exact ⟨bs, rfl, trySplitTo_append e bs⟩

/-! Fixed-width fields. -/

theorem u8_roundTrips (e : DeserializeError) (v : UInt8) :
    RoundTrips (putU8 v) (tryGetU8 e) v := by
  refine (putSlice_roundTrips e [v] 1 rfl).last fun rest => ?_
  simp [ofLe]
  rfl

theorem u16_roundTrips (e : DeserializeError) (v : UInt16) :
    RoundTrips (putU16Le v) (tryGetU16Le e) v := by
  refine (putSlice_roundTrips e _ 2 (by simp)).last fun rest => ?_
  rw [ofLe_toLe 2 _ v.toNat_lt, UInt16.ofNat_toNat]
  rfl

theorem u8_read (e : DeserializeError) (v : UInt8) (rest : Bytes) :
    (tryGetU8 e).run (v :: rest) = .ok (v, rest) :=
  (u8_roundTrips e v).read rfl rest

theorem u16_read (e : DeserializeError) (v : UInt16) (rest : Bytes) :
    (tryGetU16Le e).run (toLe 2 v.toNat ++ rest) = .ok (v, rest) :=
  (u16_roundTrips e v).read rfl rest

theorem u32_roundTrips (e : DeserializeError) (v : UInt32) :
    RoundTrips (putU32Le v) (tryGetU32Le e) v := by
  refine (putSlice_roundTrips e _ 4 (by simp)).last fun rest => ?_
  rw [ofLe_toLe 4 _ v.toNat_lt, UInt32.ofNat_toNat]
  rfl

theorem u64_roundTrips (e : DeserializeError) (v : UInt64) :
    RoundTrips (putU64Le v) (tryGetU64Le e) v := by
  refine (putSlice_roundTrips e _ 8 (by simp)).last fun rest => ?_
  rw [ofLe_toLe 8 _ v.toNat_lt, UInt64.ofNat_toNat]
  rfl

theorem Qid.ofBytes_toBytes (qid : Qid) : Qid.ofBytes qid.toBytes = qid := by
  have h4 := toLe_length 4 qid.version.toNat
  have hv := ofLe_toLe 4 _ qid.version.toNat_lt
  have hp := ofLe_toLe 8 _ qid.path.toNat_lt
  simp [Qid.ofBytes, Qid.toBytes, ofLe, List.take_append_of_le_length, List.drop_append,
    List.take_of_length_le, hv, hp]

theorem qid_roundTrips (tag : UInt16) (qid : Qid) :
    RoundTrips (putQid qid) (yankQid tag) qid := by
  refine (putSlice_roundTrips _ _ 13 (by simp [Qid.toBytes])).last fun rest => ?_
  rw [Qid.ofBytes_toBytes]
  rfl

/-! Lengths that had to fit their field. -/

theorem u16TryFrom_yields (n : Nat) : Yields (u16TryFrom n) fun v => v.toNat = n := by
  intro buf v out hrun
  by_cases hn : n < 2^16
  · simp only [u16TryFrom, hn, if_true] at hrun ⊢
    obtain ⟨rfl, rfl⟩ := Prod.mk.inj (Except.ok.inj hrun)
    exact ⟨fun _ => rfl, UInt16.toNat_ofNat_of_lt' hn⟩
  · simp only [u16TryFrom, hn, if_false] at hrun
    cases hrun

theorem u32TryFrom_yields (n : Nat) : Yields (u32TryFrom n) fun v => v.toNat = n := by
  intro buf v out hrun
  by_cases hn : n < 2^32
  · simp only [u32TryFrom, hn, if_true] at hrun ⊢
    obtain ⟨rfl, rfl⟩ := Prod.mk.inj (Except.ok.inj hrun)
    exact ⟨fun _ => rfl, UInt32.toNat_ofNat_of_lt' hn⟩
  · simp only [u32TryFrom, hn, if_false] at hrun
    cases hrun

theorem fromUTF8_asBytes (s : ByteString) : String.fromUTF8? ⟨(asBytes s).toArray⟩ = some s := by
  simp [asBytes, String.fromUTF8?, s.isValidUTF8, String.fromUTF8]

theorem string_roundTrips (tag : UInt16) (s : ByteString) :
    RoundTrips (putString s) (yankString tag) s := by
  refine RoundTrips.yields (u16TryFrom_yields _) fun len hlen => ?_
  refine (u16_roundTrips _ len).bind ?_
  refine (putSlice_roundTrips _ _ _ hlen.symm).last fun rest => ?_
  rw [fromUTF8_asBytes]
  rfl

/-! The reserved and patched length. -/

theorem putU16Le_run (v : UInt16) (buf : Bytes) :
    (putU16Le v).run buf = .ok ((), buf ++ toLe 2 v.toNat) := rfl

theorem bufLen_run (buf : Bytes) : bufLen.run buf = .ok (buf.length, buf) := rfl

theorem putSized_ok {body : BytesMut Unit} {buf out : Bytes}
    (h : (putSized body).run buf = .ok ((), out)) :
    ∃ mid len, body.run (buf ++ toLe 2 0) = .ok ((), mid) ∧
      UInt16.toNat len = mid.length - (buf.length+2) ∧
      out = mid.take buf.length ++ toLe 2 len.toNat ++ mid.drop (buf.length+2) := by
  rw [putSized, run_bind_of_ok (bufLen_run _), run_bind_of_ok (putU16Le_run _ _),
    run_bind_of_ok (bufLen_run _)] at h
  obtain ⟨_, mid, hbody, h⟩ := run_bind_ok.mp h
  rw [run_bind_of_ok (bufLen_run _)] at h
  obtain ⟨len, mid', hlen, hcopy⟩ := run_bind_ok.mp h
  obtain ⟨rfl, hn⟩ := (u16TryFrom_yields _).unchanged hlen
  refine ⟨mid', len, hbody, by simpa using hn, ?_⟩
  have hout := (Prod.mk.inj (Except.ok.inj hcopy)).2
  simpa using hout.symm

theorem sized_roundTrips {α : Type} (tag : UInt16) {body : BytesMut Unit} {r : Buf α} {a : α}
    (h : RoundTrips body r a) : RoundTrips (putSized body) (yankSized tag r) a := by
  intro buf out hrun
  obtain ⟨mid, len, hbody, hlen, rfl⟩ := putSized_ok hrun
  obtain ⟨bs, rfl, hr⟩ := h _ _ hbody
  have hn : len.toNat = bs.length := by
    simp only [hlen, List.length_append, toLe_length]
    omega
  refine ⟨toLe 2 len.toNat ++ bs, by simp, fun rest => ?_⟩
  rw [List.append_assoc, yankSized, run_bind_of_ok (u16_read _ len _),
    run_bind_of_ok (StateT.run_get _), ← hr rest]
  simp [hn]

theorem stat_roundTrips (tag : UInt16) (stat : Stat) :
    RoundTrips (putStat stat) (yankStat tag) stat := by
  refine sized_roundTrips tag ?_
  refine (u16_roundTrips _ _).bind ?_
  refine (u32_roundTrips _ _).bind ?_
  refine (qid_roundTrips _ _).bind ?_
  refine (u32_roundTrips _ _).bind ?_
  refine (u32_roundTrips _ _).bind ?_
  refine (u32_roundTrips _ _).bind ?_
  refine (u64_roundTrips _ _).bind ?_
  refine (string_roundTrips _ _).bind ?_
  refine (string_roundTrips _ _).bind ?_
  refine (string_roundTrips _ _).bind ?_
  exact (string_roundTrips _ _).last fun _ => rfl

/-! Whole messages: the fields in order, then the end of the buffer. -/

theorem data_decodes (tag : UInt16) (data : Bytes) :
    Decodes (putData data) (yankData tag) data := by
  refine Decodes.yields (u32TryFrom_yields _) fun len hlen => ?_
  refine Decodes.bind (u32_roundTrips _ len) ?_
  exact Decodes.last (putSlice_roundTrips _ _ _ hlen.symm) rfl

theorem many_roundTrips {α : Type} {w : α → BytesMut Unit} {r : Buf α} (as : List α) (n : Nat)
    (h : ∀ a, RoundTrips (w a) r a) (hn : n = as.length) :
    RoundTrips (as.forM w) (readMany r n) as := by
  subst hn
  exact RoundTrips.many as h

def header (type_ : TypeId) (tag : UInt16) : Bytes := type_.toU8 :: toLe 2 tag.toNat

theorem header_length (type_ : TypeId) (tag : UInt16) : (header type_ tag).length = 3 := rfl

theorem freeze_ok {type_ : TypeId} {tag : UInt16} {w : BytesMut Unit} {b : Bytes}
    (h : freeze type_ tag w = .ok b) : w.run (header type_ tag) = .ok ((), b) := by
  have hhead : StateT.run (do putU8 type_.toU8; putU16Le tag; w : BytesMut Unit) [] =
      w.run (header type_ tag) := rfl
  rw [freeze, hhead] at h
  cases hw : w.run (header type_ tag) with
  | error e =>
    rw [hw] at h
    cases h
  | ok out =>
    rw [hw] at h
    obtain rfl := Except.ok.inj h
    rfl

theorem deserializeHeader_header (type_ : TypeId) (tag : UInt16) (bs : Bytes) :
    deserializeHeader (header type_ tag ++ bs) = .ok (type_, tag, bs) := by
  have hu8 := u8_read (.tooShort none) type_.toU8 (toLe 2 tag.toNat ++ bs)
  have hcons : header type_ tag ++ bs = type_.toU8 :: (toLe 2 tag.toNat ++ bs) := rfl
  rw [hcons, deserializeHeader, hu8]
  simp only [TypeId.tryFrom_toU8, u16_read]

theorem deserializeT_freeze {type_ : TypeId} {tag : UInt16} {w : BytesMut Unit} {m : TMessage}
    {b : Bytes} (hd : Decodes w (deserializeTBody type_ tag) m)
    (h : freeze type_ tag w = .ok b) : deserializeT b = .ok (tag, m) := by
  obtain ⟨bs, rfl, hr⟩ := hd _ _ (freeze_ok h)
  rw [deserializeT, deserializeHeader_header]
  simp only [bind, Except.bind, hr]
  rfl

theorem deserializeR_freeze {type_ : TypeId} {tag : UInt16} {w : BytesMut Unit} {m : RMessage}
    {b : Bytes} (hd : Decodes w (deserializeRBody type_ tag) m)
    (h : freeze type_ tag w = .ok b) : deserializeR b = .ok (tag, m) := by
  obtain ⟨bs, rfl, hr⟩ := hd _ _ (freeze_ok h)
  rw [deserializeR, deserializeHeader_header]
  simp only [bind, Except.bind, hr]
  rfl

/-! The T-messages, one for each arm of `deserialize_t`. -/

section TMessages
variable {tag : UInt16} {b : Bytes}

theorem Tversion.deserialize_serialize {m : Tversion} (h : m.serialize tag = .ok b) :
    deserializeT b = .ok (tag, .tversion m) := by
  refine deserializeT_freeze (Decodes.map _ ?_) h
  exact Decodes.bind (u32_roundTrips _ _) (Decodes.last (string_roundTrips _ _) rfl)

theorem Tauth.deserialize_serialize {m : Tauth} (h : m.serialize tag = .ok b) :
    deserializeT b = .ok (tag, .tauth m) := by
  refine deserializeT_freeze (Decodes.map _ ?_) h
  refine Decodes.bind (u32_roundTrips _ _) ?_
  exact Decodes.bind (string_roundTrips _ _) (Decodes.last (string_roundTrips _ _) rfl)

theorem Tflush.deserialize_serialize {m : Tflush} (h : m.serialize tag = .ok b) :
    deserializeT b = .ok (tag, .tflush m) :=
  deserializeT_freeze (Decodes.map _ (Decodes.last (u16_roundTrips _ _) rfl)) h

theorem Tattach.deserialize_serialize {m : Tattach} (h : m.serialize tag = .ok b) :
    deserializeT b = .ok (tag, .tattach m) := by
  refine deserializeT_freeze (Decodes.map _ ?_) h
  refine Decodes.bind (u32_roundTrips _ _) (Decodes.bind (u32_roundTrips _ _) ?_)
  exact Decodes.bind (string_roundTrips _ _) (Decodes.last (string_roundTrips _ _) rfl)

/-- The name vector is read back by as many reads as its count says. -/
theorem Twalk.deserialize_serialize {m : Twalk} (h : m.serialize tag = .ok b) :
    deserializeT b = .ok (tag, .twalk m) := by
  refine deserializeT_freeze (Decodes.map _ ?_) h
  refine Decodes.bind (u32_roundTrips _ _) (Decodes.bind (u32_roundTrips _ _) ?_)
  refine Decodes.yields (u16TryFrom_yields _) fun nwname hn => ?_
  refine Decodes.bind (u16_roundTrips _ _) ?_
  exact Decodes.last (many_roundTrips _ _ (string_roundTrips tag) hn) rfl

theorem Topen.deserialize_serialize {m : Topen} (h : m.serialize tag = .ok b) :
    deserializeT b = .ok (tag, .topen m) := by
  refine deserializeT_freeze (Decodes.map _ ?_) h
  exact Decodes.bind (u32_roundTrips _ _) (Decodes.last (u8_roundTrips _ _) rfl)

theorem Tcreate.deserialize_serialize {m : Tcreate} (h : m.serialize tag = .ok b) :
    deserializeT b = .ok (tag, .tcreate m) := by
  refine deserializeT_freeze (Decodes.map _ ?_) h
  refine Decodes.bind (u32_roundTrips _ _) (Decodes.bind (string_roundTrips _ _) ?_)
  exact Decodes.bind (u32_roundTrips _ _) (Decodes.last (u8_roundTrips _ _) rfl)

theorem Tread.deserialize_serialize {m : Tread} (h : m.serialize tag = .ok b) :
    deserializeT b = .ok (tag, .tread m) := by
  refine deserializeT_freeze (Decodes.map _ ?_) h
  refine Decodes.bind (u32_roundTrips _ _) (Decodes.bind (u64_roundTrips _ _) ?_)
  exact Decodes.last (u32_roundTrips _ _) rfl

theorem Twrite.deserialize_serialize {m : Twrite} (h : m.serialize tag = .ok b) :
    deserializeT b = .ok (tag, .twrite m) := by
  refine deserializeT_freeze (Decodes.map _ ?_) h
  refine Decodes.bind (u32_roundTrips _ _) (Decodes.bind (u64_roundTrips _ _) ?_)
  exact Decodes.map _ (data_decodes _ _)

theorem Tclunk.deserialize_serialize {m : Tclunk} (h : m.serialize tag = .ok b) :
    deserializeT b = .ok (tag, .tclunk m) :=
  deserializeT_freeze (Decodes.map _ (Decodes.last (u32_roundTrips _ _) rfl)) h

theorem Tremove.deserialize_serialize {m : Tremove} (h : m.serialize tag = .ok b) :
    deserializeT b = .ok (tag, .tremove m) :=
  deserializeT_freeze (Decodes.map _ (Decodes.last (u32_roundTrips _ _) rfl)) h

theorem Tstat.deserialize_serialize {m : Tstat} (h : m.serialize tag = .ok b) :
    deserializeT b = .ok (tag, .tstat m) :=
  deserializeT_freeze (Decodes.map _ (Decodes.last (u32_roundTrips _ _) rfl)) h

/-- The stat is sized twice, once by `Twstat` and once by `put_stat`. -/
theorem Twstat.deserialize_serialize {m : Twstat} (h : m.serialize tag = .ok b) :
    deserializeT b = .ok (tag, .twstat m) := by
  refine deserializeT_freeze (Decodes.map _ ?_) h
  refine Decodes.bind (u32_roundTrips _ _) ?_
  exact Decodes.last (sized_roundTrips _ (stat_roundTrips _ _)) rfl

/-- `Treads` goes out as the `Tread` with the same fields. -/
theorem Treads.serialize_eq (m : Treads) (tag : UInt16) :
    m.serialize tag = Tread.serialize ⟨m.fid, m.offset, m.count⟩ tag := rfl

end TMessages

def TMessage.Is9P2000 : TMessage → Prop
  | .treads _ => False
  | _ => True

theorem TMessage.deserialize_serialize (m : TMessage) {tag : UInt16} {b : Bytes}
    (hm : m.Is9P2000) (h : m.serialize tag = .ok b) : deserializeT b = .ok (tag, m) := by
  cases m with
  | treads m => exact False.elim hm
  | tversion m => exact m.deserialize_serialize h
  | tauth m => exact m.deserialize_serialize h
  | tflush m => exact m.deserialize_serialize h
  | tattach m => exact m.deserialize_serialize h
  | twalk m => exact m.deserialize_serialize h
  | topen m => exact m.deserialize_serialize h
  | tcreate m => exact m.deserialize_serialize h
  | tread m => exact m.deserialize_serialize h
  | twrite m => exact m.deserialize_serialize h
  | tclunk m => exact m.deserialize_serialize h
  | tremove m => exact m.deserialize_serialize h
  | tstat m => exact m.deserialize_serialize h
  | twstat m => exact m.deserialize_serialize h

/-! The R-messages, one for each arm of `deserialize_r`. -/

section RMessages
variable {tag : UInt16} {b : Bytes}

theorem Rversion.deserialize_serialize {m : Rversion} (h : m.serialize tag = .ok b) :
    deserializeR b = .ok (tag, .rversion m) := by
  refine deserializeR_freeze (Decodes.map _ ?_) h
  exact Decodes.bind (u32_roundTrips _ _) (Decodes.last (string_roundTrips _ _) rfl)

theorem Rauth.deserialize_serialize {m : Rauth} (h : m.serialize tag = .ok b) :
    deserializeR b = .ok (tag, .rauth m) :=
  deserializeR_freeze (Decodes.map _ (Decodes.last (qid_roundTrips _ _) rfl)) h

theorem Rerror.deserialize_serialize {m : Rerror} (h : m.serialize tag = .ok b) :
    deserializeR b = .ok (tag, .rerror m) :=
  deserializeR_freeze (Decodes.map _ (Decodes.last (string_roundTrips _ _) rfl)) h

theorem noFields_decodes {α : Type} {r : Buf α} {a : α} (h : r.run [] = .ok (a, [])) :
    Decodes (pure () : BytesMut Unit) r a := by
  intro buf out hrun
  obtain rfl : buf = out := (Prod.mk.inj (Except.ok.inj hrun)).2
  exact ⟨[], by simp, h⟩

theorem Rflush.deserialize_serialize {m : Rflush} (h : m.serialize tag = .ok b) :
    deserializeR b = .ok (tag, .rflush m) :=
  deserializeR_freeze (Decodes.map _ (noFields_decodes rfl)) h

theorem Rattach.deserialize_serialize {m : Rattach} (h : m.serialize tag = .ok b) :
    deserializeR b = .ok (tag, .rattach m) :=
  deserializeR_freeze (Decodes.map _ (Decodes.last (qid_roundTrips _ _) rfl)) h

/-- The qid vector is read back by as many reads as its count says. -/
theorem Rwalk.deserialize_serialize {m : Rwalk} (h : m.serialize tag = .ok b) :
    deserializeR b = .ok (tag, .rwalk m) := by
  refine deserializeR_freeze (Decodes.map _ ?_) h
  refine Decodes.yields (u16TryFrom_yields _) fun nwqid hn => ?_
  refine Decodes.bind (u16_roundTrips _ _) ?_
  exact Decodes.last (many_roundTrips _ _ (qid_roundTrips tag) hn) rfl

theorem Ropen.deserialize_serialize {m : Ropen} (h : m.serialize tag = .ok b) :
    deserializeR b = .ok (tag, .ropen m) := by
  refine deserializeR_freeze (Decodes.map _ ?_) h
  exact Decodes.bind (qid_roundTrips _ _) (Decodes.last (u32_roundTrips _ _) rfl)

theorem Rcreate.deserialize_serialize {m : Rcreate} (h : m.serialize tag = .ok b) :
    deserializeR b = .ok (tag, .rcreate m) := by
  refine deserializeR_freeze (Decodes.map _ ?_) h
  exact Decodes.bind (qid_roundTrips _ _) (Decodes.last (u32_roundTrips _ _) rfl)

theorem Rread.deserialize_serialize {m : Rread} (h : m.serialize tag = .ok b) :
    deserializeR b = .ok (tag, .rread m) :=
  deserializeR_freeze (Decodes.map _ (Decodes.map _ (data_decodes _ _))) h

theorem Rwrite.deserialize_serialize {m : Rwrite} (h : m.serialize tag = .ok b) :
    deserializeR b = .ok (tag, .rwrite m) :=
  deserializeR_freeze (Decodes.map _ (Decodes.last (u32_roundTrips _ _) rfl)) h

theorem Rclunk.deserialize_serialize {m : Rclunk} (h : m.serialize tag = .ok b) :
    deserializeR b = .ok (tag, .rclunk m) :=
  deserializeR_freeze (Decodes.map _ (noFields_decodes rfl)) h

theorem Rremove.deserialize_serialize {m : Rremove} (h : m.serialize tag = .ok b) :
    deserializeR b = .ok (tag, .rremove m) :=
  deserializeR_freeze (Decodes.map _ (noFields_decodes rfl)) h

theorem Rstat.deserialize_serialize {m : Rstat} (h : m.serialize tag = .ok b) :
    deserializeR b = .ok (tag, .rstat m) := by
  refine deserializeR_freeze (Decodes.map _ ?_) h
  exact Decodes.last (sized_roundTrips _ (stat_roundTrips _ _)) rfl

theorem Rwstat.deserialize_serialize {m : Rwstat} (h : m.serialize tag = .ok b) :
    deserializeR b = .ok (tag, .rwstat m) :=
  deserializeR_freeze (Decodes.map _ (noFields_decodes rfl)) h

/-- `deserialize_r` has no arm for the id `Rreads` is sent under. -/
theorem Rreads.deserialize_serialize {m : Rreads} (h : m.serialize tag = .ok b) :
    deserializeR b = .error (.unsupportedType .rreads tag) := by
  have hw := freeze_ok h
  obtain ⟨_, mid, hoff, hdata⟩ := run_bind_ok.mp hw
  obtain ⟨bs, rfl, _⟩ := u64_roundTrips (short tag) m.offset _ _ hoff
  obtain ⟨cs, rfl, _⟩ := data_decodes tag m.data _ _ hdata
  rw [deserializeR, List.append_assoc, deserializeHeader_header]
  rfl

end RMessages

def RMessage.Is9P2000 : RMessage → Prop
  | .rreads _ => False
  | _ => True

theorem RMessage.deserialize_serialize (m : RMessage) {tag : UInt16} {b : Bytes}
    (hm : m.Is9P2000) (h : m.serialize tag = .ok b) : deserializeR b = .ok (tag, m) := by
  cases m with
  | rreads m => exact False.elim hm
  | rversion m => exact m.deserialize_serialize h
  | rauth m => exact m.deserialize_serialize h
  | rerror m => exact m.deserialize_serialize h
  | rflush m => exact m.deserialize_serialize h
  | rattach m => exact m.deserialize_serialize h
  | rwalk m => exact m.deserialize_serialize h
  | ropen m => exact m.deserialize_serialize h
  | rcreate m => exact m.deserialize_serialize h
  | rread m => exact m.deserialize_serialize h
  | rwrite m => exact m.deserialize_serialize h
  | rclunk m => exact m.deserialize_serialize h
  | rremove m => exact m.deserialize_serialize h
  | rstat m => exact m.deserialize_serialize h
  | rwstat m => exact m.deserialize_serialize h

end NineWire.Wire
