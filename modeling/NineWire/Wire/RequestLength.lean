import Mathlib.Algebra.Order.BigOperators.Group.List
import NineWire.Wire.Length

/-! How long a serialized request is, and when it serializes at all. -/
namespace NineWire.Wire
open NineWire.Codec NineWire.LittleEndian

def stringLen (s : ByteString) : Nat := 2 + (asBytes s).length

def TMessage.len : TMessage → Nat
  | .treads _ => 19
  | .tversion m => 7 + stringLen m.version
  | .tauth m => 7 + stringLen m.uname + stringLen m.aname
  | .tflush _ => 5
  | .tattach m => 11 + stringLen m.uname + stringLen m.aname
  | .twalk m => 13 + (m.wname.map stringLen).sum
  | .topen _ => 8
  | .tcreate m => 12 + stringLen m.name
  | .tread _ => 19
  | .twrite m => 19 + m.data.length
  | .tclunk _ => 7
  | .tremove _ => 7
  | .tstat _ => 7
  | .twstat m => 9 + m.stat.len

def TMessage.Encodable : TMessage → Prop
  | .tversion m => (asBytes m.version).length < 2^16
  | .tauth m => (asBytes m.uname).length < 2^16 ∧ (asBytes m.aname).length < 2^16
  | .tattach m => (asBytes m.uname).length < 2^16 ∧ (asBytes m.aname).length < 2^16
  | .twalk m => m.wname.length < 2^16 ∧ ∀ name ∈ m.wname, (asBytes name).length < 2^16
  | .tcreate m => (asBytes m.name).length < 2^16
  | .twrite m => m.data.length < 2^32
  | .twstat m => m.stat.len < 2^16
  | _ => True

instance (m : TMessage) : Decidable m.Encodable := by
  cases m <;> simp only [TMessage.Encodable] <;> infer_instance

section Requests
variable {tag : UInt16} {b : Bytes}

theorem names_writes (wname : List ByteString) :
    Writes (do let n ← u16TryFrom wname.length; putU16Le n; wname.forM putString)
      (2 + (wname.map stringLen).sum) :=
  Writes.yields (u16TryFrom_yields _) fun n _ => (u16_writes n).bind (Writes.sum string_writes wname)

theorem TMessage.serialize_length (m : TMessage) (h : m.serialize tag = .ok b) :
    b.length = m.len := by
  cases m with
  | treads m => exact freeze_length ((u32_writes _).bind ((u64_writes _).bind (u32_writes _))) h
  | tversion m =>
    have hb := freeze_length ((u32_writes _).bind (string_writes _)) h
    simp only [TMessage.len, stringLen]
    omega
  | tauth m =>
    have hb := freeze_length ((u32_writes _).bind ((string_writes _).bind (string_writes _))) h
    simp only [TMessage.len, stringLen]
    omega
  | tflush m => exact freeze_length (u16_writes _) h
  | tattach m =>
    have hb := freeze_length
      ((u32_writes _).bind ((u32_writes _).bind ((string_writes _).bind (string_writes _)))) h
    simp only [TMessage.len, stringLen]
    omega
  | twalk m =>
    have hb := freeze_length ((u32_writes _).bind ((u32_writes _).bind (names_writes _))) h
    simp only [TMessage.len]
    omega
  | topen m => exact freeze_length ((u32_writes _).bind (putSlice_writes [m.mode])) h
  | tcreate m =>
    have hb := freeze_length ((u32_writes _).bind
      ((string_writes _).bind ((u32_writes _).bind (putSlice_writes [m.mode])))) h
    simp only [TMessage.len, stringLen]
    simp only [List.length_singleton] at hb
    omega
  | tread m => exact freeze_length ((u32_writes _).bind ((u64_writes _).bind (u32_writes _))) h
  | twrite m =>
    have hb := freeze_length ((u32_writes _).bind ((u64_writes _).bind (data_writes _))) h
    simp only [TMessage.len]
    omega
  | tclunk m => exact freeze_length (u32_writes _) h
  | tremove m => exact freeze_length (u32_writes _) h
  | tstat m => exact freeze_length (u32_writes _) h
  | twstat m =>
    have hb := freeze_length ((u32_writes _).bind (sized_writes (stat_writes _))) h
    simp only [TMessage.len]
    omega

theorem TMessage.encodable_of_serialize (m : TMessage) (h : m.serialize tag = .ok b) :
    m.Encodable := by
  cases m with
  | tversion m => exact freeze_shows (Shows.rest fun _ => string_shows _) h
  | tauth m =>
    refine freeze_shows (Shows.rest fun _ => Shows.and ?_ ?_) h
    · exact (string_shows _).head
    · exact Shows.rest fun _ => string_shows _
  | tattach m =>
    refine freeze_shows (Shows.rest fun _ => Shows.rest fun _ => Shows.and ?_ ?_) h
    · exact (string_shows _).head
    · exact Shows.rest fun _ => string_shows _
  | twalk m =>
    refine freeze_shows (Shows.rest fun _ => Shows.rest fun _ => Shows.and ?_ ?_) h
    · exact (u16TryFrom_shows _).head
    · exact Shows.rest fun _ => Shows.rest fun _ => Shows.many string_shows _
  | tcreate m => exact freeze_shows (Shows.rest fun _ => (string_shows _).head) h
  | twrite m => exact freeze_shows (Shows.rest fun _ => Shows.rest fun _ => data_shows _) h
  | twstat m => exact freeze_shows (Shows.rest fun _ => sized_shows (stat_writes _)) h
  | _ => trivial

theorem TMessage.serialize_isOk (m : TMessage) (tag : UInt16) (h : m.Encodable) :
    ∃ b, m.serialize tag = .ok b := by
  cases m with
  | tversion m => exact freeze_isOk (Total.bind (putSlice_total _) (string_total h))
  | tauth m =>
    refine freeze_isOk (Total.bind (putSlice_total _) ?_)
    exact Total.bind (string_total h.1) (string_total h.2)
  | tattach m =>
    refine freeze_isOk (Total.bind (putSlice_total _) (Total.bind (putSlice_total _) ?_))
    exact Total.bind (string_total h.1) (string_total h.2)
  | twalk m =>
    refine freeze_isOk (Total.bind (putSlice_total _) (Total.bind (putSlice_total _) ?_))
    refine Total.bind (u16TryFrom_total h.1) (Total.bind (putSlice_total _) ?_)
    exact Total.many m.wname fun name hname => string_total (h.2 name hname)
  | tcreate m =>
    refine freeze_isOk (Total.bind (putSlice_total _) (Total.bind (string_total h) ?_))
    exact Total.bind (putSlice_total _) (putSlice_total _)
  | twrite m =>
    exact freeze_isOk (Total.bind (putSlice_total _) (Total.bind (putSlice_total _) (data_total h)))
  | twstat m =>
    have hfields : m.stat.len - 2 < 2^16 := Nat.lt_of_le_of_lt (Nat.sub_le _ _) h
    have hstat := sized_total (stat_total hfields) (stat_writes _) h
    exact freeze_isOk (Total.bind (putSlice_total _) hstat)
  | _ => exact ⟨_, rfl⟩

theorem length_le_sum (wname : List ByteString) :
    2 * wname.length ≤ (wname.map stringLen).sum := by
  induction wname with
  | nil => exact Nat.le_refl 0
  | cons name wname ih =>
    simp only [List.length_cons, List.map_cons, List.sum_cons, stringLen]
    omega

/-- A walk short of 64 KiB has no field that does not fit its count. -/
theorem twalk_encodable {m : Twalk} (h : (TMessage.twalk m).len < 2^16) :
    (TMessage.twalk m).Encodable := by
  simp only [TMessage.len] at h
  constructor
  · have hcount := length_le_sum m.wname
    omega
  · intro name hname
    have hmem : stringLen name ∈ m.wname.map stringLen := List.mem_map_of_mem hname
    have hsum := List.single_le_sum (fun _ _ => Nat.zero_le _) _ hmem
    rw [stringLen] at hsum
    omega

end Requests

end NineWire.Wire
