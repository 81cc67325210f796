import NineWire.Wire.Ser

/-! Deserialization of `npwire`: readers that take from the front of a `Bytes`
and name the tag in every error they can. -/
namespace NineWire.Wire
open NineWire.Codec NineWire.LittleEndian

inductive DeserializeError where
  | tooShort (tag : Option UInt16)
  | tooLong (tag : UInt16)
  | unknownType (type_ : UInt8) (tag : UInt16)
  | unsupportedType (type_ : TypeId) (tag : UInt16)
  | invalidUTF8 (tag : UInt16)
  deriving DecidableEq

def DeserializeError.tag : DeserializeError → Option UInt16
  | .tooShort tag => tag
  | .tooLong tag => some tag
  | .unknownType _ tag => some tag
  | .unsupportedType _ tag => some tag
  | .invalidUTF8 tag => some tag

def DeserializeError.toString : DeserializeError → ByteString
  | .tooShort _ => "too short"
  | .tooLong _ => "too long"
  | .unknownType type_ _ => "unknown type id " ++ Nat.repr type_.toNat
  | .unsupportedType type_ _ => "cannot deserialize " ++ type_.debug
  | .invalidUTF8 _ => "Invalid UTF-8 string"

abbrev Buf := BufferM UInt8 DeserializeError

def trySplitTo (e : DeserializeError) (n : Nat) : Buf Bytes := do
  let buf ← get
  if buf.length < n then throw e
  set (buf.drop n)
  return buf.take n

def tryGetU8 (e : DeserializeError) : Buf UInt8 := do
  return UInt8.ofNat (ofLe (← trySplitTo e 1))
def tryGetU16Le (e : DeserializeError) : Buf UInt16 := do
  return UInt16.ofNat (ofLe (← trySplitTo e 2))
def tryGetU32Le (e : DeserializeError) : Buf UInt32 := do
  return UInt32.ofNat (ofLe (← trySplitTo e 4))
def tryGetU64Le (e : DeserializeError) : Buf UInt64 := do
  return UInt64.ofNat (ofLe (← trySplitTo e 8))

def Qid.ofBytes (value : Bytes) : Qid where
  type_ := UInt8.ofNat (ofLe (value.take 1))
  version := UInt32.ofNat (ofLe ((value.drop 1).take 4))
  path := UInt64.ofNat (ofLe ((value.drop 5).take 8))

def short (tag : UInt16) : DeserializeError := .tooShort (some tag)

def yankQid (tag : UInt16) : Buf Qid := do
  return Qid.ofBytes (← trySplitTo (short tag) 13)

def yankString (tag : UInt16) : Buf ByteString := do
  let len ← tryGetU16Le (short tag)
  let str ← trySplitTo (short tag) len.toNat
  match String.fromUTF8? ⟨str.toArray⟩ with
  | some str => return str
  | none => throw (.invalidUTF8 tag)

def yankSized {α : Type} (tag : UInt16) (body : Buf α) : Buf α := do
  let len ← tryGetU16Le (short tag)
  if (← get).length < len.toNat then throw (short tag)
  body

def yankStatFields (tag : UInt16) : Buf Stat := do
  let type_ ← tryGetU16Le (short tag)
  let dev ← tryGetU32Le (short tag)
  let qid ← yankQid tag
  let mode ← tryGetU32Le (short tag)
  let atime ← tryGetU32Le (short tag)
  let mtime ← tryGetU32Le (short tag)
  let length ← tryGetU64Le (short tag)
  let name ← yankString tag
  let uid ← yankString tag
  let gid ← yankString tag
  let muid ← yankString tag
  return { type_, dev, qid, mode, atime, mtime, length, name, uid, gid, muid }

def yankStat (tag : UInt16) : Buf Stat := yankSized tag (yankStatFields tag)

/-- `if !buf.is_empty() { return Err(TooLong) }`. -/
def ensureEmpty (tag : UInt16) : Buf Unit := do
  if (← get) ≠ [] then throw (.tooLong tag)

def Tversion.deserialize (tag : UInt16) : Buf Tversion := do
  let msize ← tryGetU32Le (short tag)
  let version ← yankString tag
  ensureEmpty tag
  return { msize, version }

def Tflush.deserialize (tag : UInt16) : Buf Tflush := do
  let oldtag ← tryGetU16Le (short tag)
  ensureEmpty tag
  return { oldtag }

def Twalk.deserialize (tag : UInt16) : Buf Twalk := do
  let fid ← tryGetU32Le (short tag)
  let newfid ← tryGetU32Le (short tag)
  let nwname ← tryGetU16Le (short tag)
  let wname ← readMany (yankString tag) nwname.toNat
  ensureEmpty tag
  return { fid, newfid, wname }

def Tread.deserialize (tag : UInt16) : Buf Tread := do
  let fid ← tryGetU32Le (short tag)
  let offset ← tryGetU64Le (short tag)
  let count ← tryGetU32Le (short tag)
  ensureEmpty tag
  return { fid, offset, count }

def Treads.deserialize (tag : UInt16) : Buf Treads := do
  let fid ← tryGetU32Le (short tag)
  let offset ← tryGetU64Le (short tag)
  let count ← tryGetU32Le (short tag)
  ensureEmpty tag
  return { fid, offset, count }

/-- The length comparison of `Twrite` and the split of `Rread`: `count` bytes
must be there, and no more. -/
def yankData (tag : UInt16) : Buf Bytes := do
  let count ← tryGetU32Le (short tag)
  let data ← trySplitTo (short tag) count.toNat
  ensureEmpty tag
  return data

def Twrite.deserialize (tag : UInt16) : Buf Twrite := do
  let fid ← tryGetU32Le (short tag)
  let offset ← tryGetU64Le (short tag)
  let data ← yankData tag
  return { fid, offset, data }

def Tclunk.deserialize (tag : UInt16) : Buf Tclunk := do
  let fid ← tryGetU32Le (short tag)
  ensureEmpty tag
  return { fid }

def Tremove.deserialize (tag : UInt16) : Buf Tremove := do
  let fid ← tryGetU32Le (short tag)
  ensureEmpty tag
  return { fid }

/-- `Tauth` and `Tattach` do not check for trailing bytes. -/
def Tauth.deserialize (tag : UInt16) : Buf Tauth := do
  let afid ← tryGetU32Le (short tag)
  let uname ← yankString tag
  let aname ← yankString tag
  return { afid, uname, aname }

def Tattach.deserialize (tag : UInt16) : Buf Tattach := do
  let fid ← tryGetU32Le (short tag)
  let afid ← tryGetU32Le (short tag)
  let uname ← yankString tag
  let aname ← yankString tag
  return { fid, afid, uname, aname }

def Topen.deserialize (tag : UInt16) : Buf Topen := do
  let fid ← tryGetU32Le (short tag)
  let mode ← tryGetU8 (short tag)
  ensureEmpty tag
  return { fid, mode }

def Tcreate.deserialize (tag : UInt16) : Buf Tcreate := do
  let fid ← tryGetU32Le (short tag)
  let name ← yankString tag
  let perm ← tryGetU32Le (short tag)
  let mode ← tryGetU8 (short tag)
  ensureEmpty tag
  return { fid, name, perm, mode }

def Tstat.deserialize (tag : UInt16) : Buf Tstat := do
  let fid ← tryGetU32Le (short tag)
  ensureEmpty tag
  return { fid }

def Twstat.deserialize (tag : UInt16) : Buf Twstat := do
  let fid ← tryGetU32Le (short tag)
  let stat ← yankSized tag (yankStat tag)
  ensureEmpty tag
  return { fid, stat }

/-- The type id and the tag at the front, shared by both decoders. A buffer
without a whole tag is too short whatever its type byte says. -/
def deserializeHeader (buf : Bytes) : Except DeserializeError (TypeId × UInt16 × Bytes) :=
  match (tryGetU8 (.tooShort none)).run buf with
  | .error e => .error e
  | .ok (type_, buf) =>
    match TypeId.tryFrom type_, (tryGetU16Le (.tooShort none)).run buf with
    | some type_, .ok (tag, buf) => .ok (type_, tag, buf)
    | none, .ok (tag, _) => .error (.unknownType type_ tag)
    | _, .error _ => .error (.tooShort none)

/-- The `match type_` of `deserialize_t`. -/
def deserializeTBody (type_ : TypeId) (tag : UInt16) : Buf TMessage :=
  match type_ with
  | .treads => do return .treads (← Treads.deserialize tag)
  | .tversion => do return .tversion (← Tversion.deserialize tag)
  | .tflush => do return .tflush (← Tflush.deserialize tag)
  | .twalk => do return .twalk (← Twalk.deserialize tag)
  | .tread => do return .tread (← Tread.deserialize tag)
  | .twrite => do return .twrite (← Twrite.deserialize tag)
  | .tclunk => do return .tclunk (← Tclunk.deserialize tag)
  | .tremove => do return .tremove (← Tremove.deserialize tag)
  | .tauth => do return .tauth (← Tauth.deserialize tag)
  | .tattach => do return .tattach (← Tattach.deserialize tag)
  | .topen => do return .topen (← Topen.deserialize tag)
  | .tcreate => do return .tcreate (← Tcreate.deserialize tag)
  | .tstat => do return .tstat (← Tstat.deserialize tag)
  | .twstat => do return .twstat (← Twstat.deserialize tag)
  | _ => throw (.unsupportedType type_ tag)

def deserializeT (buf : Bytes) : Except DeserializeError (UInt16 × TMessage) := do
  let (type_, tag, buf) ← deserializeHeader buf
  let (m, _) ← (deserializeTBody type_ tag).run buf
  return (tag, m)

def Rversion.deserialize (tag : UInt16) : Buf Rversion := do
  let msize ← tryGetU32Le (short tag)
  let version ← yankString tag
  ensureEmpty tag
  return { msize, version }

def Rauth.deserialize (tag : UInt16) : Buf Rauth := do
  let aqid ← yankQid tag
  ensureEmpty tag
  return { aqid }

def Rerror.deserialize (tag : UInt16) : Buf Rerror := do
  let ename ← yankString tag
  ensureEmpty tag
  return { ename }

def Rflush.deserialize (tag : UInt16) : Buf Rflush := do
  ensureEmpty tag
  return {}

def Rattach.deserialize (tag : UInt16) : Buf Rattach := do
  let qid ← yankQid tag
  ensureEmpty tag
  return { qid }

def Rwalk.deserialize (tag : UInt16) : Buf Rwalk := do
  let nwqid ← tryGetU16Le (short tag)
  let wqid ← readMany (yankQid tag) nwqid.toNat
  ensureEmpty tag
  return { wqid }

def Ropen.deserialize (tag : UInt16) : Buf Ropen := do
  let qid ← yankQid tag
  let iounit ← tryGetU32Le (short tag)
  ensureEmpty tag
  return { qid, iounit }

def Rcreate.deserialize (tag : UInt16) : Buf Rcreate := do
  let qid ← yankQid tag
  let iounit ← tryGetU32Le (short tag)
  ensureEmpty tag
  return { qid, iounit }

def Rread.deserialize (tag : UInt16) : Buf Rread := do
  let data ← yankData tag
  return { data }

def Rwrite.deserialize (tag : UInt16) : Buf Rwrite := do
  let count ← tryGetU32Le (short tag)
  ensureEmpty tag
  return { count }

def Rclunk.deserialize (tag : UInt16) : Buf Rclunk := do
  ensureEmpty tag
  return {}

def Rremove.deserialize (tag : UInt16) : Buf Rremove := do
  ensureEmpty tag
  return {}

def Rstat.deserialize (tag : UInt16) : Buf Rstat := do
  let stat ← yankSized tag (yankStat tag)
  ensureEmpty tag
  return { stat }

def Rwstat.deserialize (tag : UInt16) : Buf Rwstat := do
  ensureEmpty tag
  return {}

/-- The `match type_` of `deserialize_r`; it has no arm for `Rreads`. -/
def deserializeRBody (type_ : TypeId) (tag : UInt16) : Buf RMessage :=
  match type_ with
  | .rversion => do return .rversion (← Rversion.deserialize tag)
  | .rauth => do return .rauth (← Rauth.deserialize tag)
  | .rerror => do return .rerror (← Rerror.deserialize tag)
  | .rflush => do return .rflush (← Rflush.deserialize tag)
  | .rattach => do return .rattach (← Rattach.deserialize tag)
  | .rwalk => do return .rwalk (← Rwalk.deserialize tag)
  | .ropen => do return .ropen (← Ropen.deserialize tag)
  | .rcreate => do return .rcreate (← Rcreate.deserialize tag)
  | .rread => do return .rread (← Rread.deserialize tag)
  | .rwrite => do return .rwrite (← Rwrite.deserialize tag)
  | .rclunk => do return .rclunk (← Rclunk.deserialize tag)
  | .rremove => do return .rremove (← Rremove.deserialize tag)
  | .rstat => do return .rstat (← Rstat.deserialize tag)
  | .rwstat => do return .rwstat (← Rwstat.deserialize tag)
  | _ => throw (.unsupportedType type_ tag)

def deserializeR (buf : Bytes) : Except DeserializeError (UInt16 × RMessage) := do
  let (type_, tag, buf) ← deserializeHeader buf
  let (m, _) ← (deserializeRBody type_ tag).run buf
  return (tag, m)

end NineWire.Wire
