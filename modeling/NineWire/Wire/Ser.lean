import NineWire.Codec
import NineWire.LittleEndian
import NineWire.Wire.Data

/-! Serialization of `npwire`: a growing `BytesMut` that every `put` appends
to, with the two stat sizes patched in afterwards. -/
namespace NineWire.Wire
open NineWire.Codec NineWire.LittleEndian

inductive SerializeError where
  | mk
  deriving DecidableEq

def SerializeError.toString : SerializeError → ByteString
  | .mk => "serialize error"

abbrev BytesMut := BufferM UInt8 SerializeError

def putSlice (bs : Bytes) : BytesMut Unit := modify (· ++ bs)
def putU8 (v : UInt8) : BytesMut Unit := putSlice [v]
def putU16Le (v : UInt16) : BytesMut Unit := putSlice (toLe 2 v.toNat)
def putU32Le (v : UInt32) : BytesMut Unit := putSlice (toLe 4 v.toNat)
def putU64Le (v : UInt64) : BytesMut Unit := putSlice (toLe 8 v.toNat)

def bufLen : BytesMut Nat := do return (← get).length

/-- `u16::try_from`, and its `u32` sibling. -/
def u16TryFrom (n : Nat) : BytesMut UInt16 :=
  if n < 2^16 then pure (UInt16.ofNat n) else throw .mk
def u32TryFrom (n : Nat) : BytesMut UInt32 :=
  if n < 2^32 then pure (UInt32.ofNat n) else throw .mk

/-- `buf[pos..pos+bs.len()].copy_from_slice(bs)`. -/
def copyFromSlice (pos : Nat) (bs : Bytes) : BytesMut Unit :=
  modify fun buf => buf.take pos ++ bs ++ buf.drop (pos + bs.length)

def Qid.toBytes (value : Qid) : Bytes :=
  [value.type_] ++ toLe 4 value.version.toNat ++ toLe 8 value.path.toNat

def putQid (qid : Qid) : BytesMut Unit := putSlice qid.toBytes

def putString (str : ByteString) : BytesMut Unit := do
  let len ← u16TryFrom (asBytes str).length
  putU16Le len
  putSlice (asBytes str)

/-- A two-byte length, reserved first and patched once `body` is written. -/
def putSized (body : BytesMut Unit) : BytesMut Unit := do
  let lenpos ← bufLen
  putU16Le 0
  let lenstart ← bufLen
  body
  let len ← u16TryFrom ((← bufLen) - lenstart)
  copyFromSlice lenpos (toLe 2 len.toNat)

def putStatFields (stat : Stat) : BytesMut Unit := do
  putU16Le stat.type_
  putU32Le stat.dev
  putQid stat.qid
  putU32Le stat.mode
  putU32Le stat.atime
  putU32Le stat.mtime
  putU64Le stat.length
  putString stat.name
  putString stat.uid
  putString stat.gid
  putString stat.muid

def putStat (stat : Stat) : BytesMut Unit := putSized (putStatFields stat)

/-- A `u32` count and that many bytes, as `Twrite`, `Rread` and `Rreads` carry. -/
def putData (data : Bytes) : BytesMut Unit := do
  let len ← u32TryFrom data.length
  putU32Le len
  putSlice data

/-- `BytesMut::new` to `freeze`: the type id, the tag, then the fields. -/
def freeze (type_ : TypeId) (tag : UInt16) (fields : BytesMut Unit) :
    Except SerializeError Bytes :=
  Prod.snd <$> StateT.run (do putU8 type_.toU8; putU16Le tag; fields) []

def Tversion.serialize (self : Tversion) (tag : UInt16) : Except SerializeError Bytes :=
  freeze .tversion tag do
    putU32Le self.msize
    putString self.version

def Tauth.serialize (self : Tauth) (tag : UInt16) : Except SerializeError Bytes :=
  freeze .tauth tag do
    putU32Le self.afid
    putString self.uname
    putString self.aname

def Tflush.serialize (self : Tflush) (tag : UInt16) : Except SerializeError Bytes :=
  freeze .tflush tag (putU16Le self.oldtag)

def Tattach.serialize (self : Tattach) (tag : UInt16) : Except SerializeError Bytes :=
  freeze .tattach tag do
    putU32Le self.fid
    putU32Le self.afid
    putString self.uname
    putString self.aname

def Twalk.serialize (self : Twalk) (tag : UInt16) : Except SerializeError Bytes :=
  freeze .twalk tag do
    putU32Le self.fid
    putU32Le self.newfid
    let nwname ← u16TryFrom self.wname.length
    putU16Le nwname
    self.wname.forM putString

def Topen.serialize (self : Topen) (tag : UInt16) : Except SerializeError Bytes :=
  freeze .topen tag do
    putU32Le self.fid
    putU8 self.mode

def Tcreate.serialize (self : Tcreate) (tag : UInt16) : Except SerializeError Bytes :=
  freeze .tcreate tag do
    putU32Le self.fid
    putString self.name
    putU32Le self.perm
    putU8 self.mode

def Tread.serialize (self : Tread) (tag : UInt16) : Except SerializeError Bytes :=
  freeze .tread tag do
    putU32Le self.fid
    putU64Le self.offset
    putU32Le self.count

/-- The type id written here is the one of `Tread`. -/
def Treads.serialize (self : Treads) (tag : UInt16) : Except SerializeError Bytes :=
  freeze .tread tag do
    putU32Le self.fid
    putU64Le self.offset
    putU32Le self.count

def Twrite.serialize (self : Twrite) (tag : UInt16) : Except SerializeError Bytes :=
  freeze .twrite tag do
    putU32Le self.fid
    putU64Le self.offset
    putData self.data

def Tclunk.serialize (self : Tclunk) (tag : UInt16) : Except SerializeError Bytes :=
  freeze .tclunk tag (putU32Le self.fid)

def Tremove.serialize (self : Tremove) (tag : UInt16) : Except SerializeError Bytes :=
  freeze .tremove tag (putU32Le self.fid)

def Tstat.serialize (self : Tstat) (tag : UInt16) : Except SerializeError Bytes :=
  freeze .tstat tag (putU32Le self.fid)

def Twstat.serialize (self : Twstat) (tag : UInt16) : Except SerializeError Bytes :=
  freeze .twstat tag do
    putU32Le self.fid
    putSized (putStat self.stat)

def TMessage.serialize (self : TMessage) (tag : UInt16) : Except SerializeError Bytes :=
  match self with
  | .treads m => m.serialize tag
  | .tversion m => m.serialize tag
  | .tauth m => m.serialize tag
  | .tflush m => m.serialize tag
  | .tattach m => m.serialize tag
  | .twalk m => m.serialize tag
  | .topen m => m.serialize tag
  | .tcreate m => m.serialize tag
  | .tread m => m.serialize tag
  | .twrite m => m.serialize tag
  | .tclunk m => m.serialize tag
  | .tremove m => m.serialize tag
  | .tstat m => m.serialize tag
  | .twstat m => m.serialize tag

def Rversion.serialize (self : Rversion) (tag : UInt16) : Except SerializeError Bytes :=
  freeze .rversion tag do
    putU32Le self.msize
    putString self.version

def Rflush.serialize (_self : Rflush) (tag : UInt16) : Except SerializeError Bytes :=
  freeze .rflush tag (pure ())

def Rwalk.serialize (self : Rwalk) (tag : UInt16) : Except SerializeError Bytes :=
  freeze .rwalk tag do
    let nwqid ← u16TryFrom self.wqid.length
    putU16Le nwqid
    self.wqid.forM putQid

def Rread.serialize (self : Rread) (tag : UInt16) : Except SerializeError Bytes :=
  freeze .rread tag (putData self.data)

def Rreads.serialize (self : Rreads) (tag : UInt16) : Except SerializeError Bytes :=
  freeze .rreads tag do
    putU64Le self.offset
    putData self.data

def Rwrite.serialize (self : Rwrite) (tag : UInt16) : Except SerializeError Bytes :=
  freeze .rwrite tag (putU32Le self.count)

def Rclunk.serialize (_self : Rclunk) (tag : UInt16) : Except SerializeError Bytes :=
  freeze .rclunk tag (pure ())

def Rremove.serialize (_self : Rremove) (tag : UInt16) : Except SerializeError Bytes :=
  freeze .rremove tag (pure ())

def Rauth.serialize (self : Rauth) (tag : UInt16) : Except SerializeError Bytes :=
  freeze .rauth tag (putQid self.aqid)

def Rattach.serialize (self : Rattach) (tag : UInt16) : Except SerializeError Bytes :=
  freeze .rattach tag (putQid self.qid)

def Ropen.serialize (self : Ropen) (tag : UInt16) : Except SerializeError Bytes :=
  freeze .ropen tag do
    putQid self.qid
    putU32Le self.iounit

def Rcreate.serialize (self : Rcreate) (tag : UInt16) : Except SerializeError Bytes :=
  freeze .rcreate tag do
    putQid self.qid
    putU32Le self.iounit

def Rstat.serialize (self : Rstat) (tag : UInt16) : Except SerializeError Bytes :=
  freeze .rstat tag (putSized (putStat self.stat))

def Rwstat.serialize (_self : Rwstat) (tag : UInt16) : Except SerializeError Bytes :=
  freeze .rwstat tag (pure ())

def Rerror.serialize (self : Rerror) (tag : UInt16) : Except SerializeError Bytes :=
  freeze .rerror tag (putString self.ename)

def RMessage.serialize (self : RMessage) (tag : UInt16) : Except SerializeError Bytes :=
  match self with
  | .rreads v => v.serialize tag
  | .rversion v => v.serialize tag
  | .rauth v => v.serialize tag
  | .rflush v => v.serialize tag
  | .rattach v => v.serialize tag
  | .rwalk v => v.serialize tag
  | .ropen v => v.serialize tag
  | .rcreate v => v.serialize tag
  | .rread v => v.serialize tag
  | .rwrite v => v.serialize tag
  | .rclunk v => v.serialize tag
  | .rremove v => v.serialize tag
  | .rstat v => v.serialize tag
  | .rwstat v => v.serialize tag
  | .rerror v => v.serialize tag

end NineWire.Wire
