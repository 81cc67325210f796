import Mathlib.Tactic.Common

/-! The 9P2000 vocabulary of `npwire`: type ids, qids, stats and the T- and
R-messages. Strings are UTF-8 by type, data blobs are byte lists. -/
namespace NineWire.Wire

abbrev Bytes := List UInt8
abbrev ByteString := String

/-- The UTF-8 bytes of a string, as they go on the wire. -/
def asBytes (s : ByteString) : Bytes := s.toUTF8.data.toList

inductive TypeId where
  -- 9P2000.w (bulk read extension)
  | treads | rreads
  -- 9P2000
  | tversion | rversion | tauth | rauth | tattach | rattach | rerror | tflush | rflush
  | twalk | rwalk | topen | ropen | tcreate | rcreate | tread | rread | twrite | rwrite
  | tclunk | rclunk | tremove | rremove | tstat | rstat | twstat | rwstat
  deriving DecidableEq

def TypeId.toU8 : TypeId → UInt8
  | .treads => 30 | .rreads => 31
  | .tversion => 100 | .rversion => 101
  | .tauth => 102 | .rauth => 103
  | .tattach => 104 | .rattach => 105
  | .rerror => 107
  | .tflush => 108 | .rflush => 109
  | .twalk => 110 | .rwalk => 111
  | .topen => 112 | .ropen => 113
  | .tcreate => 114 | .rcreate => 115
  | .tread => 116 | .rread => 117
  | .twrite => 118 | .rwrite => 119
  | .tclunk => 120 | .rclunk => 121
  | .tremove => 122 | .rremove => 123
  | .tstat => 124 | .rstat => 125
  | .twstat => 126 | .rwstat => 127

/-- `TypeId::try_from`; 106 (Terror) is illegal and absent. -/
def TypeId.tryFrom : UInt8 → Option TypeId
  | 30 => some .treads | 31 => some .rreads
  | 100 => some .tversion | 101 => some .rversion
  | 102 => some .tauth | 103 => some .rauth
  | 104 => some .tattach | 105 => some .rattach
  | 107 => some .rerror
  | 108 => some .tflush | 109 => some .rflush
  | 110 => some .twalk | 111 => some .rwalk
  | 112 => some .topen | 113 => some .ropen
  | 114 => some .tcreate | 115 => some .rcreate
  | 116 => some .tread | 117 => some .rread
  | 118 => some .twrite | 119 => some .rwrite
  | 120 => some .tclunk | 121 => some .rclunk
  | 122 => some .tremove | 123 => some .rremove
  | 124 => some .tstat | 125 => some .rstat
  | 126 => some .twstat | 127 => some .rwstat
  | _ => none

theorem TypeId.tryFrom_toU8 (ty : TypeId) : TypeId.tryFrom ty.toU8 = some ty := by
  cases ty <;> rfl

/-- The derived `Debug` name, which error texts quote. -/
def TypeId.debug : TypeId → ByteString
  | .treads => "Treads" | .rreads => "Rreads"
  | .tversion => "Tversion" | .rversion => "Rversion"
  | .tauth => "Tauth" | .rauth => "Rauth"
  | .tattach => "Tattach" | .rattach => "Rattach"
  | .rerror => "Rerror"
  | .tflush => "Tflush" | .rflush => "Rflush"
  | .twalk => "Twalk" | .rwalk => "Rwalk"
  | .topen => "Topen" | .ropen => "Ropen"
  | .tcreate => "Tcreate" | .rcreate => "Rcreate"
  | .tread => "Tread" | .rread => "Rread"
  | .twrite => "Twrite" | .rwrite => "Rwrite"
  | .tclunk => "Tclunk" | .rclunk => "Rclunk"
  | .tremove => "Tremove" | .rremove => "Rremove"
  | .tstat => "Tstat" | .rstat => "Rstat"
  | .twstat => "Twstat" | .rwstat => "Rwstat"

def rreadOverhead : Nat := 7
def twriteOverhead : Nat := 19

def qtdir : UInt8 := 0x80
def qtfile : UInt8 := 0x00
def dmdir : UInt32 := 0x80000000

structure Qid where
  type_ : UInt8
  version : UInt32
  path : UInt64
  deriving DecidableEq

structure Stat where
  type_ : UInt16
  dev : UInt32
  qid : Qid
  mode : UInt32
  atime : UInt32
  mtime : UInt32
  length : UInt64
  name : ByteString
  uid : ByteString
  gid : ByteString
  muid : ByteString
  deriving DecidableEq

structure Tversion where
  msize : UInt32
  version : ByteString
  deriving DecidableEq

structure Rversion where
  msize : UInt32
  version : ByteString
  deriving DecidableEq

structure Tauth where
  afid : UInt32
  uname : ByteString
  aname : ByteString
  deriving DecidableEq

structure Rauth where
  aqid : Qid
  deriving DecidableEq

structure Rerror where
  ename : ByteString
  deriving DecidableEq

structure Tflush where
  oldtag : UInt16
  deriving DecidableEq

structure Rflush where
  deriving DecidableEq

structure Tattach where
  fid : UInt32
  afid : UInt32
  uname : ByteString
  aname : ByteString
  deriving DecidableEq

structure Rattach where
  qid : Qid
  deriving DecidableEq

structure Twalk where
  fid : UInt32
  newfid : UInt32
  wname : List ByteString
  deriving DecidableEq

structure Rwalk where
  wqid : List Qid
  deriving DecidableEq

structure Topen where
  fid : UInt32
  mode : UInt8
  deriving DecidableEq

structure Ropen where
  qid : Qid
  iounit : UInt32
  deriving DecidableEq

structure Tcreate where
  fid : UInt32
  name : ByteString
  perm : UInt32
  mode : UInt8
  deriving DecidableEq

structure Rcreate where
  qid : Qid
  iounit : UInt32
  deriving DecidableEq

structure Tread where
  fid : UInt32
  offset : UInt64
  count : UInt32
  deriving DecidableEq

structure Rread where
  data : Bytes
  deriving DecidableEq

structure Treads where
  fid : UInt32
  offset : UInt64
  count : UInt32
  deriving DecidableEq

structure Rreads where
  offset : UInt64
  data : Bytes
  deriving DecidableEq

structure Twrite where
  fid : UInt32
  offset : UInt64
  data : Bytes
  deriving DecidableEq

structure Rwrite where
  count : UInt32
  deriving DecidableEq

structure Tclunk where
  fid : UInt32
  deriving DecidableEq

structure Rclunk where
  deriving DecidableEq

structure Tremove where
  fid : UInt32
  deriving DecidableEq

structure Rremove where
  deriving DecidableEq

structure Tstat where
  fid : UInt32
  deriving DecidableEq

structure Rstat where
  stat : Stat
  deriving DecidableEq

structure Twstat where
  fid : UInt32
  stat : Stat
  deriving DecidableEq

structure Rwstat where
  deriving DecidableEq

inductive TMessage where
  | treads (m : Treads)
  | tversion (m : Tversion)
  | tauth (m : Tauth)
  | tflush (m : Tflush)
  | tattach (m : Tattach)
  | twalk (m : Twalk)
  | topen (m : Topen)
  | tcreate (m : Tcreate)
  | tread (m : Tread)
  | twrite (m : Twrite)
  | tclunk (m : Tclunk)
  | tremove (m : Tremove)
  | tstat (m : Tstat)
  | twstat (m : Twstat)
  deriving DecidableEq

inductive RMessage where
  | rreads (m : Rreads)
  | rversion (m : Rversion)
  | rauth (m : Rauth)
  | rerror (m : Rerror)
  | rflush (m : Rflush)
  | rattach (m : Rattach)
  | rwalk (m : Rwalk)
  | ropen (m : Ropen)
  | rcreate (m : Rcreate)
  | rread (m : Rread)
  | rwrite (m : Rwrite)
  | rclunk (m : Rclunk)
  | rremove (m : Rremove)
  | rstat (m : Rstat)
  | rwstat (m : Rwstat)
  deriving DecidableEq

end NineWire.Wire
