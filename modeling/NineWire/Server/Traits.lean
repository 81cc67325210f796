import NineWire.Wire.Data

/-! The `Serve`, `PathResource` and `OpenResource` traits. `W` is whatever the
implementation shares between calls: the file system, cursors, counters. -/
namespace NineWire.Server
open NineWire.Wire

inductive Abort where
  | err (text : ByteString)
  | panic
  deriving DecidableEq

/-- An awaited call. What it did to the shared state stays done when it fails. -/
abbrev Call (W α : Type) := EStateM Abort W α

structure Serve (W P O : Type) where
  pathQid : P → Qid
  pathRemove : P → Call W Unit
  pathStat : P → Call W Stat
  pathWstat : P → Stat → Call W Unit
  walk : P → List ByteString → Call W (List Qid × Option P)
  open_ : P → UInt8 → Call W O
  create : P → ByteString → UInt32 → UInt8 → Call W O
  openQid : O → Qid
  openRemove : O → Call W Unit
  openStat : O → Call W Stat
  openWstat : O → Stat → Call W Unit
  read : O → UInt64 → UInt32 → Call W Bytes
  write : O → UInt64 → Bytes → Call W UInt32
  auth : ByteString → ByteString → Call W O
  attach : Option O → ByteString → ByteString → Call W P

inductive Resource (P O : Type) where
  | path (res : P)
  | open_ (res : O)

abbrev FidTable (P O : Type) := UInt32 → Option (Resource P O)

/-- `!0` as a fid and as a tag. -/
def nofid : UInt32 := 0xFFFFFFFF
def notag : UInt16 := 0xFFFF

structure ResourceManager (W P O : Type) where
  resources : FidTable P O
  world : W

/-- A server with nothing to serve. What `dispatch` and the loop do by
themselves can be run over it. -/
def Serve.nothing : Serve Unit Empty Empty where
  pathQid := nofun
  pathRemove := nofun
  pathStat := nofun
  pathWstat := nofun
  walk := nofun
  open_ := nofun
  create := nofun
  openQid := nofun
  openRemove := nofun
  openStat := nofun
  openWstat := nofun
  read := nofun
  write := nofun
  auth _ _ := throw (.err "Permission denied")
  attach _ _ _ := throw (.err "Permission denied")

end NineWire.Server
