import NineWire.Res.World

/-! `OpenResource`: what an opened fid reads. A directory is listed as the
concatenation of its stat records, cut between two records to fit the count,
and only from where the last read stopped. -/
namespace NineWire.Res
open NineWire.Wire NineWire.Server NineWire.Os

/-- What is open. `root` and `dir` carry the number of their mutex. -/
inductive OpenInner where
  | root (dirState : Nat)
  | file (file : Nat)
  | dir (path : Path) (dirState : Nat)
  | rpc
  deriving DecidableEq

structure OpenResource where
  handler : Config
  session : Session
  qid : Qid
  name : ByteString
  inner : OpenInner

def newMutex : Call World Nat := do
  let world ← get
  set { world with
    opened := world.opened + 1
    roots := fun n => if n = world.opened then {} else world.roots n
    dirs := fun n => if n = world.opened then {} else world.dirs n }
  return world.opened

def OpenResource.root (handler : Config) (session : Session) : Call World OpenResource := do
  return { handler, session, qid := rootQid, name := "/", inner := .root (← newMutex) }

def OpenResource.rpc (handler : Config) (session : Session) : OpenResource :=
  { handler, session, qid := rpcQid, name := "rpc", inner := .rpc }

def OpenResource.new (handler : Config) (session : Session) (name : ByteString) (path : Path)
    (qid : Qid) : Call World OpenResource := do
  if qid.type_ &&& qtdir = qtdir then
    return { handler, session, qid, name, inner := .dir path (← newMutex) }
  else
    return { handler, session, qid, name, inner := .file (← openFile path) }

def setRoot (n : Nat) (state : RootState) : Call World Unit :=
  modify fun world => { world with roots := fun k => if k = n then state else world.roots k }

def setDir (n : Nat) (state : DirState) : Call World Unit :=
  modify fun world => { world with dirs := fun k => if k = n then state else world.dirs k }

/-- The `while let` loop of both listings: append records while they fit,
`remove` each from the entries still to come once it is in. -/
def fill {α : Type} (record : α → Call World Stat) (remove : List α → Call World Unit)
    (count : Nat) : List α → Bytes → Call World Bytes
  | [], buf => return buf
  | entry :: rem, buf => do
    let stat ← record entry
    match (putStat stat).run buf with
    | .error e => bail e.toString
    | .ok ((), out) =>
      if count < out.length then return buf
      else do
        remove rem
        fill record remove count rem out

/-- The rest of both reads: the records that fit, and the offset they end at.
`lock` and `store` are the state behind the mutex. -/
def take {α : Type} (lock : World → ListState α) (store : ListState α → Call World Unit)
    (record : α → Call World Stat) (count : UInt32) : Call World Bytes := do
  let state := lock (← get)
  let buf ← fill record (fun rem => store { state with rem }) count.toNat state.rem []
  let state := lock (← get)
  store { state with lastOffset := state.lastOffset + UInt64.ofNat buf.length }
  return buf

/-- The entries of a listing: links and names that are no UTF-8 are left out. -/
def listed (dents : List DirEntry) : List (ByteString × Metadata) :=
  dents.filterMap fun dent =>
    if dent.metadata.isSymlink then none
    else (String.fromUTF8? ⟨dent.fileName.toArray⟩).map fun name => (name, dent.metadata)

/-- Start over at offset 0, or go on where the last read stopped. -/
def seekDir (path : Path) (n : Nat) (offset : UInt64) : Call World Unit := do
  let state := (← get).dirs n
  if offset = 0 then do
    setDir n { state with rem := [] }
    setDir n { state with rem := listed (← readDir path) }
  else if offset ≠ state.lastOffset then bail "Invalid argument"
  else pure ()

def readDirState (session : Session) (path : Path) (n : Nat) (offset : UInt64) (count : UInt32) :
    Call World Bytes := do
  seekDir path n offset
  take (fun world => world.dirs n) (setDir n)
    (fun (name, meta_) => pure (stat session name meta_)) count

/-- The record of a name in the root; `shares[&name]` panics on a name that is
no share. -/
def rootRecord (handler : Config) (session : Session) (name : ByteString) : Call World Stat := do
  if name = "rpc" then return rpcStat session
  else
    match handler.shares.get name with
    | some path => return stat session name (← metadata path)
    | none => throw .panic

def seekRoot (handler : Config) (n : Nat) (offset : UInt64) : Call World Unit := do
  let state := (← get).roots n
  if offset = 0 then setRoot n { rem := "rpc" :: handler.shares.keys, lastOffset := 0 }
  else if offset ≠ state.lastOffset then bail "Invalid offset for root directory read"
  else pure ()

def readRootState (handler : Config) (session : Session) (n : Nat) (offset : UInt64)
    (count : UInt32) : Call World Bytes := do
  seekRoot handler n offset
  take (fun world => world.roots n) (setRoot n) (rootRecord handler session) count

def OpenResource.remove (_ : OpenResource) : Call World Unit := bail "Function not implemented"

def OpenResource.stat (self : OpenResource) : Call World Stat := do
  match self.inner with
  | .root _ => return rootStat self.session
  | .file file => return Res.stat self.session self.name (← syscall fun fs => fs.fileMetadata file)
  | .dir path _ => return Res.stat self.session self.name (← metadata path)
  | .rpc => return rpcStat self.session

/-- The fields a `Twstat` of an open `rpc` must leave alone. -/
def untouched (stat : Stat) : Bool :=
  stat.qid.type_ = 0xFF && stat.qid.version = 0xFFFFFFFF && stat.qid.path = 0xFFFFFFFFFFFFFFFF &&
    stat.mode = 0xFFFFFFFF && stat.name.isEmpty && stat.uid.isEmpty && stat.gid.isEmpty &&
    stat.muid.isEmpty

def OpenResource.wstat (self : OpenResource) (stat : Stat) : Call World Unit :=
  match self.inner with
  | .rpc => if untouched stat then pure () else bail "permission denied"
  | _ => bail "permission denied"

def OpenResource.read (self : OpenResource) (offset : UInt64) (count : UInt32) :
    Call World Bytes := do
  match self.inner with
  | .file file => return (← syscall fun fs => fs.readAt file offset count).take count.toNat
  | .dir path n => readDirState self.session path n offset count
  | .root n => readRootState self.handler self.session n offset count
  -- `tokio::io::empty()`
  | .rpc => return []

def OpenResource.write (self : OpenResource) (_ : UInt64) (data : Bytes) : Call World UInt32 :=
  match self.inner with
  | .file _ | .dir _ _ | .root _ => bail "fid not open for write"
  | .rpc =>
    if data.length < 2^32 then pure (UInt32.ofNat data.length)
    else bail "out of range integral type conversion attempted"

end NineWire.Res
