import NineWire.Os.Fs
import NineWire.Server.Traits
import NineWire.Wire.Ser

/-! What the resources of the server share: the configured shares, the
sessions, the state behind the mutexes of open directories, and the operating
system. Then the qids and stats they answer with. -/
namespace NineWire.Res
open NineWire.Wire NineWire.Server NineWire.Os

/-- `HashMap<Arc<str>, PathBuf>`: no key twice, in the order its iterator
happens to have. -/
structure ShareTable where
  entries : List (ByteString × Path)
  nodup : (entries.map Prod.fst).Nodup

def ShareTable.get (shares : ShareTable) (share : ByteString) : Option Path :=
  shares.entries.lookup share

def ShareTable.keys (shares : ShareTable) : List ByteString := shares.entries.map Prod.fst

theorem ShareTable.mem_of_get {shares : ShareTable} {share : ByteString} {path : Path}
    (h : shares.get share = some path) : (share, path) ∈ shares.entries := by
  obtain ⟨before, after, heq, -⟩ := List.lookup_eq_some_iff.mp h
  simp [heq]

structure Config where
  shares : ShareTable

structure Session where
  id : UInt64
  uname : ByteString

/-- The entries of a listing that are still to come, and where it stopped. -/
structure ListState (α : Type) where
  rem : List α := []
  lastOffset : UInt64 := 0

abbrev RootState := ListState ByteString
abbrev DirState := ListState (ByteString × Metadata)

/-- The state every call may touch. `fs` is the file system as the calls find
it one after the other, so that it may change between any two of them;
`accessed` lists the paths handed to it. Open directories name their mutex by
a number below `opened`. -/
structure World where
  fs : Nat → Fs
  clock : Nat := 0
  accessed : List Path := []
  roots : Nat → RootState := fun _ => {}
  dirs : Nat → DirState := fun _ => {}
  opened : Nat := 0
  sessionCtr : UInt64 := 1

def syscall {α : Type} (call : Fs → Except String α) : Call World α := do
  let world ← get
  set { world with clock := world.clock + 1 }
  match call (world.fs world.clock) with
  | .ok a => return a
  | .error text => throw (.err text)

def access {α : Type} (call : Fs → Path → Except String α) (path : Path) : Call World α := do
  modify fun world => { world with accessed := path :: world.accessed }
  syscall fun fs => call fs path

def metadata : Path → Call World Metadata := access Fs.metadata
def symlinkMetadata : Path → Call World Metadata := access Fs.symlinkMetadata
def readDir : Path → Call World (List DirEntry) := access Fs.readDir
def openFile : Path → Call World Nat := access Fs.openFile

/-- `bail!`. -/
def bail {α : Type} (text : String) : Call World α := throw (.err text)

def inode (meta_ : Metadata) : UInt64 := meta_.ino

def qid (meta_ : Metadata) : Qid where
  type_ := if meta_.isDir then qtdir else qtfile
  version := 0
  path := inode meta_

def stat (session : Session) (name : ByteString) (meta_ : Metadata) : Stat where
  type_ := 0
  dev := 0
  qid := qid meta_
  mode := if meta_.isDir then dmdir ||| 0o555 else 0o444
  atime := 0
  mtime := 0
  length := if meta_.isDir then 0 else meta_.len
  name := name
  uid := session.uname
  gid := session.uname
  muid := session.uname

def rootQid : Qid := ⟨qtdir, 0, 0⟩
def rpcQid : Qid := ⟨qtfile, 0, 0xFFFFFFFFFFFFFFFF⟩

def rootStat (session : Session) : Stat where
  type_ := 0
  dev := 0
  qid := rootQid
  mode := dmdir ||| 0o555
  atime := 0
  mtime := 0
  length := 0
  name := "/"
  uid := session.uname
  gid := session.uname
  muid := session.uname

def rpcStat (session : Session) : Stat where
  type_ := 0
  dev := 0
  qid := rpcQid
  mode := 0o600
  atime := 0
  mtime := 0
  length := 0
  name := "rpc"
  uid := session.uname
  gid := session.uname
  muid := session.uname

end NineWire.Res
