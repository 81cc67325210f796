import NineWire.Os.Path

/-! The file system as a process finds it: what each call would answer at one
moment. Errors are kept as the text they print. -/
namespace NineWire.Os

inductive FileType where
  | file | dir | symlink | other
  deriving DecidableEq

structure Metadata where
  fileType : FileType
  len : UInt64
  ino : UInt64
  deriving DecidableEq

def Metadata.isDir (meta_ : Metadata) : Bool := meta_.fileType = .dir
def Metadata.isSymlink (meta_ : Metadata) : Bool := meta_.fileType = .symlink

/-- A directory entry, with what its own metadata says: links are not followed. -/
structure DirEntry where
  fileName : Path
  metadata : Metadata

structure Fs where
  /-- Follows a link in the last position. -/
  metadata : Path → Except String Metadata
  symlinkMetadata : Path → Except String Metadata
  /-- All entries, or the first failure on the way. -/
  readDir : Path → Except String (List DirEntry)
  /-- Opening answers with a descriptor for the calls below. -/
  openFile : Path → Except String Nat
  fileMetadata : Nat → Except String Metadata
  /-- At most `count` bytes from `offset` on. -/
  readAt : Nat → UInt64 → UInt32 → Except String (List UInt8)

def IsLink (fs : Nat → Fs) (path : Path) : Prop :=
  ∀ n, ∃ meta_, (fs n).symlinkMetadata path = .ok meta_ ∧ meta_.isSymlink

def Fs.flat (dents : List DirEntry) : Fs where
  metadata _ := .ok ⟨.dir, 4096, 2⟩
  symlinkMetadata _ := .ok ⟨.dir, 4096, 2⟩
  readDir _ := .ok dents
  openFile _ := .error "Is a directory (os error 21)"
  fileMetadata _ := .error "Bad file descriptor (os error 9)"
  readAt _ _ _ := .error "Bad file descriptor (os error 9)"

end NineWire.Os
