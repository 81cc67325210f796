import NineWire.Client.Filesystem
import NineWire.Wire.De

/-! `ReadDir`: a directory listing on the client. It asks for as much as a
count can say, counts the bytes it gets and takes them for whole records. -/
namespace NineWire.Client
open NineWire.Wire NineWire.Server

structure ReadDir where
  offset : UInt64
  fid : UInt32
  buffer : List Stat

structure Listing (W P O : Type) where
  dir : ReadDir
  server : Session W P O

/-- The `while` loop of `next_entry`: the records it pushes, and the error it
ends with if one does not decode. A record takes two bytes at least, so as many
rounds as there are bytes are enough. -/
def yankStats : Nat → Bytes → List Stat × Option DeserializeError
  | 0, _ => ([], none)
  | rounds + 1, data =>
    if data.isEmpty then ([], none)
    else
      match (yankStat notag).run data with
      | .error e => ([], some e)
      | .ok (stat, rest) =>
        let (stats, e) := yankStats rounds rest
        (stat :: stats, e)

section ReadDir
variable {W P O : Type} (handler : Serve W P O)

def readDir (maxlen : Nat) (tag : UInt16) (fid : UInt32) :
    EStateM Failure (Session W P O) ReadDir := do
  let qid ← openFid handler maxlen tag fid
  if qid.type_ &&& qtdir ≠ qtdir then throw (.error "not a directory")
  else return { offset := 0, fid, buffer := [] }

def onServer {α : Type} (call : EStateM Failure (Session W P O) α) :
    EStateM Failure (Listing W P O) α := fun listing =>
  match call.run listing.server with
  | .ok a server => .ok a { listing with server }
  | .error e server => .error e { listing with server }

def popFront : EStateM Failure (Listing W P O) (Option Stat) := do
  let listing ← get
  match listing.dir.buffer with
  | [] => return none
  | stat :: buffer =>
    set { listing with dir := { listing.dir with buffer } }
    return some stat

def nextEntry (maxlen : Nat) (tag : UInt16) : EStateM Failure (Listing W P O) (Option Stat) := do
  match ← popFront with
  | some stat => return some stat
  | none =>
    let dir := (← get).dir
    let data ← onServer (readAt handler maxlen tag dir.fid 0xFFFFFFFF dir.offset)
    let (stats, e) := yankStats data.length data
    modify fun listing => { listing with
      dir := { dir with offset := dir.offset + UInt64.ofNat data.length, buffer := stats } }
    match e with
    | some e => throw (.error e.toString)
    | none => popFront

/-- Calling `next_entry` until it returns `None` yields these records, with
no error on the way. -/
inductive Lists (maxlen : Nat) (tag : UInt16) : Listing W P O → List Stat → Prop
  | done {listing listing' : Listing W P O}
      (hnext : (nextEntry handler maxlen tag).run listing = .ok none listing') :
      Lists maxlen tag listing []
  | entry {listing listing' : Listing W P O} {stat : Stat} {stats : List Stat}
      (hnext : (nextEntry handler maxlen tag).run listing = .ok (some stat) listing')
      (hrest : Lists maxlen tag listing' stats) : Lists maxlen tag listing (stat :: stats)

/-- A client that opens the directory behind `fid` and lists it receives
exactly these records. -/
def Receives (maxlen : Nat) (tag : UInt16) (server : Session W P O) (fid : UInt32)
    (stats : List Stat) : Prop :=
  ∃ dir server', (readDir handler maxlen tag fid).run server = .ok dir server' ∧
    Lists handler maxlen tag ⟨dir, server'⟩ stats

end ReadDir

end NineWire.Client
