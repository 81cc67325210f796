import NineWire.Client.Filesystem

/-! `Directory` and `File`: what each operation sends, and what it makes of the
reply. An operation that waits keeps a `Goal`. -/
namespace NineWire.Client
open NineWire.Wire NineWire.Server

inductive Kind where
  | directory
  | file
  | readDir
  deriving DecidableEq

/-- The operation that waits for a reply, with its locals. -/
inductive Goal where
  | attach
  | openDirAt (src : UInt32) (nc : Nat) (wname : List ByteString) (wqid : List Qid)
  | openAt (nc : Nat)
  | openAtOpen (wqid : List Qid)
  | readDir
  deriving DecidableEq

/-- How an operation goes on: it returns a handle of some kind, fails, or sends
another request. -/
inductive Outcome where
  | done (kind : Kind)
  | fails (e : Failure)
  | request (message : TMessage) (goal : Goal)

def maxWElem : Nat := 16

def components (path : String) : List ByteString :=
  (path.splitOn "/").filter fun c => !(c.isEmpty || c = ".")

def isDir (qid : Qid) : Bool := qid.type_ &&& qtdir = qtdir

def attach (uname aname : ByteString) (fid : UInt32) : Outcome :=
  .request (.tattach ⟨fid, nofid, uname, aname⟩) .attach

/-- The body of the loop of `open_dir_at`, up to its await. -/
def walkDir (src fid : UInt32) (wname : List ByteString) (wqid : List Qid) : Outcome :=
  let nc := min wname.length maxWElem
  .request (.twalk ⟨src, fid, wname.take nc⟩) (.openDirAt src nc (wname.drop nc) wqid)

def openDirAt (src : UInt32) (path : String) (fid : UInt32) : Outcome :=
  walkDir src fid (components path) []

def openAt (src : UInt32) (path : String) (fid : UInt32) : Outcome :=
  let wname := components path
  if wname.isEmpty then .fails (.error "is a directory")
  else .request (.twalk ⟨src, fid, wname⟩) (.openAt wname.length)

/-- `fid` is that of the directory, which becomes that of the file. -/
def openReadDir (fid : UInt32) : Outcome := .request (.topen ⟨fid, 0⟩) .readDir

/-- The reply to a walk of `nc` names, checked as both walks check it. -/
def walked (nc : Nat) (wqid : List Qid) (k : Outcome) : Outcome :=
  if wqid.length < nc then .fails (.error "entity not found")
  else if nc < wqid.length then .fails (.error "invalid response from server")
  else k

def Goal.next (fid : UInt32) : Goal → RMessage → Outcome
  | _, .rerror ⟨ename⟩ => .fails (.error ename)
  | .attach, .rattach ⟨qid⟩ =>
    if isDir qid then .done .directory else .fails (.error "not a directory")
  | .openDirAt src nc wname wqid, .rwalk ⟨wqidSub⟩ =>
    walked nc wqidSub <|
      let wqid := wqid ++ wqidSub
      if wname.isEmpty then
        if wqid.getLast?.any (!isDir ·) then .fails (.error "not a directory") else .done .directory
      else walkDir src fid wname wqid
  | .openAt nc, .rwalk ⟨wqid⟩ =>
    walked nc wqid <|
      match wqid.getLast? with
      | some qid =>
        if isDir qid then .fails (.error "is a directory")
        else .request (.topen ⟨fid, 0⟩) (.openAtOpen wqid)
      | none => .fails .panicked
  -- the assertion that the walk and the open name the same file
  | .openAtOpen wqid, .ropen ⟨qid, _⟩ =>
    if wqid.getLast? = some qid then .done .file else .fails .panicked
  | .readDir, .ropen ⟨qid, _⟩ =>
    if isDir qid then .done .readDir else .fails (.error "not a directory")
  | _, _ => .fails (.error "unexpected message type")

end NineWire.Client
