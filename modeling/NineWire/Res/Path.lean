import NineWire.Res.Open

/-! `PathResource`: where a fid that is not open stands, and how a walk moves
it. Then the whole server as a `Serve`. -/
namespace NineWire.Res
open NineWire.Wire NineWire.Server NineWire.Os

inductive PathInner where
  | root
  | rpc
  | onShare (share : ByteString) (rem : List ByteString)
  deriving DecidableEq

structure PathResource where
  handler : Config
  session : Session
  qid : Qid
  inner : PathInner

def PathResource.root (handler : Config) (session : Session) : PathResource :=
  { handler, session, qid := rootQid, inner := .root }

def PathResource.name (self : PathResource) : ByteString :=
  match self.inner with
  | .root => "/"
  | .rpc => "rpc"
  | .onShare share rem => rem.getLast?.getD share

def PathResource.realPath (self : PathResource) : Option Path :=
  match self.inner with
  | .root | .rpc => none
  | .onShare share rem =>
    (self.handler.shares.get share).map fun mpath => mpath.push (Path.collect (rem.map asBytes))

/-- `self.real_path().unwrap()`. -/
def PathResource.realPathUnwrap (self : PathResource) : Call World Path :=
  match self.realPath with
  | some path => pure path
  | none => throw .panic

def PathResource.walkOne (self : PathResource) (component : ByteString) :
    Call World PathResource := do
  if component = ".." then
    match self.inner with
    | .root | .rpc => return { self with inner := .root, qid := rootQid }
    | .onShare share rem =>
      if rem.isEmpty then return { self with inner := .root, qid := rootQid }
      else do
        let self := { self with inner := .onShare share rem.dropLast }
        let meta_ ← metadata (← self.realPathUnwrap)
        return { self with qid := Res.qid meta_ }
  else
    match self.inner with
    | .root =>
      if component = "rpc" then return { self with inner := .rpc, qid := rpcQid }
      else if (self.handler.shares.get component).isSome then do
        let self := { self with inner := .onShare component [] }
        let meta_ ← metadata (← self.realPathUnwrap)
        return { self with qid := Res.qid meta_ }
      else bail "No such file or directory"
    | .rpc => bail "No such file or directory"
    | .onShare share rem => do
      let self := { self with inner := .onShare share (rem ++ [component]) }
      let meta_ ← symlinkMetadata (← self.realPathUnwrap)
      if meta_.isSymlink then bail "No such file or directory"
      else return { self with qid := Res.qid meta_ }

/-- The loop of `walk`. The qid of the last component is left to the caller;
an error after the first qid ends the walk without a new resource. -/
def PathResource.walkFrom (wqid : List Qid) :
    List ByteString → PathResource → Call World (List Qid × Option PathResource)
  | [], path => return (wqid, some path)
  | component :: wname, path => do
    let walked ← tryCatch (some <$> path.walkOne component) fun e =>
      -- a panic is not caught, and neither is an error before the first qid
      if e = .panic ∨ wqid = [] then throw e else pure none
    match walked with
    | some path => walkFrom (if wname = [] then wqid else wqid ++ [path.qid]) wname path
    | none => return (wqid, none)

def PathResource.walk (self : PathResource) (wname : List ByteString) :
    Call World (List Qid × Option PathResource) :=
  walkFrom [] wname self

def PathResource.remove (_ : PathResource) : Call World Unit := bail "permission denied"

def PathResource.stat (self : PathResource) : Call World Stat := do
  match self.inner with
  | .root => return rootStat self.session
  | .rpc => return rpcStat self.session
  | .onShare _ _ => return Res.stat self.session self.name (← metadata (← self.realPathUnwrap))

def PathResource.wstat (self : PathResource) (stat : Stat) : Call World Unit :=
  match self.inner with
  | .rpc =>
    if stat.type_ = 0xFFFF && stat.dev = 0xFFFFFFFF && untouched stat then pure ()
    else bail "permission denied"
  | .root | .onShare _ _ => bail "permission denied"

def PathResource.create (_ : PathResource) (_ : ByteString) (_ : UInt32) (_ : UInt8) :
    Call World OpenResource := bail "permission denied"

def PathResource.open_ (self : PathResource) (mode : UInt8) : Call World OpenResource := do
  match self.inner with
  | .root =>
    -- read only
    if mode ≠ 0 then bail "permission denied"
    else OpenResource.root self.handler self.session
  | .rpc =>
    -- may not execute
    if mode &&& 3 = 3 then bail "permission denied"
    else return OpenResource.rpc self.handler self.session
  | .onShare _ _ =>
    if mode ≠ 0 then bail "permission denied"
    else OpenResource.new self.handler self.session self.name (← self.realPathUnwrap) self.qid

/-- `attach`, with `fetch_add` on the session counter. -/
def attach (config : Config) (ares : Option OpenResource) (uname aname : ByteString) :
    Call World PathResource := do
  if ares.isSome then bail "permission denied"
  else if !aname.isEmpty then bail "No such file or directory"
  else do
    let world ← get
    set { world with sessionCtr := world.sessionCtr + 1 }
    return PathResource.root config { id := world.sessionCtr, uname }

/-- `impl Serve for Handler`. -/
def handler (config : Config) : Serve World PathResource OpenResource where
  pathQid := PathResource.qid
  pathRemove := PathResource.remove
  pathStat := PathResource.stat
  pathWstat := PathResource.wstat
  walk := PathResource.walk
  open_ := PathResource.open_
  create := PathResource.create
  openQid := OpenResource.qid
  openRemove := OpenResource.remove
  openStat := OpenResource.stat
  openWstat := OpenResource.wstat
  read := OpenResource.read
  write := OpenResource.write
  auth _ _ := bail "Function not implemented"
  attach := attach config

def mainConfig : Config where
  shares := ⟨[("forfun", asBytes "forfun"), ("ff2", asBytes "forfun")], by decide⟩

end NineWire.Res
