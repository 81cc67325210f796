import NineWire.Client.Directory
import NineWire.Client.Exchange
import NineWire.Client.Negotiation
import NineWire.Client.Requests
import NineWire.Res.Walk
import NineWire.Split
import NineWire.Util.FidPool

/-! `open_dir_at` end to end. A path goes out in Twalks of at most sixteen
names, and each of them walks from the fid it was called on to the new fid. -/
namespace NineWire.Client
open NineWire.Wire NineWire.Os NineWire.Server NineWire.Res NineWire.Stateful NineWire.Transition
open NineWire.Util (FidPool)

section Driver
variable {W P O : Type} (handler : Serve W P O) (refuses : Nat → Option ByteString)

/-- `transact` over a transport that refuses to send datagrams of some lengths,
each with an error. -/
def transactOver (maxlen : Nat) (tag : UInt16) (message : TMessage) :
    EStateM Failure (Session W P O) RMessage :=
  match (requestData maxlen tag message).bind fun data => refuses data.length with
  | some text => throw (.error text)
  | none => transact handler maxlen tag message

def drive (maxlen : Nat) (tag : UInt16) (fid : UInt32) :
    Nat → Outcome → EStateM Failure (Session W P O) Kind
  | _, .done kind => return kind
  | _, .fails e => throw e
  | 0, .request _ _ => throw .noReply
  | rounds + 1, .request message goal => do
    let resp ← transactOver handler refuses maxlen tag message
    drive maxlen tag fid rounds (goal.next fid resp)

/-- `open_dir_at` with `fid` from `get_fid`. Each round but the last takes names
off the path, so there are no more than this. -/
def openDir (maxlen : Nat) (tag : UInt16) (src fid : UInt32) (path : String) :
    EStateM Failure (Session W P O) Kind :=
  drive handler refuses maxlen tag fid ((components path).length + 1) (openDirAt src path fid)

end Driver

def nextWalk (src fid : UInt32) (wname : List ByteString) : TMessage :=
  .twalk ⟨src, fid, wname.take maxWElem⟩

def Takes (refuses : Nat → Option ByteString) : Prop :=
  ∀ n ≤ Server.maxMessageSize, refuses n = none

/-- The transport takes the request, but the server's buffer does not. -/
structure Lost (refuses : Nat → Option ByteString) (message : TMessage) : Prop where
  encodable : message.Encodable
  long : Server.maxMessageSize < message.len
  taken : refuses message.len = none

def Terse (fs : Fs) : Prop := ∀ text, Fs.Says fs text → (asBytes text).length ≤ 1000

def ReturnsError {σ α : Type} (call : EStateM Failure σ α) (s : σ) : Prop :=
  ∃ text s', call.run s = .error (.error text) s'

section Driver
variable {W P O : Type} {handler : Serve W P O} {refuses : Nat → Option ByteString}
  {server server' : Session W P O} {mgr : ResourceManager W P O} {maxlen : Nat} {tag : UInt16}
  {m : Twalk} {resp : RMessage}

theorem transactOver_taken {message : TMessage} {data : Bytes}
    (hdata : requestData maxlen tag message = some data) (htaken : refuses data.length = none) :
    transactOver handler refuses maxlen tag message = transact handler maxlen tag message := by
  simp only [transactOver, hdata, Option.bind_some, htaken]

theorem twalk_answered (maxlen : Nat) (tag : UInt16) (htakes : Takes refuses) (hidle : Idle server)
    (hlen : (TMessage.twalk m).len ≤ Server.maxMessageSize)
    (hcompletes : Completes handler server.mgr (.dispatch (.twalk m)) resp mgr)
    (hresp : resp.Is9P2000) (hencodable : resp.Encodable) (hfits : resp.len ≤ maxMessageSize) :
    ∃ server', (transactOver handler refuses maxlen tag (.twalk m)).run server = .ok resp server' ∧
      Idle server' ∧ server'.mgr = mgr := by
  have hencodable' := twalk_encodable (hlen.trans_lt (by decide))
  have hbounded : bounded maxlen (.twalk m) = some (.twalk m) := rfl
  obtain ⟨data, hdata, hdatalen⟩ := requestData_length tag hbounded
  rw [if_pos hencodable'] at hdatalen
  have htaken : refuses data.length = none := htakes _ (hdatalen ▸ hlen)
  obtain ⟨bytes, hser⟩ := (TMessage.twalk m).serialize_isOk tag hencodable'
  have hbytes := (TMessage.twalk m).serialize_length hser
  rw [transactOver_taken hdata htaken]
  exact transact_reply hidle trivial rfl trivial hser (hbytes ▸ hlen) hcompletes hresp hencodable
    hfits

/-- In place of a request that does not serialize goes one of a type that no
request has. -/
theorem requestData_unencodable {message : TMessage} (tag : UInt16)
    (hbounded : bounded maxlen message = some message) (hnot : ¬message.Encodable) :
    ∃ data, requestData maxlen tag message = some data ∧ data.length = serializeErrorLen ∧
      deserializeT data = .error (.unsupportedType .rerror tag) := by
  obtain ⟨data, hdata, hlen⟩ := requestData_length tag hbounded
  rw [if_neg hnot] at hlen
  refine ⟨data, hdata, hlen, ?_⟩
  obtain ⟨req, hreq, hser | ⟨e, -, hdes⟩⟩ := requestData_cases hdata
  · obtain rfl := Option.some.inj (hbounded.symm.trans hreq)
    exact (hnot (message.encodable_of_serialize hser)).elim
  · exact hdes

/-- The server answers it with an error. -/
theorem transact_unencodable {message : TMessage} {data : Bytes} (hidle : Idle server)
    (hdata : requestData maxlen tag message = some data)
    (hlen : data.length ≤ Server.maxMessageSize)
    (hdes : deserializeT data = .error (.unsupportedType .rerror tag)) :
    ∃ text server', (transact handler maxlen tag message).run server =
      .ok (.rerror ⟨text⟩) server' := by
  let e : DeserializeError := .unsupportedType .rerror tag
  have htext : (asBytes e.toString).length ≤ 1000 := by
    show (asBytes ("cannot deserialize " ++ TypeId.rerror.debug)).length ≤ 1000
    decide
  obtain ⟨hencodable, hfits⟩ := rerror_fits htext
  obtain ⟨bytes, hbytes⟩ := RMessage.serialize_isOk _ tag hencodable
  rw [← RMessage.serialize_length _ hbytes] at hfits
  have hserialized : serialized (.rerror ⟨e.toString⟩) tag = some bytes := by
    simp only [serialized, hbytes]
  have hrecv : server.step handler (.recv data 0) = _ := recv_undecoded hidle hlen hdes rfl
  obtain ⟨server', hexchange, -⟩ := exchange_pushed hidle hrecv .ready hserialized
  exact ⟨_, server', transact_exchanged hdata hexchange trivial hbytes hfits⟩

/-- How a request comes to nothing that is too long for a message. -/
inductive Unserved (handler : Serve W P O) (refuses : Nat → Option ByteString) (maxlen : Nat)
    (tag : UInt16) (message : TMessage) (server : Session W P O) : Prop
  | lost (hlost : Lost refuses message)
      (hrun : (transactOver handler refuses maxlen tag message).run server = .error .noReply server)
  | refused {text} (hsent : ¬Lost refuses message)
      (hrun : (transactOver handler refuses maxlen tag message).run server =
        .error (.error text) server)
  | answered {text server'} (hsent : ¬Lost refuses message)
      (hrun : (transactOver handler refuses maxlen tag message).run server =
        .ok (.rerror ⟨text⟩) server')

theorem unserved {message : TMessage} (maxlen : Nat) (tag : UInt16) (htakes : Takes refuses)
    (hidle : Idle server) (hbounded : bounded maxlen message = some message)
    (hlong : Server.maxMessageSize < message.len) :
    Unserved handler refuses maxlen tag message server := by
  by_cases hencodable : message.Encodable
  · obtain ⟨data, hdata, hlen⟩ := requestData_length tag hbounded
    rw [if_pos hencodable] at hlen
    cases hrefused : refuses message.len with
    | some text =>
      have hsent : ¬Lost refuses message := by
        intro hlost
        cases hrefused.symm.trans hlost.taken
      have hrun : (transactOver handler refuses maxlen tag message).run server =
          .error (.error text) server := by
        simp only [transactOver, hdata, Option.bind_some, hlen, hrefused]
        rfl
      exact .refused hsent hrun
    | none =>
      refine .lost ⟨hencodable, hlong, hrefused⟩ ?_
      simp only [transactOver, hdata, Option.bind_some, hlen, hrefused, transact, EStateM.run,
        exchange_long (hlen ▸ hlong)]
  · obtain ⟨data, hdata, hlen, hdes⟩ := requestData_unencodable tag hbounded hencodable
    have hfits : data.length ≤ Server.maxMessageSize := by
      rw [hlen]
      decide
    obtain ⟨text, server', hrun⟩ : ∃ text server',
        (transact handler maxlen tag message).run server = .ok (.rerror ⟨text⟩) server' :=
      transact_unencodable hidle hdata hfits hdes
    rw [← transactOver_taken hdata (htakes _ hfits)] at hrun
    exact .answered (fun hlost => hencodable hlost.encodable) hrun

/-- A call that does not open anything. It returns an error, unless the request
is lost. -/
structure Fruitless (refuses : Nat → Option ByteString) (message : TMessage)
    (call : EStateM Failure (Session W P O) Kind) (server : Session W P O) : Prop where
  error : ReturnsError call server ↔ ¬Lost refuses message
  notOk : ∀ kind server', call.run server ≠ .ok kind server'

theorem Fruitless.of_error {message : TMessage} {call : EStateM Failure (Session W P O) Kind}
    {text : ByteString} (hsent : ¬Lost refuses message)
    (h : call.run server = .error (.error text) server') :
    Fruitless refuses message call server where
  error := ⟨fun _ => hsent, fun _ => ⟨text, server', h⟩⟩
  notOk kind server'' hok := by cases h.symm.trans hok

theorem Fruitless.of_run {message : TMessage} {call call' : EStateM Failure (Session W P O) Kind}
    (h : Fruitless refuses message call' server') (hrun : call.run server = call'.run server') :
    Fruitless refuses message call server where
  error := by
    rw [ReturnsError, hrun]
    exact h.error
  notOk := by
    rw [hrun]
    exact h.notOk

theorem not_lost {message : TMessage} (hlen : message.len ≤ Server.maxMessageSize) :
    ¬Lost refuses message :=
  fun hlost => Nat.not_lt.mpr hlen hlost.long

section Drive
variable {fid : UInt32} {rounds : Nat} {message : TMessage} {goal : Goal} {text : ByteString}

/-- An operation gets on with the reply. -/
theorem drive_ok
    (h : (transactOver handler refuses maxlen tag message).run server = .ok resp server') :
    (drive handler refuses maxlen tag fid (rounds + 1) (.request message goal)).run server =
      (drive handler refuses maxlen tag fid rounds (goal.next fid resp)).run server' :=
  bind_run_ok h _

theorem drive_error {e : Failure}
    (h : (transactOver handler refuses maxlen tag message).run server = .error e server') :
    (drive handler refuses maxlen tag fid (rounds + 1) (.request message goal)).run server =
      .error e server' :=
  bind_run_error h _

/-- An operation fails with the error it is answered with. -/
theorem drive_rerror (h : (transactOver handler refuses maxlen tag message).run server =
      .ok (.rerror ⟨text⟩) server') :
    (drive handler refuses maxlen tag fid (rounds + 1) (.request message goal)).run server =
      .error (.error text) server' := by
  rw [drive_ok h]
  cases rounds <;> rfl

theorem drive_long (htakes : Takes refuses) (hidle : Idle server)
    (hbounded : bounded maxlen message = some message)
    (hlong : Server.maxMessageSize < message.len) :
    Fruitless refuses message
      (drive handler refuses maxlen tag fid (rounds + 1) (.request message goal)) server := by
  have hunserved : Unserved handler refuses maxlen tag message server :=
    unserved maxlen tag htakes hidle hbounded hlong
  cases hunserved with
  | lost hlost hrun =>
    have hdrive : (drive handler refuses maxlen tag fid (rounds + 1)
        (.request message goal)).run server = .error .noReply server := drive_error hrun
    refine ⟨⟨fun herror => ?_, fun hsent => (hsent hlost).elim⟩, fun kind server' hok => ?_⟩
    · obtain ⟨text, server', herror⟩ := herror
      cases hdrive.symm.trans herror
    · cases hdrive.symm.trans hok
  | refused hsent hrun => exact .of_error hsent (drive_error hrun)
  | answered hsent hrun => exact .of_error hsent (drive_rerror hrun)

end Drive

theorem walkDir_eq (src fid : UInt32) (wname : List ByteString) (wqid : List Qid) :
    walkDir src fid wname wqid = .request (nextWalk src fid wname)
      (.openDirAt src (wname.take maxWElem).length (wname.drop maxWElem) wqid) := by
  have htake : wname.take (min wname.length maxWElem) = wname.take maxWElem := by
    rw [Nat.min_comm, ← List.take_eq_take_min]
  have hdrop : wname.drop (min wname.length maxWElem) = wname.drop maxWElem := by
    rw [Nat.min_comm, ← List.drop_eq_drop_min]
  rw [walkDir, nextWalk, htake, hdrop, List.length_take, Nat.min_comm]

theorem drive_inUse {src fid : UInt32} {rounds : Nat} {resource : Resource P O}
    (htakes : Takes refuses) (hidle : Idle server) (hfid : fid ≠ nofid)
    (hused : server.mgr.resources fid = some resource) (wname : List ByteString) (wqid : List Qid) :
    Fruitless refuses (nextWalk src fid wname)
      (drive handler refuses maxlen tag fid (rounds + 1) (walkDir src fid wname wqid)) server := by
  rw [walkDir_eq]
  by_cases hlen : (nextWalk src fid wname).len ≤ Server.maxMessageSize
  · have hdispatch : (dispatch handler Server.maxMessageSize (nextWalk src fid wname)).run
        server.mgr = .error (.err "fid in use") server.mgr := by
      rw [nextWalk, dispatch]
      refine throwIf_bind_error.mpr (.inr ⟨decide_eq_false hfid, ?_⟩)
      rw [containsKey_bind]
      exact throwIf_bind_error.mpr (.inl ⟨rfl, rfl, by rw [hused]; rfl⟩)
    obtain ⟨hencodable, hfits⟩ := rerror_fits
      (show (asBytes "fid in use").length ≤ 1000 by decide)
    obtain ⟨server', hrun, -⟩ := twalk_answered maxlen tag htakes hidle hlen (.failed hdispatch)
      trivial hencodable hfits
    exact .of_error (not_lost hlen) (drive_rerror hrun)
  · exact drive_long htakes hidle rfl (Nat.lt_of_not_le hlen)

end Driver

section OpenDir
variable {config : Config} {refuses : Nat → Option ByteString} {maxlen : Nat} {tag : UInt16}
  {fs : Fs} {server : Server.Session World PathResource OpenResource} {src fid : UInt32}
  {rounds : Nat} {p q : PathResource}

inductive Answered (config : Config) (refuses : Nat → Option ByteString) (maxlen : Nat)
    (tag : UInt16) (fs : Fs) (server : Server.Session World PathResource OpenResource)
    (src fid : UInt32) (p : PathResource) (wname : List ByteString) : Prop
  | full {q server'} (hall : p.walksTo fs wname = some q) (hidle : Idle server')
      (hbound : server'.mgr.resources fid = some (.path q))
      (hrun : (transactOver (Res.handler config) refuses maxlen tag
        (.twalk ⟨src, fid, wname⟩)).run server =
          .ok (.rwalk ⟨(p.trail fs wname).map PathResource.qid⟩) server')
  | part {server'} (hpart : p.walksTo fs wname = none)
      (hrun : (transactOver (Res.handler config) refuses maxlen tag
        (.twalk ⟨src, fid, wname⟩)).run server =
          .ok (.rwalk ⟨(p.trail fs wname).map PathResource.qid⟩) server')
  | fails {text server'} (hpart : p.walksTo fs wname = none)
      (hrun : (transactOver (Res.handler config) refuses maxlen tag
        (.twalk ⟨src, fid, wname⟩)).run server = .ok (.rerror ⟨text⟩) server')

theorem rwalk_fits {qids : List Qid} (h : qids.length ≤ maxWElem) :
    (RMessage.rwalk ⟨qids⟩).Encodable ∧ (RMessage.rwalk ⟨qids⟩).len ≤ maxMessageSize := by
  simp only [RMessage.Encodable, RMessage.len, maxMessageSize, maxWElem] at h ⊢
  omega

/-- A server that waits with `src` bound to `p` and `fid` to nothing, its file
system still, and a transport to it. -/
structure Ready (config : Config) (refuses : Nat → Option ByteString) (fs : Fs)
    (server : Server.Session World PathResource OpenResource) (src fid : UInt32)
    (p : PathResource) : Prop where
  takes : Takes refuses
  terse : Terse fs
  idle : Idle server
  still : server.mgr.world.Still fs
  ne_nofid : fid ≠ nofid
  bound : server.mgr.resources src = some (.path p)
  mounted : p.Mounted config
  free : server.mgr.resources fid = none

theorem answered (maxlen : Nat) (tag : UInt16) (h : Ready config refuses fs server src fid p)
    {wname : List ByteString} (hnames : wname.length ≤ maxWElem)
    (hlen : (TMessage.twalk ⟨src, fid, wname⟩).len ≤ Server.maxMessageSize) :
    Answered config refuses maxlen tag fs server src fid p wname := by
  have hqids : ((p.trail fs wname).map PathResource.qid).length ≤ maxWElem := by
    rw [List.length_map]
    exact (length_trail_le _ _ _).trans hnames
  obtain ⟨hencodable, hfits⟩ := rwalk_fits hqids
  cases twalked Server.maxMessageSize h.ne_nofid h.free h.bound h.mounted h.still wname with
  | full hall hlater hrun =>
    obtain ⟨server', hrun', hidle, hmgr⟩ :=
      twalk_answered maxlen tag h.takes h.idle hlen (.served hrun) trivial hencodable hfits
    refine .full hall hidle ?_ hrun'
    rw [hmgr]
    exact Function.update_self _ _ _
  | part hpart hne hlater hrun =>
    obtain ⟨server', hrun', -⟩ :=
      twalk_answered maxlen tag h.takes h.idle hlen (.served hrun) trivial hencodable hfits
    exact .part hpart hrun'
  | fails hpart hnone htext hlater hrun =>
    obtain ⟨hencodable, hfits⟩ := rerror_fits (h.terse _ htext)
    obtain ⟨server', hrun', -⟩ :=
      twalk_answered maxlen tag h.takes h.idle hlen (.failed hrun) trivial hencodable hfits
    exact .fails hpart hrun'

theorem next_part {wname rest : List ByteString} {wqid : List Qid}
    (h : p.walksTo fs wname = none) :
    (Goal.openDirAt src wname.length rest wqid).next fid
        (.rwalk ⟨(p.trail fs wname).map PathResource.qid⟩) =
      .fails (.error "entity not found") := by
  have hshort := length_trail_lt h
  simp only [Goal.next, walked, List.length_map, if_pos hshort]

theorem next_full (src fid : UInt32) {wname rest : List ByteString}
    (h : p.walksTo fs wname = some q) (hdir : rest = [] → isDir q.qid) : ∃ wqid,
    (Goal.openDirAt src wname.length rest []).next fid
        (.rwalk ⟨(p.trail fs wname).map PathResource.qid⟩) =
      if rest = [] then .done .directory else walkDir src fid rest wqid := by
  obtain ⟨hlen, hlast⟩ := walksTo_eq_some_iff.mp h
  refine ⟨(p.trail fs wname).map PathResource.qid, ?_⟩
  simp only [Goal.next, walked, List.length_map, hlen, Nat.lt_irrefl, if_false, List.nil_append,
    List.isEmpty_iff]
  by_cases hnil : rest = []
  · have hlastdir : ((p.trail fs wname).map PathResource.qid).getLast?.any (!isDir ·) = false := by
      obtain htrail | ⟨front, last, htrail⟩ := List.eq_nil_or_concat (p.trail fs wname)
      · rw [htrail]
        rfl
      · rw [htrail] at hlast ⊢
        simp only [List.concat_eq_append, List.getLastD_concat] at hlast
        simp [hlast, hdir hnil]
    simp only [if_pos hnil, hlastdir, Bool.false_eq_true, if_false]
  · rw [if_neg hnil, if_neg hnil]

/-- A path whose first names do not walk is not opened. -/
theorem drive_part (maxlen : Nat) (tag : UInt16) (h : Ready config refuses fs server src fid p)
    {wname : List ByteString} (hlen : (nextWalk src fid wname).len ≤ Server.maxMessageSize)
    (hpart : p.walksTo fs (wname.take maxWElem) = none) :
    ReturnsError (drive (Res.handler config) refuses maxlen tag fid (rounds + 1)
      (walkDir src fid wname [])) server := by
  have hnames : (wname.take maxWElem).length ≤ maxWElem := List.length_take_le _ _
  rw [walkDir_eq]
  cases answered maxlen tag h hnames hlen with
  | full hall hidle hbound hrun => cases hpart.symm.trans hall
  | @part server' hpart hrun =>
    refine ⟨"entity not found", server', ?_⟩
    rw [nextWalk, drive_ok hrun, next_part hpart]
    cases rounds <;> rfl
  | fails hpart hrun => exact ⟨_, _, drive_rerror hrun⟩

/-- Where the first names do walk, the fid is bound to what they lead to, and
the rest is to be walked. -/
theorem drive_full (maxlen : Nat) (tag : UInt16) (h : Ready config refuses fs server src fid p)
    {wname : List ByteString} (hlen : (nextWalk src fid wname).len ≤ Server.maxMessageSize)
    (hall : p.walksTo fs (wname.take maxWElem) = some q)
    (hdir : wname.drop maxWElem = [] → isDir q.qid) :
    ∃ server' wqid, Idle server' ∧ server'.mgr.resources fid = some (.path q) ∧
      (drive (Res.handler config) refuses maxlen tag fid (rounds + 1)
        (walkDir src fid wname [])).run server =
      (drive (Res.handler config) refuses maxlen tag fid rounds
        (if wname.drop maxWElem = [] then .done .directory
          else walkDir src fid (wname.drop maxWElem) wqid)).run server' := by
  have hnames : (wname.take maxWElem).length ≤ maxWElem := List.length_take_le _ _
  rw [walkDir_eq]
  cases answered maxlen tag h hnames hlen with
  | @full q' server' hall' hidle hbound hrun =>
    obtain rfl := Option.some.inj (hall'.symm.trans hall)
    obtain ⟨wqid, hnext⟩ := next_full src fid hall hdir
    refine ⟨server', wqid, hidle, hbound, ?_⟩
    rw [nextWalk, drive_ok hrun, hnext]
  | part hpart hrun => cases hpart.symm.trans hall
  | fails hpart hrun => cases hpart.symm.trans hall

/-- With more names left, the rest goes to a fid that is bound by now. -/
theorem drive_second (maxlen : Nat) (tag : UInt16) (h : Ready config refuses fs server src fid p)
    {wname : List ByteString} (hlen : (nextWalk src fid wname).len ≤ Server.maxMessageSize)
    (hall : p.walksTo fs (wname.take maxWElem) = some q) (hmore : maxWElem < wname.length) :
    Fruitless refuses (nextWalk src fid (wname.drop maxWElem))
      (drive (Res.handler config) refuses maxlen tag fid (rounds + 1 + 1)
        (walkDir src fid wname [])) server := by
  have hne : wname.drop maxWElem ≠ [] := by
    rw [ne_eq, List.drop_eq_nil_iff]
    exact Nat.not_le.mpr hmore
  obtain ⟨server', wqid, hidle, hbound, hrun⟩ :=
    drive_full maxlen tag h hlen hall fun hnil => (hne hnil).elim
  rw [if_neg hne] at hrun
  exact (drive_inUse h.takes hidle h.ne_nofid hbound _ wqid).of_run hrun

/-- With none left, the path is opened. -/
theorem drive_short (maxlen : Nat) (tag : UInt16) (h : Ready config refuses fs server src fid p)
    {wname : List ByteString} (hlen : (nextWalk src fid wname).len ≤ Server.maxMessageSize)
    (hall : p.walksTo fs wname = some q) (hdir : isDir q.qid) (hshort : wname.length ≤ maxWElem) :
    ∃ server', (drive (Res.handler config) refuses maxlen tag fid (rounds + 1)
        (walkDir src fid wname [])).run server = .ok .directory server' ∧
      server'.mgr.resources fid = some (.path q) := by
  rw [← List.take_of_length_le hshort] at hall
  obtain ⟨server', wqid, hidle, hbound, hrun⟩ :=
    drive_full maxlen tag h hlen hall fun _ => hdir
  refine ⟨server', ?_, hbound⟩
  rw [hrun, if_pos (List.drop_eq_nil_of_le hshort)]
  cases rounds <;> rfl

theorem openDir_long (maxlen : Nat) (tag : UInt16) (h : Ready config refuses fs server src fid p)
    {path : String} (hlong : Server.maxMessageSize < (nextWalk src fid (components path)).len) :
    Fruitless refuses (nextWalk src fid (components path))
      (openDir (Res.handler config) refuses maxlen tag src fid path) server := by
  rw [openDir, openDirAt, walkDir_eq]
  exact drive_long h.takes h.idle rfl hlong

theorem openDir_more (maxlen : Nat) (tag : UInt16) (h : Ready config refuses fs server src fid p)
    {path : String} (hlen : (nextWalk src fid (components path)).len ≤ Server.maxMessageSize)
    (hall : p.walksTo fs ((components path).take maxWElem) = some q)
    (hmore : maxWElem < (components path).length) :
    Fruitless refuses (nextWalk src fid ((components path).drop maxWElem))
      (openDir (Res.handler config) refuses maxlen tag src fid path) server := by
  obtain ⟨rounds, hrounds⟩ := Nat.exists_eq_add_of_lt hmore
  rw [openDir, openDirAt, hrounds]
  exact drive_second maxlen tag h hlen hall hmore

end OpenDir

theorem get_ne_nofid {pool pool' : FidPool} {fid : UInt32} (hvalid : pool.Valid)
    (h : pool.get = some (fid, pool')) : fid ≠ nofid := by
  obtain ⟨-, -, hfree⟩ := Util.get_spec hvalid h
  intro heq
  subst heq
  have hheld : ¬pool'.Free nofid := fun hfid => ((hfree nofid).mp hfid).2 rfl
  have hlt := UInt32.lt_iff_toNat_lt.mp (UInt32.not_le.mp (not_or.mp hheld).2)
  have hmax := UInt32.toNat_lt pool'.next
  have hnofid : nofid.toNat = 2^32 - 1 := rfl
  omega

/-- Long paths. A path that walks to a directory is opened there exactly when
one Twalk can take it: at most sixteen names, in a message the server can
receive. A path that does not walk is an error, unless a Twalk is lost that
`open_dir_at` sends: the first, or the second where the first binds the fid. -/
theorem open_dir_at_iff (config : Config) (refuses : Nat → Option ByteString)
    (htakes : Takes refuses) (maxlen : Nat) (tag : UInt16) (fs : Fs) (hterse : Terse fs)
    (world : World) (server : Server.Session World PathResource OpenResource)
    (hreach : Reaches (Server.Session.step (Res.handler config)) (.start world) server)
    (hidle : Idle server) (hstill : server.mgr.world.Still fs) (pool pool' : FidPool)
    (src fid : UInt32) (hvalid : pool.Valid) (hget : pool.get = some (fid, pool'))
    (p : PathResource) (hres : server.mgr.resources src = some (.path p))
    (hfree : server.mgr.resources fid = none) (path : String) :
    let names := components path
    let first := nextWalk src fid names
    let second := nextWalk src fid (names.drop maxWElem)
    let call := openDir (Res.handler config) refuses maxlen tag src fid path
    (∀ q, p.walksTo fs names = some q → isDir q.qid →
      ((∃ server', call.run server = .ok .directory server' ∧
          server'.mgr.resources fid = some (.path q)) ↔
        names.length ≤ maxWElem ∧ first.len ≤ Server.maxMessageSize)) ∧
    (p.walksTo fs names = none →
      (ReturnsError call server ↔
        ¬Lost refuses first ∧
          (first.len ≤ Server.maxMessageSize → (p.walksTo fs (names.take maxWElem)).isSome →
            ¬Lost refuses second))) := by
  intro names first second call
  have hready : Ready config refuses fs server src fid p :=
    ⟨htakes, hterse, hidle, hstill, get_ne_nofid hvalid hget, hres, reaches_mounted hreach hres,
      hfree⟩
  by_cases hlen : first.len ≤ Server.maxMessageSize
  · constructor
    · intro q hq hdir
      constructor
      · intro hok
        obtain ⟨server', hrun, -⟩ := hok
        refine ⟨Nat.le_of_not_lt fun hmore => ?_, hlen⟩
        obtain ⟨r, hall⟩ := walksTo_take hq maxWElem
        exact (openDir_more maxlen tag hready hlen hall hmore).notOk _ _ hrun
      · intro hshort
        exact drive_short maxlen tag hready hlen hq hdir hshort.1
    · intro hnone
      cases hall : p.walksTo fs (names.take maxWElem) with
      | none =>
        have herror : ReturnsError call server := drive_part maxlen tag hready hlen hall
        refine ⟨fun _ => ⟨not_lost hlen, fun _ hsome => ?_⟩, fun _ => herror⟩
        cases hsome
      | some r =>
        have hmore : maxWElem < names.length := by
          refine Nat.lt_of_not_le fun hle => ?_
          rw [List.take_of_length_le hle] at hall
          cases hnone.symm.trans hall
        rw [(openDir_more maxlen tag hready hlen hall hmore).error]
        exact ⟨fun hsent => ⟨not_lost hlen, fun _ _ => hsent⟩, fun h => h.2 hlen rfl⟩
  · have hfruitless := openDir_long maxlen tag hready (Nat.lt_of_not_le hlen)
    refine ⟨fun q _ _ => ⟨fun hok => ?_, fun hshort => (hlen hshort.2).elim⟩, fun _ => ?_⟩
    · obtain ⟨server', hrun, -⟩ := hok
      exact (hfruitless.notOk _ _ hrun).elim
    · rw [hfruitless.error]
      exact ⟨fun hsent => ⟨hsent, fun hle => (hlen hle).elim⟩, fun h => h.1⟩

theorem components_eq (path : String) : components path =
    ((path.toList.splitOn '/').map String.ofList).filter fun c => !(c.isEmpty || c = ".") := by
  rw [components, show path.splitOn "/" = _ from Split.splitOn_singleton path '/']

/-- What a Noise transport refuses: more than 65535 bytes with the tag. -/
def noiseRefuses (n : Nat) : Option ByteString :=
  if 65535 < n + 16 then some "input error" else none

theorem noise_takes : Takes noiseRefuses := by
  intro n hn
  have hmax : Server.maxMessageSize = 1192 := rfl
  exact if_neg (by omega)

theorem flat_terse (dents : List DirEntry) : Terse (Fs.flat dents) := by
  intro text htext
  obtain rfl | ⟨path, herror | herror⟩ := htext
  · decide
  · cases herror
  · cases herror

theorem attached_ready (fs : Fs) (hterse : Terse fs) : ∃ server session,
    Reaches (Server.Session.step (Res.handler mainConfig)) (.start { fs := fun _ => fs }) server ∧
      Ready mainConfig noiseRefuses fs server 0 1 (PathResource.root mainConfig session) := by
  obtain ⟨server, session, hreach, hres, hfs, hpc, hinflight, hnext, hinit⟩ :=
    attached_reached mainConfig fs
  refine ⟨server, session, hreach, noise_takes, hterse, ⟨hpc, hinflight, hnext, hinit⟩,
    fun t _ => congrFun hfs t, by decide, ?_, ⟨rfl, trivial⟩, ?_⟩
  · rw [hres]
    rfl
  · rw [hres]
    rfl

theorem open_dir_at_iff_docs : ∃ server session server' q,
    Reaches (Server.Session.step (Res.handler mainConfig)) (.start { fs := fun _ => Fs.flat [] })
        server ∧
      (PathResource.root mainConfig session).walksTo (Fs.flat []) ["ff2", "docs"] = some q ∧
      (openDir (Res.handler mainConfig) noiseRefuses 1192 0 0 1 "/ff2/./docs").run server =
        .ok .directory server' ∧ server'.mgr.resources 1 = some (.path q) := by
  obtain ⟨server, session, hreach, hready⟩ := attached_ready _ (flat_terse [])
  have hnames : components "/ff2/./docs" = ["ff2", "docs"] := by
    rw [components_eq]
    decide
  have hwalk : (PathResource.root mainConfig session).walksTo (Fs.flat []) ["ff2", "docs"] =
      some ⟨mainConfig, session, ⟨qtdir, 0, 2⟩, .onShare "ff2" ["docs"]⟩ := rfl
  have hdir : isDir ⟨qtdir, 0, 2⟩ := by decide
  obtain ⟨hopens, -⟩ := open_dir_at_iff mainConfig noiseRefuses hready.takes 1192 0 (Fs.flat [])
    hready.terse _ server hreach hready.idle hready.still ⟨1, ∅⟩ ⟨2, ∅⟩ 0 1
    (fun fid hfid => by simp at hfid) rfl _ hready.bound hready.free "/ff2/./docs"
  rw [hnames] at hopens
  obtain ⟨server', hrun, hbound⟩ := (hopens _ hwalk hdir).mpr ⟨by decide, by decide⟩
  exact ⟨server, session, server', _, hreach, hwalk, hrun, hbound⟩

def deepPath : String := "ff2/a/b/c/d/e/f/g/h/i/j/k/l/m/n/o/p"

theorem open_dir_at_counterexample : ∃ server session q,
    Reaches (Server.Session.step (Res.handler mainConfig)) (.start { fs := fun _ => Fs.flat [] })
        server ∧ Idle server ∧
      server.mgr.resources 0 = some (.path (PathResource.root mainConfig session)) ∧
      server.mgr.resources 1 = none ∧
      (PathResource.root mainConfig session).walksTo (Fs.flat []) (components deepPath) = some q ∧
      isDir q.qid ∧
      ∀ kind server',
        (openDir (Res.handler mainConfig) noiseRefuses 1192 0 0 1 deepPath).run server ≠
          .ok kind server' := by
  obtain ⟨server, session, hreach, hready⟩ := attached_ready _ (flat_terse [])
  have hnames : components deepPath = ["ff2", "a", "b", "c", "d", "e", "f", "g", "h", "i", "j", "k",
      "l", "m", "n", "o", "p"] := by
    rw [components_eq]
    decide
  have hwalk : (PathResource.root mainConfig session).walksTo (Fs.flat []) (components deepPath) =
      some ⟨mainConfig, session, ⟨qtdir, 0, 2⟩, .onShare "ff2" ["a", "b", "c", "d", "e", "f", "g",
        "h", "i", "j", "k", "l", "m", "n", "o", "p"]⟩ := by
    rw [hnames]
    rfl
  obtain ⟨mid, hfirst⟩ := walksTo_take hwalk maxWElem
  have hlen : (nextWalk 0 1 (components deepPath)).len ≤ Server.maxMessageSize := by
    rw [hnames]
    decide
  have hmore : maxWElem < (components deepPath).length := by
    rw [hnames]
    decide
  have hdir : isDir ⟨qtdir, 0, 2⟩ := by decide
  refine ⟨server, session, _, hreach, hready.idle, hready.bound, hready.free, hwalk, hdir, ?_⟩
  exact (openDir_more 1192 0 hready hlen hfirst hmore).notOk

end NineWire.Client
