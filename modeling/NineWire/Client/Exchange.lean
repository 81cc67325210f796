import NineWire.Client.ReadDir
import NineWire.Server.Replies
import NineWire.Wire.Length

/-! What a client call comes to on an idle server: one dispatch against the
fid table, and its reply back under the same tag. -/
namespace NineWire.Client
open NineWire.Wire NineWire.Server NineWire.Codec NineWire.Transition

structure Idle {W P O : Type} (s : Session W P O) : Prop where
  pc : s.pc = .select
  inflight : s.inflight = []
  nextSession : s.nextSession = none
  initialized : s.initialized = true

section Exchange
variable {W P O : Type} {handler : Serve W P O} {server : Session W P O} {incoming bytes : Bytes}
  {tag : UInt16} {req : TMessage} {resp : RMessage} {mgr : ResourceManager W P O}

/-- A request that is dispatched: neither a Tversion nor a Tflush. -/
def Dispatched : TMessage → Prop
  | .tversion _ | .tflush _ => False
  | _ => True

theorem recv_idle (hidle : Idle server) (hlen : incoming.length ≤ Server.maxMessageSize)
    (hdes : deserializeT incoming = .ok (tag, req)) (hreq : Dispatched req) :
    server.step handler (.recv incoming 0) =
      some ((server.received incoming).push ⟨server.serial, tag, .request req⟩ (.dispatch req)) := by
  have hrecv : server.Receives incoming :=
    ⟨by simp [hidle.inflight, maxInFlight], by simp [hidle.nextSession], hlen⟩
  simp only [Session.step, hidle.pc, Session.recv, if_pos hrecv, hdes, hidle.initialized,
    Bool.not_true, Bool.false_and, Bool.false_eq_true, ite_false]
  cases req with
  | tversion m => exact hreq.elim
  | tflush m => exact hreq.elim
  | _ => rfl

theorem recv_undecoded {e : DeserializeError} (hidle : Idle server)
    (hlen : incoming.length ≤ Server.maxMessageSize) (hdes : deserializeT incoming = .error e)
    (htag : e.tag = some tag) :
    server.step handler (.recv incoming 0) =
      some ((server.received incoming).push ⟨server.serial, tag, .undecodable e⟩
        (.ready (.rerror ⟨e.toString⟩))) := by
  have hrecv : server.Receives incoming :=
    ⟨by simp [hidle.inflight, maxInFlight], by simp [hidle.nextSession], hlen⟩
  simp only [Session.step, hidle.pc, Session.recv, if_pos hrecv, hdes, hidle.initialized,
    Bool.not_true, Bool.false_and, Bool.false_eq_true, ite_false, Session.accept, htag]

theorem exchange_long (h : Server.maxMessageSize < incoming.length) :
    exchange handler server incoming = none := by
  have hrecv : server.step handler (.recv incoming 0) = none := by
    unfold Session.step
    split
    · rename_i hact
      cases hact
    · rename_i incoming' pick hact
      cases hact
      split
      · exact if_neg fun hreceives => absurd hreceives.2.2 (Nat.not_le.mpr h)
      · rfl
    all_goals rename_i hact; cases hact
  simp only [exchange, exec, hrecv, Option.bind_none]

theorem complete_pushed {fut : TaggedFuture} (hfut : server.inflight = [fut])
    (hcompletes : Completes handler server.mgr fut.hdl resp mgr) :
    server.complete handler 0 =
      some { server with mgr, inflight := [], pc := .reply fut.tag fut.flushes resp } := by
  obtain ⟨owed, flushes, hdl⟩ := fut
  cases hcompletes with
  | ready => simp [Session.complete, hfut]
  | served hrun => simp [Session.complete, hfut, hrun]
  | failed hrun => simp [Session.complete, hfut, hrun]

/-- An idle session answers a datagram that is owed a reply with what its
future completes with, and is idle again. -/
theorem exchange_pushed {owed : Owed} {hdl : Hdl} (hidle : Idle server)
    (hrecv : server.step handler (.recv incoming 0) =
      some ((server.received incoming).push owed hdl))
    (hcompletes : Completes handler server.mgr hdl resp mgr)
    (hbytes : serialized resp owed.tag = some bytes) :
    ∃ server', exchange handler server incoming = some (bytes, server') ∧ Idle server' ∧
      server'.mgr = mgr := by
  let received := (server.received incoming).push owed hdl
  let waiting : Session W P O := { received with pc := .select }
  let replying : Session W P O := { waiting with mgr, inflight := [], pc := .reply owed none resp }
  let sent : Session W P O := { replying with
    pc := .poll
    log := .sent owed resp bytes :: replying.log }
  have hrecv' : server.step handler (.recv incoming 0) = some received := hrecv
  have htop : received.step handler .top = some waiting := rfl
  have hinflight : waiting.inflight = [⟨owed, none, hdl⟩] := by
    simp [waiting, received, Session.push, Session.received, hidle.inflight]
  have hcomplete : waiting.step handler (.complete 0) = some replying :=
    complete_pushed hinflight hcompletes
  have hsend : replying.step handler .send = some sent := by
    show (serialized resp owed.tag).map _ = _
    rw [hbytes]
    rfl
  have hpending : sent.step handler .pending = some { sent with pc := .top } := rfl
  have hnext : sent.nextSession = none := hidle.nextSession
  have hlast : Session.step handler { sent with pc := .top } .top =
      some { sent with pc := .select } := by
    simp only [Session.step, Session.top, hnext]
  refine ⟨{ sent with pc := .select }, ?_, ⟨rfl, rfl, hnext, hidle.initialized⟩, rfl⟩
  simp only [exchange, exec, hrecv', htop, hcomplete, hsend, hpending, hlast, Option.bind_some]
  rfl

/-- A request is answered with what its dispatch completes with. -/
theorem exchange_idle (hidle : Idle server) (hlen : incoming.length ≤ Server.maxMessageSize)
    (hdes : deserializeT incoming = .ok (tag, req)) (hreq : Dispatched req)
    (hcompletes : Completes handler server.mgr (.dispatch req) resp mgr)
    (hbytes : serialized resp tag = some bytes) :
    ∃ server', exchange handler server incoming = some (bytes, server') ∧ Idle server' ∧
      server'.mgr = mgr :=
  exchange_pushed hidle (recv_idle hidle hlen hdes hreq) hcompletes hbytes

/-- A transaction returns the reply that comes back, when it fits the client's
buffer. -/
theorem transact_exchanged {maxlen : Nat} {data : Bytes} {server' : Session W P O}
    (hdata : requestData maxlen tag req = some data)
    (hexchange : exchange handler server data = some (bytes, server'))
    (hresp : resp.Is9P2000) (hbytes : resp.serialize tag = .ok bytes)
    (hfits : bytes.length ≤ maxMessageSize) :
    (transact handler maxlen tag req).run server = .ok resp server' := by
  have hback := resp.deserialize_serialize hresp hbytes
  simp only [transact, EStateM.run, hdata, hexchange, if_pos hfits, hback, if_true]

/-- A transaction on an idle server is one dispatch. -/
theorem transact_idle {maxlen : Nat} {data : Bytes} (hidle : Idle server)
    (hreq : Dispatched req) (hbounded : bounded maxlen req = some req)
    (hser : req.serialize tag = .ok data) (h9p : req.Is9P2000)
    (hlen : data.length ≤ Server.maxMessageSize)
    (hcompletes : Completes handler server.mgr (.dispatch req) resp mgr)
    (hresp : resp.Is9P2000) (hbytes : resp.serialize tag = .ok bytes)
    (hfits : bytes.length ≤ maxMessageSize) :
    ∃ server', (transact handler maxlen tag req).run server = .ok resp server' ∧ Idle server' ∧
      server'.mgr = mgr := by
  have hdes := req.deserialize_serialize h9p hser
  have hserialized : serialized resp tag = some bytes := by simp only [serialized, hbytes]
  have hdata : requestData maxlen tag req = some data := by
    simp only [requestData, hbounded, Option.bind_some, hser]
  obtain ⟨server', hexchange, hidle', hmgr⟩ :=
    exchange_idle hidle hlen hdes hreq hcompletes hserialized
  exact ⟨server', transact_exchanged hdata hexchange hresp hbytes hfits, hidle', hmgr⟩

theorem rerror_fits {text : ByteString} (h : (asBytes text).length ≤ 1000) :
    (RMessage.rerror ⟨text⟩).Encodable ∧ (RMessage.rerror ⟨text⟩).len ≤ maxMessageSize := by
  simp only [RMessage.Encodable, RMessage.len, maxMessageSize]
  omega

theorem freeze_total {type_ : TypeId} {w : BytesMut Unit} {n : Nat} (tag : UInt16) (hw : Total w)
    (hlen : Writes w n) : ∃ data, freeze type_ tag w = .ok data ∧ data.length = 3 + n := by
  obtain ⟨data, hdata⟩ := freeze_isOk hw
  exact ⟨data, hdata, freeze_length hlen hdata⟩

theorem topen_serialize (m : Topen) (tag : UInt16) :
    ∃ data, (TMessage.topen m).serialize tag = .ok data ∧ data.length = 8 := by
  have htotal : Total (do putU32Le m.fid; putU8 m.mode) :=
    Total.bind (putSlice_total _) (putSlice_total _)
  have hwrites : Writes (do putU32Le m.fid; putU8 m.mode) (4 + 1) :=
    (u32_writes _).bind (putSlice_writes [m.mode])
  exact freeze_total tag htotal hwrites

theorem tread_serialize (m : Tread) (tag : UInt16) :
    ∃ data, (TMessage.tread m).serialize tag = .ok data ∧ data.length = 19 := by
  have htotal : Total (do putU32Le m.fid; putU64Le m.offset; putU32Le m.count) :=
    Total.bind (putSlice_total _) (Total.bind (putSlice_total _) (putSlice_total _))
  have hwrites : Writes (do putU32Le m.fid; putU64Le m.offset; putU32Le m.count) (4 + (8 + 4)) :=
    (u32_writes _).bind ((u64_writes _).bind (u32_writes _))
  exact freeze_total tag htotal hwrites

/-- A reply that is short enough reaches the client. -/
theorem transact_reply {maxlen : Nat} {data : Bytes} (hidle : Idle server)
    (hreq : Dispatched req) (hbounded : bounded maxlen req = some req) (h9p : req.Is9P2000)
    (hser : req.serialize tag = .ok data) (hlen : data.length ≤ Server.maxMessageSize)
    (hcompletes : Completes handler server.mgr (.dispatch req) resp mgr)
    (hresp : resp.Is9P2000) (hencodable : resp.Encodable) (hfits : resp.len ≤ maxMessageSize) :
    ∃ server', (transact handler maxlen tag req).run server = .ok resp server' ∧ Idle server' ∧
      server'.mgr = mgr := by
  obtain ⟨bytes, hbytes⟩ := resp.serialize_isOk tag hencodable
  rw [← resp.serialize_length hbytes] at hfits
  exact transact_idle hidle hreq hbounded hser h9p hlen hcompletes hresp hbytes hfits

theorem tread_reply {maxlen : Nat} {m : Tread} (hidle : Idle server)
    (hcompletes : Completes handler server.mgr (.dispatch (.tread m)) resp mgr)
    (hresp : resp.Is9P2000) (hencodable : resp.Encodable) (hfits : resp.len ≤ maxMessageSize) :
    ∃ server', (transact handler maxlen tag (.tread m)).run server = .ok resp server' ∧
      Idle server' ∧ server'.mgr = mgr := by
  obtain ⟨incoming, hser, hlen⟩ := tread_serialize m tag
  have hreq : Dispatched (.tread m) := trivial
  exact transact_reply hidle hreq rfl trivial hser (by rw [hlen]; decide) hcompletes hresp
    hencodable hfits

end Exchange

end NineWire.Client
