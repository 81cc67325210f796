import NineWire.Client.Mount
import NineWire.Client.Requests
import NineWire.Server.Resources

/-! How the calls of a mounted file system and the futures of the session belong
together: a future works on the request of one call, whose answer nobody else
sends. -/
namespace NineWire.Client
open NineWire.Wire NineWire.Server NineWire.Ledger NineWire.LittleEndian NineWire.Transition

section Session
variable {W P O : Type} {handler : Serve W P O} {server server' : Session W P O}

theorem recv_request {incoming : Bytes} {pick : Nat} {owed : Owed}
    (hinit : server.initialized = true)
    (howes : owes server.serial incoming true = some owed)
    (hversion : ∀ req, owed.cause ≠ .version req) (hflush : ∀ oldtag, owed.cause ≠ .flush oldtag)
    (h : server.step handler (.recv incoming pick) = some server') :
    server' = (server.received incoming).push owed owed.cause.hdl := by
  rw [← hinit] at howes
  cases step_cases h with
  | thrownOut _ _ hnone => cases howes.symm.trans hnone
  | version _ _ howes' hcause =>
    obtain rfl := Option.some.inj (howes.symm.trans howes')
    exact (hversion _ hcause).elim
  | push _ _ howes' _ _ =>
    obtain rfl := Option.some.inj (howes.symm.trans howes')
    rfl
  | park _ _ howes' hcause _ _ =>
    obtain rfl := Option.some.inj (howes.symm.trans howes')
    exact (hflush _ hcause).elim

structure Internal (server server' : Session W P O) : Prop where
  log : server'.log = server.log
  serial : server'.serial = server.serial
  initialized : server'.initialized = server.initialized
  nextSession : server'.nextSession = server.nextSession
  unanswered : server'.unanswered = server.unanswered
  inflight : ∀ fut ∈ server'.inflight, fut ∈ server.inflight

theorem internal_step {a : Server.Action} (ha : isInternal a) (hnext : server.nextSession = none)
    (h : server.step handler a = some server') : Internal server server' := by
  cases step_cases h with
  | reset _ _ hsome _ => cases hnext.symm.trans hsome
  | wait hpc _ =>
    exact ⟨rfl, rfl, rfl, rfl, by simp [Session.unanswered, hpc, Pc.owed], fun _ => id⟩
  | complete hpc hfut _ =>
    have howed : server.pc.owed = [] := by
      rcases hpc with hpc | hpc <;> rw [hpc] <;> rfl
    exact ⟨rfl, rfl, rfl, rfl, unanswered_complete howed hfut, fun _ => List.mem_of_mem_eraseIdx⟩
  | pending hpc =>
    exact ⟨rfl, rfl, rfl, rfl, by simp [Session.unanswered, hpc, Pc.owed], fun _ => id⟩
  | else_ _ _ hsome => exact (hsome hnext).elim
  | _ => cases ha

theorem mem_unanswered_push {incoming : Bytes} {owed owed' : Owed} {hdl : Hdl}
    (hnext : server.nextSession = none)
    (h : owed' ∈ ((server.received incoming).push owed hdl).unanswered) :
    owed' = owed ∨ owed' ∈ server.unanswered := by
  obtain ⟨fut, hfut, howed⟩ | howed | ⟨req, hreq⟩ := mem_unanswered.mp h
  · obtain rfl | hold := List.mem_cons.mp hfut
    · exact .inl (by simpa [TaggedFuture.owed] using howed)
    · exact .inr (mem_unanswered.mpr (.inl ⟨fut, hold, howed⟩))
  · cases howed
  · cases hnext.symm.trans hreq

end Session

section Traffic
variable {t t' : Traffic} {a : TrafficAction}

def Ongoing : TrafficAction → Prop
  | .poll _ _ | .lose _ | .deliver _ | .recvFails => True
  | _ => False

structure Onward (t t' : Traffic) : Prop where
  maxlen : t'.client.maxlen = t.client.maxlen
  asked : t'.client.asked = t.client.asked
  fates : ∀ c, t'.fates c = t.fates c ∨ (t.fates c = .unsent ∧ t'.fates c = .lost) ∨
    ∃ reply, t.fates c = .answered reply ∧ t'.fates c = .delivered reply

theorem fates_update (t : Traffic) (c : Nat) (fate : Fate) (d : Nat) :
    Function.update t.fates c fate d = t.fates d ∨
      (d = c ∧ Function.update t.fates c fate d = fate) := by
  by_cases hdc : d = c
  · rw [hdc]
    exact .inr ⟨rfl, Function.update_self c fate t.fates⟩
  · exact .inl (Function.update_of_ne hdc fate t.fates)

theorem maxlen_poll {s s' : Calls} {c : Nat} {p : Poll} (h : s.poll c p = some s') :
    s'.maxlen = s.maxlen := by
  obtain ⟨call, stage, -, -, rfl⟩ := poll_cases h
  rfl

theorem maxlen_recv (s : Calls) (incoming : Bytes) : (s.recv incoming).maxlen = s.maxlen := by
  rcases recv_cases s incoming with heq | ⟨tag, resp, c, -, -, heq⟩ <;> rw [heq]

theorem maxlen_call (s : Calls) (message : TMessage) : (s.call message).maxlen = s.maxlen := by
  rcases call_cases s message with ⟨-, heq⟩ | ⟨tag, -, heq⟩ <;> rw [heq]

theorem onward_step (ha : Ongoing a) (hformed : Formed t.client) (h : t.step a = some t') :
    Onward t t' ∧ Formed t'.client := by
  cases a with
  | poll c p =>
    obtain ⟨client, hpoll, rfl⟩ := Option.map_eq_some_iff.mp h
    exact ⟨⟨maxlen_poll hpoll, asked_poll hpoll, fun _ => .inl rfl⟩, hformed.poll hpoll⟩
  | lose c =>
    obtain ⟨-, hunsent, rfl⟩ := lose_cases h
    refine ⟨⟨rfl, rfl, fun d => ?_⟩, hformed⟩
    obtain hsame | ⟨rfl, hlost⟩ := fates_update t c .lost d
    · exact .inl hsame
    · exact .inr (.inl ⟨hunsent, hlost⟩)
  | deliver c =>
    obtain ⟨reply, hfate, rfl⟩ := deliver_cases h
    refine ⟨⟨maxlen_recv _ _, asked_recv _ _, fun d => ?_⟩, hformed.recv reply⟩
    obtain hsame | ⟨rfl, hdelivered⟩ := fates_update t c (.delivered reply) d
    · exact .inl hsame
    · exact .inr (.inr ⟨reply, hfate, hdelivered⟩)
  | recvFails =>
    obtain rfl := recvFails_cases h
    exact ⟨⟨rfl, rfl, fun _ => .inl rfl⟩, ⟨hformed.data, hformed.sender⟩⟩
  | _ => exact ha.elim

end Traffic

section Wired
variable {W P O : Type} {handler : Serve W P O} {world : W} {s s' : Mount W P O}

def Mount.Came (s : Mount W P O) (serial : Nat) (incoming : Bytes) (c : Nat) : Prop :=
  s.origin serial = some c ∧ ∃ tag message, s.traffic.client.asked c = some (tag, message) ∧
    requestData s.traffic.client.maxlen tag message = some incoming

/-- Every datagram but the first came from a call, of which it is the only one,
and what the session has not answered is not answered. -/
structure Wired (handler : Serve W P O) (world : W) (s : Mount W P O) : Prop where
  routed : Routed s.traffic
  formed : Formed s.traffic.client
  sends : ∀ c tag message, s.traffic.client.asked c = some (tag, message) → Sends message
  server : Reaches (Session.step handler) (.start world) s.server
  initialized : s.server.initialized = true
  nextSession : s.server.nextSession = none
  received : ∀ serial incoming initialized, .received serial incoming initialized ∈ s.server.log →
    (∃ req, deserializeT incoming = .ok (notag, .tversion req)) ∨
      (initialized = true ∧ ∃ c, s.Came serial incoming c)
  origin : ∀ serial c, s.origin serial = some c →
    serial < s.server.serial ∧ s.traffic.fates c ≠ .unsent ∧ s.traffic.fates c ≠ .lost
  unique : ∀ serial serial' c, s.origin serial = some c → s.origin serial' = some c →
    serial = serial'
  pending : ∀ owed ∈ s.server.unanswered, ∀ c, s.origin owed.serial = some c →
    s.traffic.fates c = .pending

/-- A reply owed within the session is owed to a call: to its message, or to the
error in its place. -/
structure Mount.Owes (s : Mount W P O) (owed : Owed) (c : Nat) (message : TMessage) : Prop where
  origin : s.origin owed.serial = some c
  asked : s.traffic.client.asked c = some (owed.tag, message)
  cause : (∃ req, owed.cause = .request req ∧ bounded s.traffic.client.maxlen message = some req) ∨
    ((∀ m, message ≠ .tclunk m) ∧ ∃ e, owed.cause = .undecodable e)
  data : ∃ incoming, requestData s.traffic.client.maxlen owed.tag message = some incoming ∧
    Server.owes owed.serial incoming true = some owed

/-- The reply to the Tversion is out. -/
theorem Wired.not_version (h : Wired handler world s) {owed : Owed}
    (howed : owed ∈ s.server.unanswered) : ¬owed.IsVersion := by
  have hsound := reaches_sound h.server
  have hflush (hflush : owed.isFlush) : ¬owed.IsVersion := by
    intro hcase
    obtain ⟨req, hcause⟩ := hcase
    simp [Owed.isFlush, hcause] at hflush
  obtain ⟨fut, hfut, hmem⟩ | hmem | ⟨req, hnext⟩ := mem_unanswered.mp howed
  · obtain rfl | hmem := List.mem_cons.mp hmem
    · exact (hsound.futures fut hfut).2
    · exact hflush (hsound.parked fut hfut owed (Option.mem_toList.mp hmem))
  · cases hpc : s.server.pc with
    | reply tag flushes resp =>
      obtain ⟨-, htag, hflushes⟩ := hsound.replying hpc
      rw [hpc] at hmem
      obtain rfl | hmem := List.mem_cons.mp hmem
      · exact htag
      · exact hflush (hflushes owed (Option.mem_toList.mp hmem))
    | flush tag =>
      rw [hpc] at hmem
      obtain rfl := List.mem_singleton.mp hmem
      exact hflush (hsound.flushing hpc)
    | _ =>
      rw [hpc] at hmem
      cases hmem
  · cases h.nextSession.symm.trans hnext

theorem Wired.owes (h : Wired handler world s) {owed : Owed}
    (howed : owed ∈ s.server.unanswered) : ∃ c message, s.Owes owed c message := by
  have haccepted := (reaches_accounted h.server).balanced.mem_accepted_of_open howed
  obtain ⟨serial, incoming, initialized, hmem, howes⟩ := mem_accepted haccepted
  obtain ⟨req, hdes⟩ | ⟨rfl, c, horigin, tag, message, hasked, hdata⟩ := h.received _ _ _ hmem
  · refine (h.not_version howed ⟨req, ?_⟩).elim
    simp only [Server.owes, hdes, if_true] at howes
    rw [← Option.some.inj howes]
  · rcases owes_requestData (h.sends c tag message hasked) hdata serial with
      ⟨req, hbounded, heq⟩ | ⟨hclunk, e, heq⟩
    · obtain rfl := Option.some.inj (howes.symm.trans heq)
      exact ⟨c, message, horigin, hasked, .inl ⟨req, rfl, hbounded⟩, incoming, hdata, howes⟩
    · obtain rfl := Option.some.inj (howes.symm.trans heq)
      exact ⟨c, message, horigin, hasked, .inr ⟨hclunk, e, rfl⟩, incoming, hdata, howes⟩

/-- What is owed for a serial is one reply. -/
theorem Wired.serial_inj (h : Wired handler world s) {owed owed' : Owed}
    (howed : owed ∈ s.server.unanswered) (howed' : owed' ∈ s.server.unanswered)
    (hserial : owed.serial = owed'.serial) : owed = owed' := by
  obtain ⟨c, message, ho⟩ := h.owes howed
  obtain ⟨c', message', ho'⟩ := h.owes howed'
  obtain rfl : c = c' := Option.some.inj (ho.origin.symm.trans (hserial ▸ ho'.origin))
  obtain ⟨htag, rfl⟩ := Prod.mk.inj (Option.some.inj (ho.asked.symm.trans ho'.asked))
  obtain ⟨incoming, hdata, howes⟩ := ho.data
  obtain ⟨incoming', hdata', howes'⟩ := ho'.data
  rw [htag] at hdata
  obtain rfl := Option.some.inj (hdata.symm.trans hdata')
  rw [hserial] at howes
  exact Option.some.inj (howes.symm.trans howes')

theorem Mount.Owes.not_isFlush {owed : Owed} {c : Nat} {message : TMessage}
    (h : s.Owes owed c message) : owed.isFlush = false := by
  rcases h.cause with ⟨req, hcause, -⟩ | ⟨-, e, hcause⟩ <;> simp [Owed.isFlush, hcause]

theorem Wired.frame (h : Wired handler world s) (pool : Util.FidPool) (handles : List Handle) :
    Wired handler world { s with pool, handles } :=
  ⟨h.routed, h.formed, h.sends, h.server, h.initialized, h.nextSession, h.received, h.origin,
    h.unique, h.pending⟩

theorem Wired.onward {a : TrafficAction} {t : Traffic} (h : Wired handler world s) (ha : Ongoing a)
    (hstep : s.traffic.step a = some t) : Wired handler world { s with traffic := t } := by
  obtain ⟨hon, hformed⟩ := onward_step ha h.formed hstep
  refine ⟨h.routed.step hstep, hformed, ?_, h.server, h.initialized, h.nextSession, ?_, ?_,
    h.unique, ?_⟩
  · rw [hon.asked]
    exact h.sends
  · simp only [Mount.Came, hon.asked, hon.maxlen]
    exact h.received
  · intro serial c horigin
    obtain ⟨hlt, hunsent, hlost⟩ := h.origin serial c horigin
    obtain hsame | ⟨hwas, -⟩ | ⟨reply, -, hdelivered⟩ := hon.fates c
    · exact ⟨hlt, by rw [hsame]; exact hunsent, by rw [hsame]; exact hlost⟩
    · exact (hunsent hwas).elim
    · exact ⟨hlt, by simp [hdelivered], by simp [hdelivered]⟩
  · intro owed howed c horigin
    have hpending := h.pending owed howed c horigin
    obtain hsame | ⟨hwas, -⟩ | ⟨reply, hwas, -⟩ := hon.fates c
    · rw [hsame, hpending]
    · cases hpending.symm.trans hwas
    · cases hpending.symm.trans hwas

theorem Wired.call {message : TMessage} (h : Wired handler world s) (hsends : Sends message) :
    Wired handler world (s.call message) := by
  refine ⟨h.routed.call message, h.formed.call message, ?_, h.server, h.initialized,
    h.nextSession, ?_, h.origin, h.unique, h.pending⟩
  · intro c tag m hasked
    obtain hold | ⟨-, rfl⟩ := asked_call_cases hasked
    · exact h.sends c tag m hold
    · exact hsends
  · intro serial incoming initialized hmem
    obtain hversion | ⟨hinit, c, horigin, tag, m, hasked, hdata⟩ :=
      h.received serial incoming initialized hmem
    · exact .inl hversion
    · refine .inr ⟨hinit, c, horigin, tag, m, asked_call message hasked, ?_⟩
      rw [Mount.call, maxlen_call]
      exact hdata

theorem Wired.serve {a : Server.Action} {server : Session W P O} (h : Wired handler world s)
    (ha : isInternal a) (hstep : s.server.step handler a = some server) :
    Wired handler world { s with server } := by
  have hin := internal_step ha h.nextSession hstep
  refine ⟨h.routed, h.formed, h.sends, .tail a h.server trivial hstep,
    hin.initialized.trans h.initialized, hin.nextSession.trans h.nextSession, ?_, ?_, h.unique, ?_⟩
  · intro serial incoming initialized hmem
    rw [hin.log] at hmem
    exact h.received serial incoming initialized hmem
  · rw [hin.serial]
    exact h.origin
  · rw [hin.unanswered]
    exact h.pending

structure Arrival (handler : Serve W P O) (s s' : Mount W P O) (c : Nat) (owed : Owed)
    (message : TMessage) (incoming : Bytes) : Prop where
  unsent : s.traffic.fates c = .unsent
  asked : s.traffic.client.asked c = some (owed.tag, message)
  data : requestData s.traffic.client.maxlen owed.tag message = some incoming
  cause : (∃ req, owed.cause = .request req ∧ bounded s.traffic.client.maxlen message = some req) ∨
    ((∀ m, message ≠ .tclunk m) ∧ ∃ e, owed.cause = .undecodable e)
  serial : owed.serial = s.server.serial
  transmit : s.traffic.step (.transmit c) = some s'.traffic
  receive : ∃ pick, s.server.step handler (.recv incoming pick) = some s'.server
  traffic : s'.traffic = ⟨s.traffic.client, Function.update s.traffic.fates c .pending⟩
  server : s'.server = (s.server.received incoming).push owed owed.cause.hdl
  origin : s'.origin = Function.update s.origin s.server.serial (some c)
  pool : s'.pool = s.pool
  handles : s'.handles = s.handles

theorem Wired.arrival {c pick : Nat} (h : Wired handler world s)
    (hstep : s.arrive handler c pick = some s') :
    ∃ owed message incoming, Arrival handler s s' c owed message incoming := by
  obtain ⟨call, hcall, hstep⟩ := Option.bind_eq_some_iff.mp hstep
  obtain ⟨incoming, hincoming, hstep⟩ := Option.bind_eq_some_iff.mp hstep
  obtain ⟨traffic, htransmit, hstep⟩ := Option.bind_eq_some_iff.mp hstep
  obtain ⟨server, hserver, hstep⟩ := Option.bind_eq_some_iff.mp hstep
  obtain rfl := Option.some.inj hstep
  obtain ⟨-, hunsent, htraffic⟩ := transmit_cases htransmit
  have hasked := asked_of_get hcall
  have hdata := (h.formed.data c call hcall).symm.trans hincoming
  rcases owes_requestData (h.sends c call.tag call.message hasked) hdata s.server.serial with
    ⟨req, hbounded, howes⟩ | ⟨hclunk, e, howes⟩
  · have hpush := recv_request h.initialized howes (by simp) (by simp) hserver
    exact ⟨⟨s.server.serial, call.tag, .request req⟩, call.message, incoming, hunsent, hasked,
      hdata, .inl ⟨req, rfl, hbounded⟩, rfl, htransmit, ⟨pick, hserver⟩, htraffic, hpush, rfl, rfl,
      rfl⟩
  · have hpush := recv_request h.initialized howes (by simp) (by simp) hserver
    exact ⟨⟨s.server.serial, call.tag, .undecodable e⟩, call.message, incoming, hunsent, hasked,
      hdata, .inr ⟨hclunk, e, rfl⟩, rfl, htransmit, ⟨pick, hserver⟩, htraffic, hpush, rfl, rfl, rfl⟩

theorem Wired.serial_lt (h : Wired handler world s) {owed : Owed}
    (howed : owed ∈ s.server.unanswered) : owed.serial < s.server.serial := by
  have haccounted := reaches_accounted h.server
  exact haccounted.fresh owed (haccounted.balanced.mem_accepted_of_open howed)

theorem Wired.arrive {c : Nat} {owed : Owed} {message : TMessage} {incoming : Bytes}
    (h : Wired handler world s) (ha : Arrival handler s s' c owed message incoming) :
    Wired handler world s' := by
  obtain ⟨pick, hreceive⟩ := ha.receive
  have hfate : s'.traffic.fates c = .pending := by
    rw [ha.traffic]
    exact Function.update_self _ _ _
  have hfates {d : Nat} (hdc : d ≠ c) : s'.traffic.fates d = s.traffic.fates d := by
    rw [ha.traffic]
    exact Function.update_of_ne hdc _ _
  have hnew : s'.origin s.server.serial = some c := by
    rw [ha.origin, Function.update_self]
  have hold {serial d : Nat} (hne : serial ≠ s.server.serial)
      (horigin : s'.origin serial = some d) :
      s.origin serial = some d ∧ d ≠ c := by
    rw [ha.origin, Function.update_of_ne hne] at horigin
    refine ⟨horigin, ?_⟩
    intro hsame
    subst hsame
    exact (h.origin serial d horigin).2.1 ha.unsent
  have hserial : s'.server.serial = s.server.serial + 1 := by
    rw [ha.server]
    rfl
  have hclient : s'.traffic.client = s.traffic.client := by rw [ha.traffic]
  refine ⟨h.routed.step ha.transmit, by rw [hclient]; exact h.formed,
    by rw [hclient]; exact h.sends, .tail _ h.server trivial hreceive,
    by rw [ha.server]; exact h.initialized, by rw [ha.server]; exact h.nextSession, ?_, ?_, ?_, ?_⟩
  · intro serial incoming' initialized hmem
    rw [ha.server] at hmem
    simp only [Mount.Came, hclient]
    obtain heq | hmem := List.mem_cons.mp hmem
    · obtain ⟨rfl, rfl, rfl⟩ := Event.received.inj heq
      exact .inr ⟨h.initialized, c, hnew, owed.tag, message, ha.asked, ha.data⟩
    · rcases h.received serial incoming' initialized hmem with hversion | ⟨hinit, d, horigin, hd⟩
      · exact .inl hversion
      · have hlt := (h.origin serial d horigin).1
        refine .inr ⟨hinit, d, ?_, hd⟩
        rw [ha.origin, Function.update_of_ne (by omega), horigin]
  · intro serial d horigin
    by_cases hs : serial = s.server.serial
    · obtain rfl := Option.some.inj (hnew.symm.trans (hs ▸ horigin))
      rw [hserial, hfate]
      exact ⟨by omega, by simp, by simp⟩
    · obtain ⟨horigin, hdc⟩ := hold hs horigin
      obtain ⟨hlt, hd⟩ := h.origin serial d horigin
      rw [hserial, hfates hdc]
      exact ⟨by omega, hd⟩
  · intro serial serial' d horigin horigin'
    by_cases hs : serial = s.server.serial <;> by_cases hs' : serial' = s.server.serial
    · rw [hs, hs']
    · rw [hs, hnew] at horigin
      exact ((hold hs' horigin').2 (Option.some.inj horigin).symm).elim
    · rw [hs', hnew] at horigin'
      exact ((hold hs horigin).2 (Option.some.inj horigin').symm).elim
    · exact h.unique serial serial' d (hold hs horigin).1 (hold hs' horigin').1
  · intro owed' howed d horigin
    rw [ha.server] at howed
    obtain rfl | hmem := mem_unanswered_push h.nextSession howed
    · rw [ha.serial, hnew] at horigin
      obtain rfl := Option.some.inj horigin
      exact hfate
    · have hlt := h.serial_lt hmem
      obtain ⟨horigin, hdc⟩ := hold (by omega) horigin
      rw [hfates hdc]
      exact h.pending owed' hmem d horigin

structure Reply (handler : Serve W P O) (s s' : Mount W P O) (c : Nat) (owed : Owed)
    (bytes : Bytes) : Prop where
  origin : s.origin owed.serial = some c
  asked : ∃ message, s.traffic.client.asked c = some (owed.tag, message)
  tag : tagBytes bytes = toLe 2 owed.tag.toNat
  send : s.server.step handler .send = some s'.server
  unanswered : s.server.unanswered = owed ::ₘ s'.server.unanswered
  log : ∃ resp, s'.server.log = .sent owed resp bytes :: s.server.log
  serial : s'.server.serial = s.server.serial
  initialized : s'.server.initialized = s.server.initialized
  nextSession : s'.server.nextSession = s.server.nextSession
  inflight : s'.server.inflight = s.server.inflight
  mgr : s'.server.mgr = s.server.mgr
  traffic : s'.traffic = ⟨s.traffic.client, Function.update s.traffic.fates c (.answered bytes)⟩
  sameOrigin : s'.origin = s.origin
  pool : s'.pool = s.pool
  handles : s'.handles = s.handles

theorem Wired.reply (h : Wired handler world s) (hstep : s.answer handler = some s') :
    ∃ owed c bytes, Reply handler s s' c owed bytes := by
  obtain ⟨server, hserver, hstep⟩ := Option.bind_eq_some_iff.mp hstep
  have howes {owed : Owed} (howed : owed ∈ s.server.pc.owed) : ∃ c message, s.Owes owed c message :=
    h.owes (mem_unanswered.mpr (.inr (.inl howed)))
  cases step_cases hserver with
  | reply hpc hbytes =>
    rename_i owed flushes resp bytes
    have howed : s.server.pc.owed = owed :: flushes.toList := by rw [hpc, Pc.owed]
    obtain ⟨hanswers, -, -⟩ := (reaches_sound h.server).replying hpc
    obtain ⟨mgr, mgr', hcompletes⟩ := hanswers
    have htag : tagBytes bytes = toLe 2 owed.tag.toNat := by
      obtain hdes | ⟨e, -, hdes⟩ := serialized_cases (completes_is9P2000 hcompletes) hbytes
      · exact tagBytes_deserializeR hdes
      · exact tagBytes_deserializeR hdes
    obtain ⟨c, horigin, hstep⟩ := Option.bind_eq_some_iff.mp hstep
    obtain rfl := Option.some.inj hstep
    obtain ⟨c', message, ho⟩ := howes (show owed ∈ s.server.pc.owed by simp [howed])
    obtain rfl := Option.some.inj (ho.origin.symm.trans horigin)
    exact ⟨owed, c', bytes, horigin, ⟨message, ho.asked⟩, htag, hserver,
      unanswered_send howed (afterReply_owed flushes), ⟨resp, rfl⟩, rfl, rfl, rfl, rfl, rfl, rfl, rfl, rfl, rfl⟩
  | flush hpc hbytes =>
    rename_i owed bytes
    obtain ⟨c, message, howes⟩ := howes (show owed ∈ s.server.pc.owed by
      rw [hpc]
      exact List.mem_cons_self)
    have hflush := (reaches_sound h.server).flushing hpc
    rw [howes.not_isFlush] at hflush
    cases hflush

theorem Wired.answer {c : Nat} {owed : Owed} {bytes : Bytes} (h : Wired handler world s)
    (hr : Reply handler s s' c owed bytes) : Wired handler world s' := by
  have howed : owed ∈ s.server.unanswered := by
    rw [hr.unanswered]
    exact Multiset.mem_cons_self _ _
  have hpending := h.pending owed howed c hr.origin
  have hclient : s'.traffic.client = s.traffic.client := by rw [hr.traffic]
  have hfates : Refates s.traffic s'.traffic c (.answered bytes) := by
    rw [hr.traffic]
    exact refates_update _ _
  have hopen : (s.traffic.fates c).Open := by
    rw [hpending]
    trivial
  obtain ⟨message, hasked⟩ := hr.asked
  obtain ⟨call, hcall, heq⟩ := Option.map_eq_some_iff.mp hasked
  have htag : call.tag = owed.tag := congrArg Prod.fst heq
  have hrouted : Routed s'.traffic := by
    refine h.routed.refate hclient hfates hcall hopen ?_
    intro _ hcase
    cases hcase
    rw [htag, hr.tag]
  refine ⟨hrouted, by rw [hclient]; exact h.formed, by rw [hclient]; exact h.sends,
    .tail _ h.server trivial hr.send, hr.initialized.trans h.initialized,
    hr.nextSession.trans h.nextSession, ?_, ?_, by rw [hr.sameOrigin]; exact h.unique, ?_⟩
  · intro serial incoming initialized hmem
    obtain ⟨resp, hlog⟩ := hr.log
    rw [hlog] at hmem
    simp only [Mount.Came, hclient, hr.sameOrigin]
    exact h.received serial incoming initialized (List.mem_of_ne_of_mem (by simp) hmem)
  · intro serial d horigin
    rw [hr.sameOrigin] at horigin
    obtain ⟨hlt, hd⟩ := h.origin serial d horigin
    rw [hr.serial]
    by_cases hdc : d = c
    · rw [hdc, hfates.self]
      exact ⟨hlt, by simp, by simp⟩
    · rw [hfates.other d hdc]
      exact ⟨hlt, hd⟩
  · intro owed' hmem d horigin
    rw [hr.sameOrigin] at horigin
    have hmem' : owed' ∈ s.server.unanswered := by
      rw [hr.unanswered]
      exact Multiset.mem_cons_of_mem hmem
    have hdc : d ≠ c := by
      intro hsame
      subst hsame
      obtain rfl := h.serial_inj hmem' howed (h.unique _ _ d horigin hr.origin)
      have hnodup := (reaches_accounted h.server).balanced.open_nodup
      rw [hr.unanswered] at hnodup
      exact (Multiset.nodup_cons.mp hnodup).1 hmem
    rw [hfates.other d hdc]
    exact h.pending owed' hmem' d horigin

end Wired

end NineWire.Client
