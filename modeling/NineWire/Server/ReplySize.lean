import NineWire.Res.Path
import NineWire.Server.Reset
import NineWire.Wire.Length

/-! The negotiated message size. The server answers a Tversion with a size and
then builds its replies for its own maximum; whether a reply fits depends on
what the resource calls answer. -/
namespace NineWire.Server
open NineWire.Wire NineWire.Transition

def negotiated : List Event → Option Nat
  | [] => none
  | .sent _ (.rversion v) _ :: _ => some v.msize.toNat
  | _ :: log => negotiated log

section ReplySize
variable {W P O : Type} (handler : Serve W P O)

/-- What the resource calls answer to `req` leaves room for its reply in `m`
bytes: an error text, the qids of a walk, the data of a read or a stat. A
count that no longer fits its field is answered by a short Rerror. -/
structure Fits (mgr : ResourceManager W P O) (m : Nat) (req : TMessage) : Prop where
  text : ∀ text world, CallFails handler mgr req (.err text) world →
    5 + (asBytes text).length ≤ m ∨ 2^16 ≤ (asBytes text).length
  walk : ∀ fid newfid wname res wqid new world, req = .twalk ⟨fid, newfid, wname⟩ →
    newfid ≠ nofid → mgr.resources newfid = none → mgr.resources fid = some (.path res) →
    (handler.walk res wname).run mgr.world = .ok (wqid, new) world →
    let n := if new.isSome && !wname.isEmpty then wqid.length + 1 else wqid.length
    5 + 13*n ≤ m ∨ 2^16 ≤ n
  read : ∀ fid offset count res data world, req = .tread ⟨fid, offset, count⟩ →
    mgr.resources fid = some (.open_ res) →
    (handler.read res offset count).run mgr.world = .ok data world →
    7 + min data.length (maxMessageSize - rreadOverhead) ≤ m
  stat : ∀ fid resource stat world, req = .tstat ⟨fid⟩ → mgr.resources fid = some resource →
    (statCall handler resource).run mgr.world = .ok stat world →
    5 + stat.len ≤ m ∨ 2^16 ≤ stat.len

def FitsStep (s : Session W P O) : Action → Prop
  | .complete i => ∀ fut req m, s.inflight[i]? = some fut → fut.hdl = .dispatch req →
    negotiated s.log = some m → Fits handler s.mgr m req
  | _ => True

end ReplySize

theorem asBytes_append (s t : ByteString) : asBytes (s ++ t) = asBytes s ++ asBytes t := by
  simp [asBytes]

theorem repr_length : ∀ n < 256, (asBytes (Nat.repr n)).length ≤ 3 := by
  decide +kernel

theorem debug_length (ty : TypeId) : (asBytes ty.debug).length ≤ 8 := by
  cases ty <;> decide

theorem append_length {s t : ByteString} {k n : Nat} (hs : (asBytes s).length ≤ k)
    (ht : (asBytes t).length ≤ n) : (asBytes (s ++ t)).length ≤ k + n := by
  rw [asBytes_append, List.length_append]
  exact Nat.add_le_add hs ht

theorem toString_length (e : DeserializeError) : (asBytes e.toString).length ≤ 27 := by
  cases e with
  | unknownType type_ tag =>
    have hhead : (asBytes "unknown type id ").length ≤ 24 := by decide
    exact append_length hhead (repr_length type_.toNat type_.toNat_lt)
  | unsupportedType type_ tag =>
    have hhead : (asBytes "cannot deserialize ").length ≤ 19 := by decide
    exact append_length hhead (debug_length type_)
  | tooShort tag => exact (by decide : (asBytes "too short").length ≤ 27)
  | tooLong tag => exact (by decide : (asBytes "too long").length ≤ 27)
  | invalidUTF8 tag => exact (by decide : (asBytes "Invalid UTF-8 string").length ≤ 27)

section ReplySize
variable {W P O : Type} {handler : Serve W P O} {s s' : Session W P O} {a : Action}
  {mgr mgr' : ResourceManager W P O} {req : TMessage} {resp : RMessage} {m : Nat}

def Room (m : Nat) (resp : RMessage) : Prop := resp.len ≤ m ∨ ¬resp.Encodable

theorem serialized_length (hm : 256 ≤ m) (hroom : Room m resp) {tag : UInt16} {bytes : Bytes}
    (h : serialized resp tag = some bytes) : bytes.length ≤ m := by
  unfold serialized at h
  cases hser : resp.serialize tag with
  | ok b =>
    rw [hser] at h
    cases h
    rw [resp.serialize_length hser]
    exact hroom.resolve_right fun hnot => hnot (resp.encodable_of_serialize hser)
  | error e =>
    rw [hser] at h
    cases hfallback : (RMessage.rerror ⟨e.toString⟩).serialize tag with
    | ok b =>
      simp only [hfallback] at h
      cases h
      rw [RMessage.serialize_length _ hfallback]
      have htext : (asBytes e.toString).length = 15 := by
        cases e
        decide
      simp only [RMessage.len]
      omega
    | error e' =>
      simp only [hfallback] at h
      cases h

theorem serialized_too_long (hroom : ¬Room m resp) {tag : UInt16} {bytes : Bytes}
    (h : serialized resp tag = some bytes) : m < bytes.length := by
  obtain ⟨hlen, henc⟩ := not_or.mp hroom
  obtain ⟨b, hb⟩ := resp.serialize_isOk tag (not_not.mp henc)
  simp only [serialized, hb] at h
  cases h
  rw [resp.serialize_length hb]
  omega

theorem room_small (hm : 256 ≤ m) (h : resp.len ≤ 256) : Room m resp := .inl (h.trans hm)

theorem refusals_length : ∀ ename ∈ refusals, (asBytes ename).length ≤ 32 := by
  decide

theorem served_room (hm : 256 ≤ m) (hfits : Fits handler mgr m req)
    (h : Served handler maxMessageSize mgr req resp mgr') : Room m resp := by
  cases h with
  | @twalkFull fid newfid wname res wqid new world hfid hfree hres hcall =>
    have hwalk := hfits.walk _ _ _ _ _ _ _ rfl hfid hfree hres hcall
    simp only [Room, RMessage.len, RMessage.Encodable]
    cases hempty : wname.isEmpty <;> simp [hempty] at hwalk ⊢ <;> omega
  | twalkPart hfid hfree hres hcall =>
    have hwalk := hfits.walk _ _ _ _ _ _ _ rfl hfid hfree hres hcall
    simp only [Room, RMessage.len, RMessage.Encodable]
    simp at hwalk
    omega
  | tread hres hcall =>
    have hread := hfits.read _ _ _ _ _ _ rfl hres hcall
    refine .inl ?_
    rwa [RMessage.len, List.length_take, Nat.min_comm]
  | tstat hres hcall =>
    have hstat := hfits.stat _ _ _ _ rfl hres hcall
    simp only [Room, RMessage.len, RMessage.Encodable]
    omega
  | _ => exact room_small hm (by simp [RMessage.len])

theorem failed_room (hm : 256 ≤ m) (hfits : Fits handler mgr m req) {text : ByteString}
    (h : Failed handler mgr req (.err text) mgr') : Room m (.rerror ⟨text⟩) := by
  cases h with
  | refused hename hsame =>
    have hlen := refusals_length _ hename
    exact room_small hm (by simp only [RMessage.len]; omega)
  | call hcall =>
    have htext := hfits.text _ _ hcall
    simp only [Room, RMessage.len, RMessage.Encodable]
    omega

/-- A dispatch has room for its reply exactly when its calls answered so. -/
theorem fits_iff (hm : 256 ≤ m) : Fits handler mgr m req ↔
    (∀ resp mgr', (dispatch handler maxMessageSize req).run mgr = .ok resp mgr' → Room m resp) ∧
    ∀ text mgr', (dispatch handler maxMessageSize req).run mgr = .error (.err text) mgr' →
      Room m (.rerror ⟨text⟩) := by
  constructor
  · intro hfits
    exact ⟨fun resp mgr' hrun => served_room hm hfits (dispatch_ok hrun),
      fun text mgr' hrun => failed_room hm hfits (dispatch_error hrun)⟩
  · intro h
    obtain ⟨hok, herror⟩ := h
    refine ⟨?_, ?_, ?_, ?_⟩
    · intro text world hcall
      have hroom := herror text _ hcall.run
      simp only [Room, RMessage.len, RMessage.Encodable] at hroom
      omega
    · rintro fid newfid wname res wqid new world rfl hfid hfree hres hcall
      cases new with
      | some new =>
        have hroom := hok _ _ (Served.twalkFull hfid hfree hres hcall).run
        simp only [Room, RMessage.len, RMessage.Encodable] at hroom
        cases hempty : wname.isEmpty <;> simp [hempty] at hroom ⊢ <;> omega
      | none =>
        have hroom := hok _ _ (Served.twalkPart hfid hfree hres hcall).run
        simp only [Room, RMessage.len, RMessage.Encodable] at hroom
        simp
        omega
    · rintro fid offset count res data world rfl hres hcall
      have hroom := hok _ _ (Served.tread hres hcall).run
      simp only [Room, RMessage.len, RMessage.Encodable, List.length_take] at hroom
      have hmax : maxMessageSize = 1192 := rfl
      omega
    · rintro fid resource stat world rfl hres hcall
      have hroom := hok _ _ (Served.tstat hres hcall).run
      simp only [Room, RMessage.len, RMessage.Encodable] at hroom
      omega

theorem ready_len {cause : Cause} {resp : RMessage} (h : cause.hdl = .ready resp) :
    resp.len ≤ 256 := by
  cases cause with
  | version req =>
    obtain rfl : versionReply req = resp := Hdl.ready.inj h
    unfold versionReply
    split
    · exact (by decide : (RMessage.rerror ⟨"Tversion: message size too small"⟩).len ≤ 256)
    · split
      · exact (by decide : 9 + (asBytes "9P2000").length ≤ 256)
      · exact (by decide : 9 + (asBytes "unknown").length ≤ 256)
  | badVersion =>
    cases h
    exact (by decide : (RMessage.rerror ⟨"Tversion: invalid tag"⟩).len ≤ 256)
  | flush oldtag =>
    cases h
    exact (by decide : 3 ≤ 256)
  | request req => cases h
  | undecodable e =>
    cases h
    have htext := toString_length e
    simp only [RMessage.len]
    omega

theorem negotiated_version {req : Tversion} {v : Rversion} (h : versionReply req = .rversion v) :
    256 ≤ v.msize.toNat := by
  unfold versionReply at h
  split at h
  · cases h
  · rename_i hmsize
    cases h
    have hmax : (UInt32.ofNat maxMessageSize).toNat = 1192 := rfl
    have hmin : min req.msize (UInt32.ofNat maxMessageSize) =
        if req.msize ≤ UInt32.ofNat maxMessageSize then req.msize else UInt32.ofNat maxMessageSize :=
      rfl
    show 256 ≤ (min req.msize (UInt32.ofNat maxMessageSize)).toNat
    rw [hmin]
    split <;> omega

def SizesAgreed (log : List Event) : Prop :=
  ∀ newer owed resp bytes older m, log = newer ++ .sent owed resp bytes :: older →
    negotiated older = some m → bytes.length ≤ m

theorem SizesAgreed.cons {log : List Event} {e : Event} (h : SizesAgreed log)
    (he : ∀ owed resp bytes m, e = .sent owed resp bytes → negotiated log = some m →
      bytes.length ≤ m) : SizesAgreed (e :: log) := by
  intro newer owed resp bytes older m hlog hm
  cases newer with
  | nil =>
    obtain ⟨hhead, rfl⟩ := List.cons.inj hlog
    exact he owed resp bytes m hhead hm
  | cons e' newer =>
    obtain ⟨-, hrest⟩ := List.cons.inj hlog
    exact h newer owed resp bytes older m hrest hm

theorem negotiated_mem {log : List Event} (h : negotiated log = some m) :
    ∃ owed v bytes, .sent owed (.rversion v) bytes ∈ log ∧ v.msize.toNat = m := by
  fun_induction negotiated log with
  | case1 => cases h
  | case2 owed v bytes log =>
    cases h
    exact ⟨owed, v, bytes, List.mem_cons_self, rfl⟩
  | case3 e log hother ih =>
    obtain ⟨owed, v, bytes, hmem, hm⟩ := ih h
    exact ⟨owed, v, bytes, List.mem_cons_of_mem e hmem, hm⟩

theorem Session.Sound.negotiated (h : s.Sound handler) (hm : negotiated s.log = some m) :
    256 ≤ m := by
  obtain ⟨owed, v, bytes, hmem, rfl⟩ := negotiated_mem hm
  obtain ⟨⟨mgr, mgr', hcompletes⟩, -⟩ := h.sent _ _ _ hmem
  obtain ⟨req, hcause⟩ := completes_version hcompletes
  rw [hcause] at hcompletes
  generalize hresp : RMessage.rversion v = resp at hcompletes
  cases hcompletes
  exact negotiated_version hresp.symm

structure Session.Sized (s : Session W P O) : Prop where
  sent : SizesAgreed s.log
  replying : ∀ owed flushes resp m, s.pc = .reply owed flushes resp →
    negotiated s.log = some m → Room m resp

theorem Session.Sized.received (h : s.Sized) (incoming : Bytes) : (s.received incoming).Sized where
  sent := h.sent.cons (by simp)
  replying := by simp [Session.received]

theorem Session.Sized.log_sent (h : s.Sized) {owed : Owed} {resp : RMessage} {bytes : Bytes}
    (hlen : ∀ m, negotiated s.log = some m → bytes.length ≤ m) :
    SizesAgreed (.sent owed resp bytes :: s.log) := by
  refine h.sent.cons ?_
  intro o r b m heq hm
  cases heq
  exact hlen m hm

theorem sized_step (hsound : s.Sound handler) (h : s.Sized) (hfits : FitsStep handler s a)
    (hstep : s.step handler a = some s') : s'.Sized := by
  cases step_cases hstep with
  | reset hpc hempty hnext hbytes =>
    rename_i owed req bytes
    have hready : (Cause.version req).hdl = .ready (versionReply req) := rfl
    refine ⟨h.log_sent fun m hm => ?_, by simp⟩
    have hroom := hsound.negotiated hm
    exact serialized_length hroom (room_small hroom (ready_len hready)) hbytes
  | wait hpc hnext => exact { h with replying := by simp }
  | thrownOut hpc hrecv howes => exact h.received _
  | version hpc hrecv howes hcause =>
    have hr := h.received
    exact ⟨(hr _).sent, (hr _).replying⟩
  | push hpc hrecv howes hcause hflush =>
    have hr := h.received
    exact ⟨(hr _).sent, (hr _).replying⟩
  | park hpc hrecv howes hcause hfut htag =>
    rename_i incoming pick owed oldtag fut
    have hr := h.received incoming
    refine ⟨?_, by simp [Session.received]⟩
    cases fut.flushes with
    | none => exact hr.sent
    | some flush => exact hr.sent.cons (by simp)
  | complete hpc hfut hresp =>
    rename_i i fut resp mgr
    refine { h with replying := ?_ }
    intro owed flushes resp' m heq hm
    cases heq
    have hagreed := hsound.negotiated hm
    obtain ⟨hhdl, -⟩ := hsound.futures fut (List.mem_of_getElem? hfut)
    cases hfuthdl : fut.hdl with
    | ready resp =>
      rw [hfuthdl] at hresp hhdl
      cases hresp
      exact room_small hagreed (ready_len hhdl.symm)
    | dispatch req =>
      have hreq := hfits fut req m hfut hfuthdl hm
      rw [hfuthdl] at hresp
      cases hresp with
      | served hrun => exact served_room hagreed hreq (dispatch_ok hrun)
      | failed hrun => exact failed_room hagreed hreq (dispatch_error hrun)
  | reply hpc hbytes =>
    rename_i owed flushes resp bytes
    refine ⟨h.log_sent fun m hm => ?_, by cases flushes <;> simp [afterReply]⟩
    exact serialized_length (hsound.negotiated hm) (h.replying _ _ _ m hpc hm) hbytes
  | flush hpc hbytes =>
    refine ⟨h.log_sent fun m hm => ?_, by simp⟩
    have hroom := hsound.negotiated hm
    exact serialized_length hroom (room_small hroom (by decide)) hbytes
  | pending hpc => exact { h with replying := by simp }
  | else_ hpc hempty hnext => exact { h with replying := by simp }

/-- A dispatch that does not fit leaves a reply in hand that has no room. -/
theorem no_room {i : Nat} (hsound : s.Sound handler) (hstep : s.step handler (.complete i) = some s')
    (hfits : ¬FitsStep handler s (.complete i)) :
    ∃ owed flushes resp m, s'.pc = .reply owed flushes resp ∧ negotiated s'.log = some m ∧
      ¬Room m resp := by
  simp only [FitsStep, not_forall] at hfits
  obtain ⟨fut, req, m, hfut, hhdl, hm, hfits⟩ := hfits
  rw [fits_iff (hsound.negotiated hm), not_and_or] at hfits
  cases step_cases hstep with
  | complete hpc hfut' hresp =>
    rename_i fut' resp mgr
    obtain rfl : fut = fut' := Option.some.inj (hfut.symm.trans hfut')
    refine ⟨fut.tag, fut.flushes, resp, m, rfl, hm, fun hroom => ?_⟩
    rw [hhdl] at hresp
    obtain hnot | hnot := hfits <;> refine hnot fun resp' mgr' hrun' => ?_
    · cases hresp with
      | served hrun =>
        cases hrun.symm.trans hrun'
        exact hroom
      | failed hrun => cases hrun.symm.trans hrun'
    · cases hresp with
      | served hrun => cases hrun.symm.trans hrun'
      | failed hrun =>
        cases hrun.symm.trans hrun'
        exact hroom

/-- A reply without room is sent all the same. -/
theorem send_no_room {owed : Owed} {flushes : Option Owed}
    (hpc : s.pc = .reply owed flushes resp) (hm : negotiated s.log = some m)
    (hroom : ¬Room m resp) :
    ∃ s', s.step handler .send = some s' ∧ ¬SizesAgreed s'.log := by
  obtain ⟨bytes, hbytes⟩ := serialized_isSome resp owed.tag
  have hlong := serialized_too_long hroom hbytes
  have hsend : ∃ pc, s.step handler .send =
      some { s with pc, log := .sent owed resp bytes :: s.log } := by
    cases flushes <;> exact ⟨_, by simp only [Session.step, hpc, Session.send, hbytes]; rfl⟩
  obtain ⟨pc, hsend⟩ := hsend
  refine ⟨_, hsend, fun hsizes => ?_⟩
  have hshort := hsizes [] owed resp bytes s.log m rfl hm
  omega

end ReplySize

/-- The negotiated size. In every run whose completed dispatches fit what was
agreed, every reply is at most as long as the last Rversion says. And a
dispatch that does not fit is followed by a reply that is longer. -/
theorem negotiated_size_respected {W P O : Type} (handler : Serve W P O) (world : W) :
    (∀ s, Steps (Session.step handler) (FitsStep handler) (.start world) s → SizesAgreed s.log) ∧
    (∀ s i s', Reaches (Session.step handler) (.start world) s →
      s.step handler (.complete i) = some s' → ¬FitsStep handler s (.complete i) →
      ∃ s'', s'.step handler .send = some s'' ∧ ¬SizesAgreed s''.log) := by
  refine ⟨fun s h => ?_, fun s i s' hreach hstep hfits => ?_⟩
  · let I : Session W P O → Prop := fun s => s.Sound handler ∧ s.Sized
    have hstart : I (.start world) := ⟨start_sound world, by simp [SizesAgreed, Session.start],
      by simp [Session.start]⟩
    have hI : I s := h.invariant hstart fun hi hok hstep =>
      ⟨sound_step hi.1 hstep, sized_step hi.1 hi.2 hok hstep⟩
    exact hI.2.sent
  · obtain ⟨owed, flushes, resp, m, hpc, hm, hroom⟩ := no_room (reaches_sound hreach) hstep hfits
    exact send_no_room hpc hm hroom

def lastReply : List Event → Option (Nat × Option Nat)
  | .sent _ _ bytes :: older => some (bytes.length, negotiated older)
  | _ => none

def statRun : List Action :=
  let uname := "glendaglendaglendaglendaglendaglendaglendaglendaglendaglendaglendaglendaglendagl"
  let requests : List (UInt16 × TMessage) := [(notag, .tversion ⟨256, "9P2000"⟩),
    (1, .tattach ⟨0, nofid, uname, ""⟩), (2, .tstat ⟨0⟩)]
  requests.flatMap fun (tag, req) =>
    let incoming := (req.serialize tag).toOption.getD []
    if tag = notag then [.top, .recv incoming 0, .top]
    else [.recv incoming 0, .top, .complete 0, .send, .pending, .top]

/-- The reply to that stat carries the name three times and is 295 bytes long. -/
theorem reply_too_long : ¬∀ s,
    Reaches (Session.step (Res.handler Res.mainConfig)) (.start { fs := fun _ => Os.Fs.flat [] }) s →
      SizesAgreed s.log := by
  intro hall
  have hrun : (exec (Session.step (Res.handler Res.mainConfig))
      (.start { fs := fun _ => Os.Fs.flat [] }) statRun).map (fun s => lastReply s.log) =
      some (some (295, some 256)) := by
    decide +kernel
  obtain ⟨s, hs, hlast⟩ := Option.map_eq_some_iff.mp hrun
  cases hlog : s.log with
  | nil => simp [hlog, lastReply] at hlast
  | cons e older =>
    cases e with
    | sent owed resp bytes =>
      simp only [hlog, lastReply, Option.some.injEq, Prod.mk.injEq] at hlast
      have hshort := hall s (reaches_of_exec hs) [] owed resp bytes older 256 hlog hlast.2
      omega
    | _ => simp [hlog, lastReply] at hlast

end NineWire.Server
