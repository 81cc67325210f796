import NineWire.Client.Fids

/-! How long a fid is taken. It goes back to the pool with the reply to its
Tclunk, whatever that reply says; another request that names the fid can still
be under way then. -/
namespace NineWire.Client
open NineWire.Wire NineWire.Server NineWire.Transition NineWire.Util NineWire.Table

section Orderly
variable {W P O : Type}

def Mount.clunked (s : Mount W P O) : MountAction → Option UInt32
  | .serve (.complete i) =>
    match s.server.inflight[i]?.map TaggedFuture.hdl with
    | some (.dispatch (.tclunk m)) => some m.fid
    | _ => none
  | _ => none

def isClunk : MountAction → Bool
  | .clunk _ => true
  | _ => false

/-- A Tclunk is dispatched after the requests that name its fid as a new one, and
a clunk task finds a tag. -/
def Mount.Orderly (s : Mount W P O) (a : MountAction) : Prop :=
  (∀ fid ∈ s.clunked a, s.Quiet fid) ∧ (isClunk a → s.hasTag)

instance (s : Mount W P O) (c : Nat) (fid : UInt32) : Decidable (s.Names c fid) :=
  inferInstanceAs (Decidable (∃ asked ∈ s.traffic.client.asked c, Binds fid asked.2))

instance (s : Mount W P O) (c : Nat) : Decidable (s.Underway c) :=
  inferInstanceAs (Decidable (_ ∨ ∃ fut ∈ s.server.inflight, _))

instance (s : Mount W P O) (fid : UInt32) : Decidable (s.Quiet fid) :=
  inferInstanceAs (Decidable (∀ c < s.traffic.client.calls.length, s.Names c fid → ¬s.Underway c))

-- by name: there are instances that try every fid
instance (s : Mount W P O) (a : MountAction) : Decidable (s.Orderly a) :=
  @instDecidableAnd _ _ (Option.decidableForallMem (s.clunked a)) inferInstance

end Orderly

section Quieter
variable {W P O : Type} {handler : Serve W P O} {world : W} {s s' : Mount W P O} {c : Nat}

theorem quieter_onward {t : Traffic} (h : Onward s.traffic t) :
    Quieter s { s with traffic := t } where
  asked := h.asked
  underway d hunder := by
    obtain hunsent | hfut := hunder
    · obtain hsame | ⟨hwas, -⟩ | ⟨reply, -, hdelivered⟩ := h.fates d
      · exact .inl (hsame.symm.trans hunsent)
      · exact .inl hwas
      · cases hdelivered.symm.trans hunsent
    · exact .inr hfut
  lost d hlost := by
    obtain hsame | ⟨hwas, -⟩ | ⟨reply, hwas, -⟩ := h.fates d
    · exact hsame.trans hlost
    · cases hwas.symm.trans hlost
    · cases hwas.symm.trans hlost
  unbound fid hclean := hclean.unbound
  ended d tag fid hasked hunder := by
    obtain hunsent | hfut := hunder
    · obtain hsame | ⟨-, hlost⟩ | ⟨reply, hwas, -⟩ := h.fates d
      · exact .inl (.inl (hsame.trans hunsent))
      · exact .inr (.inl hlost)
      · cases hwas.symm.trans hunsent
    · exact .inl (.inr hfut)

theorem quieter_arrive {owed : Owed} {message : TMessage} {incoming : Bytes}
    (h : Wired handler world s) (ha : Arrival handler s s' c owed message incoming) :
    Quieter s s' := by
  have hfates {d : Nat} (hdc : d ≠ c) : s'.traffic.fates d = s.traffic.fates d := by
    rw [ha.traffic]
    exact Function.update_of_ne hdc _ _
  have hpending : s'.traffic.fates c = .pending := by
    rw [ha.traffic]
    exact Function.update_self _ _ _
  have horigin {fut : TaggedFuture} (hfut : fut ∈ s.server.inflight) :
      s'.origin fut.tag.serial = s.origin fut.tag.serial := by
    have hlt := h.serial_lt (mem_unanswered_of_inflight hfut)
    rw [ha.origin, Function.update_of_ne (by omega)]
  have hnew : s'.origin owed.serial = some c := by
    rw [ha.origin, ha.serial, Function.update_self]
  have hinflight : s'.server.inflight = ⟨owed, none, owed.cause.hdl⟩ :: s.server.inflight := by
    rw [ha.server]
    rfl
  refine ⟨by rw [ha.traffic], fun d hunder => ?_, fun d hlost => ?_, fun fid hclean => ?_,
    fun d tag fid hasked hunder => .inl ?_⟩
  · by_cases hdc : d = c
    · rw [hdc]
      exact .inl ha.unsent
    · obtain hunsent | ⟨fut, hfut, hd⟩ := hunder
      · exact .inl ((hfates hdc).symm.trans hunsent)
      · rw [hinflight] at hfut
        obtain rfl | hold := List.mem_cons.mp hfut
        · exact (hdc (Option.some.inj (hd.symm.trans hnew))).elim
        · exact .inr ⟨fut, hold, (horigin hold).symm.trans hd⟩
  · have hdc : d ≠ c := by
      intro heq
      subst heq
      cases hlost.symm.trans ha.unsent
    rw [hfates hdc, hlost]
  · rw [ha.server]
    exact hclean.unbound
  · by_cases hdc : d = c
    · rw [hdc]
      exact .inr ⟨_, by rw [hinflight]; exact List.mem_cons_self, hnew⟩
    · obtain hunsent | ⟨fut, hfut, hd⟩ := hunder
      · exact .inl ((hfates hdc).trans hunsent)
      · refine .inr ⟨fut, ?_, (horigin hfut).trans hd⟩
        rw [hinflight]
        exact List.mem_cons_of_mem _ hfut

theorem quieter_answer {owed : Owed} {bytes : Bytes} (h : Wired handler world s)
    (hr : Reply handler s s' c owed bytes) : Quieter s s' := by
  have hpending : s.traffic.fates c = .pending := by
    refine h.pending owed ?_ c hr.origin
    rw [hr.unanswered]
    exact Multiset.mem_cons_self _ _
  have hfates : Refates s.traffic s'.traffic c (.answered bytes) := by
    rw [hr.traffic]
    exact refates_update _ _
  have hunder (d : Nat) : s'.Underway d ↔ s.Underway d := by
    rw [Mount.Underway, Mount.Underway, hr.inflight, hr.sameOrigin]
    by_cases hdc : d = c
    · rw [hdc, hfates.self, hpending]
      simp
    · rw [hfates.other d hdc]
  refine ⟨by rw [hr.traffic], fun d => (hunder d).mp, fun d hlost => ?_, fun fid hclean => ?_,
    fun d tag fid hasked hd => .inl ((hunder d).mpr hd)⟩
  · have hdc : d ≠ c := by
      intro heq
      subst heq
      cases hlost.symm.trans hpending
    rw [hfates.other d hdc, hlost]
  · rw [hr.mgr]
    exact hclean.unbound

theorem Wired.dispatching (h : Wired handler world s) {fut : TaggedFuture} {req : TMessage}
    (hfut : fut ∈ s.server.inflight) (hhdl : fut.hdl = .dispatch req) :
    ∃ c message, s.Owes fut.tag c message ∧ bounded s.traffic.client.maxlen message = some req := by
  obtain ⟨c, message, howes⟩ := h.owes (mem_unanswered_of_inflight hfut)
  have hcause := ((reaches_sound h.server).futures fut hfut).1
  obtain ⟨req', hreq, hbounded⟩ | ⟨-, e, he⟩ := howes.cause
  · rw [hhdl, hreq] at hcause
    obtain rfl := Hdl.dispatch.inj hcause
    exact ⟨c, message, howes, hbounded⟩
  · rw [hhdl, he] at hcause
    cases hcause

/-- The future of a Tclunk dispatches it. -/
theorem Wired.clunking (h : Wired handler world s) {fut : TaggedFuture} {tag : UInt16}
    {fid : UInt32} (hfut : fut ∈ s.server.inflight) (horigin : s.origin fut.tag.serial = some c)
    (hasked : s.traffic.client.asked c = some (tag, .tclunk ⟨fid⟩)) :
    fut.hdl = .dispatch (.tclunk ⟨fid⟩) := by
  obtain ⟨c', message, howes⟩ := h.owes (mem_unanswered_of_inflight hfut)
  obtain rfl := Option.some.inj (howes.origin.symm.trans horigin)
  obtain ⟨-, rfl⟩ := Prod.mk.inj (Option.some.inj (howes.asked.symm.trans hasked))
  rw [((reaches_sound h.server).futures fut hfut).1]
  obtain ⟨req, hreq, hbounded⟩ | ⟨hclunk, -⟩ := howes.cause
  · obtain rfl := Option.some.inj hbounded
    rw [hreq]
    rfl
  · exact (hclunk _ rfl).elim

theorem binds_bounded {maxlen : Nat} {message req : TMessage} {fid : UInt32}
    (hbounded : bounded maxlen message = some req) (hbinds : Binds fid req) :
    Binds fid message := by
  cases message with
  | twrite m =>
    obtain ⟨bound, -, rfl⟩ := Option.map_eq_some_iff.mp hbounded
    exact hbinds
  | _ =>
    obtain rfl := Option.some.inj hbounded
    exact hbinds

/-- What a step of the session does to what is in flight. -/
theorem internal_cases {server server' : Session W P O} {a : Server.Action} (ha : isInternal a)
    (hnext : server.nextSession = none) (h : server.step handler a = some server') :
    server'.inflight = server.inflight ∨
    ∃ i fut resp, a = .complete i ∧ server.inflight[i]? = some fut ∧
      Completes handler server.mgr fut.hdl resp server'.mgr ∧
      server'.inflight = server.inflight.eraseIdx i := by
  cases step_cases h with
  | reset _ _ hsome _ => cases hnext.symm.trans hsome
  | complete _ hfut hresp => exact .inr ⟨_, _, _, rfl, hfut, hresp, rfl⟩
  | wait => exact .inl rfl
  | pending => exact .inl rfl
  | else_ => exact .inl rfl
  | _ => cases ha

/-- A dispatch binds no fid that is clean, and a Tclunk that is dispatched in
order leaves its fid clean. -/
theorem quieter_serve {a : Server.Action} {server : Session W P O} (h : Wired handler world s)
    (hok : s.Orderly (.serve a)) (ha : isInternal a)
    (hstep : s.server.step handler a = some server) :
    Quieter s { s with server } := by
  have hin := internal_step ha h.nextSession hstep
  have hunder (d : Nat) (hd : Mount.Underway { s with server } d) : s.Underway d := by
    obtain hunsent | ⟨fut, hfut, hd⟩ := hd
    · exact .inl hunsent
    · exact .inr ⟨fut, hin.inflight fut hfut, hd⟩
  refine ⟨rfl, hunder, fun d => id, fun fid hclean => ?_, fun d tag fid hasked hd => ?_⟩
  · refine (table_step hstep).unbound hclean.unbound fun i fut req _ hfut hhdl hbinds => ?_
    have hmem := List.mem_of_getElem? hfut
    obtain ⟨d, message, howes, hbounded⟩ := h.dispatching hmem hhdl
    exact hclean.quiet.names ⟨_, howes.asked, binds_bounded hbounded hbinds⟩
      (.inr ⟨fut, hmem, howes.origin⟩)
  · obtain hunsent | ⟨fut, hfut, hd⟩ := hd
    · exact .inl (.inl hunsent)
    · rcases internal_cases ha h.nextSession hstep with
        hsame | ⟨i, done, resp, rfl, hi, hresp, herase⟩
      · exact .inl (.inr ⟨fut, by rwa [hsame], hd⟩)
      · obtain ⟨j, hj⟩ := List.getElem?_of_mem hfut
        by_cases hji : j = i
        · subst hji
          obtain rfl := Option.some.inj (hi.symm.trans hj)
          have hhdl := h.clunking hfut hd hasked
          have hquiet : s.Quiet fid := hok.1 fid (by simp [Mount.clunked, hi, hhdl])
          refine .inr (.inr ⟨tclunk_unbound hhdl hresp, fun d' hlt hnames hd' => ?_⟩)
          exact hquiet d' hlt hnames (hunder d' hd')
        · refine .inl (.inr ⟨fut, ?_, hd⟩)
          rw [herase]
          exact List.mem_eraseIdx_iff_getElem?.mpr ⟨j, hji, hj⟩

end Quieter

section Steps
variable {W P O : Type} {handler : Serve W P O} {world : W} {s s' : Mount W P O} {h : Nat}
  {handle : Handle}

structure Sound (handler : Serve W P O) (world : W) (s : Mount W P O) : Prop where
  wired : Wired handler world s
  fids : Fids s

theorem Sound.quieter (hs : Sound handler world s) (hwired : Wired handler world s')
    (hq : Quieter s s') (hpool : s'.pool = s.pool) (hhandles : s'.handles = s.handles) :
    Sound handler world s' :=
  ⟨hwired, hs.fids.frame hpool hhandles (fun _ => hq.clean) fun _ _ => hq.clunks⟩

theorem Sound.transfer {a : TrafficAction} (hs : Sound handler world s) (ha : Ongoing a)
    (hstep : s.transfer a = some s') : Sound handler world s' := by
  obtain ⟨t, ht, rfl⟩ := Option.map_eq_some_iff.mp hstep
  obtain ⟨hon, -⟩ := onward_step ha hs.wired.formed ht
  exact hs.quieter (hs.wired.onward ha ht) (quieter_onward hon) rfl rfl

theorem Sound.setStage {stage : HandleStage} (hs : Sound handler world s)
    (hget : s.handles[h]? = some handle) (hlive : handle.stage ≠ .dropped)
    (hstage : ∀ c, stage ≠ .clunking c) : Sound handler world (s.setStage h handle stage) where
  wired := hs.wired.frame _ _
  fids := hs.fids.update hget hlive rfl hs.fids.valid (fun _ => .inl)
    (fun _ hclean _ => hclean.frame _ _) (fun _ _ hclunks _ => hclunks.frame _ _)
    fun c hc => (hstage c hc).elim

theorem stage_ne (s : Mount W P O) (outcome : Outcome) (c : Nat) :
    s.stage outcome ≠ .clunking c := by
  cases outcome with
  | request message goal =>
    simp only [Mount.stage]
    split <;> simp
  | _ => simp [Mount.stage]

theorem Wired.request {outcome : Outcome} {fid : UInt32} (hw : Wired handler world s)
    (hown : outcome.Own fid) : Wired handler world (s.request outcome) := by
  cases outcome with
  | request message goal => exact hw.call hown.1
  | _ => exact hw

theorem request_pool (s : Mount W P O) (outcome : Outcome) : (s.request outcome).pool = s.pool := by
  cases outcome <;> rfl

theorem request_handles (s : Mount W P O) (outcome : Outcome) :
    (s.request outcome).handles = s.handles := by
  cases outcome <;> rfl

theorem Sound.proceed {outcome : Outcome} (hs : Sound handler world s)
    (hget : s.handles[h]? = some handle) (hlive : handle.stage ≠ .dropped)
    (hown : outcome.Own handle.fid) : Sound handler world (s.proceed h handle outcome) where
  wired := (hs.wired.request hown).frame _ _
  fids := by
    have hpool : (s.proceed h handle outcome).pool = s.pool := request_pool s outcome
    have hhandles : (s.proceed h handle outcome).handles =
        s.handles.set h { handle with stage := s.stage outcome } := by
      rw [Mount.proceed, Mount.setStage, request_handles]
    refine hs.fids.update hget hlive hhandles ?_ ?_ ?_ ?_ ?_
    · rw [hpool]
      exact hs.fids.valid
    · rw [hpool]
      exact fun _ => .inl
    · exact fun _ hclean hne => (hclean.request hown hne).frame _ _
    · exact fun _ _ hclunks hne => (hclunks.request hown hne).frame _ _
    · exact fun c hc => (stage_ne s outcome c hc).elim

theorem Sound.begin {operation : UInt32 → Outcome} (hs : Sound handler world s)
    (hown : ∀ fid, (operation fid).Own fid) : Sound handler world (s.begin operation) := by
  unfold Mount.begin
  split
  · rename_i fid pool hget
    exact ⟨(hs.wired.request (hown fid)).frame _ _, hs.fids.begin hget (hown fid) (stage_ne s _)⟩
  · exact hs

theorem Sound.call {message : TMessage} (hs : Sound handler world s) (hsends : Sends message)
    (hbinds : ∀ fid, ¬Binds fid message) : Sound handler world (s.call message) where
  wired := hs.wired.call hsends
  fids := hs.fids.frame rfl rfl (fun fid hclean => hclean.call (hbinds fid))
    fun _ fid hclunks => hclunks.call (hbinds fid)

/-- The assertions of the pool hold. -/
theorem Sound.giveBack_isSome (hs : Sound handler world s) (hget : s.handles[h]? = some handle)
    (hlive : handle.stage ≠ .dropped) : (s.giveBack h handle).isSome := by
  obtain ⟨pool, hput⟩ := Option.isSome_iff_exists.mp (put_isSome (hs.fids.held h handle hget hlive))
  rw [Mount.giveBack, hput]
  rfl

/-- A fid that is given back is clean. -/
theorem Sound.giveBack (hs : Sound handler world s) (hget : s.handles[h]? = some handle)
    (hlive : handle.stage ≠ .dropped) (hclean : s.Clean handle.fid)
    (hstep : s.giveBack h handle = some s') : Sound handler world s' := by
  obtain ⟨pool, hput, hstep⟩ := Option.bind_eq_some_iff.mp hstep
  obtain rfl := Option.some.inj hstep
  obtain ⟨hvalid, hfree⟩ := put_spec hs.fids.valid hput
  refine ⟨hs.wired.frame _ _, hs.fids.update hget hlive rfl hvalid (fun fid hfid => ?_)
    (fun _ hc _ => hc.frame _ _) (fun _ _ hc _ => hc.frame _ _) (by simp)⟩
  obtain hold | rfl := (hfree fid).mp hfid
  · exact .inl hold
  · exact .inr ⟨rfl, rfl, hclean.frame _ _⟩

/-- A clunk that has its reply was dispatched. -/
theorem Sound.clunked {c : Nat} {t : Traffic} (hs : Sound handler world s)
    (hget : s.handles[h]? = some handle) (hstage : handle.stage = .clunking c)
    (hstep : s.traffic.step (.poll c .resume) = some t) : s.Clean handle.fid := by
  obtain ⟨client, hpoll, rfl⟩ := Option.map_eq_some_iff.mp hstep
  obtain ⟨call, stage, hcall, hnext, -⟩ := poll_cases hpoll
  obtain ⟨resp, hreply, -⟩ := hs.wired.formed.resume hcall hnext
  obtain ⟨reply, hdelivered, -⟩ := hs.wired.routed.replied c call resp hcall (.inl hreply)
  have hclunks := hs.fids.clunking h handle c hget hstage
  obtain (hunsent | ⟨fut, hfut, horigin⟩) | hlost | hclean := hclunks.clean
  · cases hdelivered.symm.trans hunsent
  · have hpending := hs.wired.pending fut.tag (mem_unanswered_of_inflight hfut) c horigin
    cases hdelivered.symm.trans hpending
  · cases hdelivered.symm.trans hlost
  · exact hclean

theorem Sound.poll {c : Nat} {t : Traffic} (hs : Sound handler world s)
    (ht : s.traffic.step (.poll c .resume) = some t) :
    Sound handler world { s with traffic := t } ∧ Quieter s { s with traffic := t } := by
  have hongoing : Ongoing (.poll c .resume) := trivial
  obtain ⟨hon, -⟩ := onward_step hongoing hs.wired.formed ht
  have hq := quieter_onward hon
  exact ⟨hs.quieter (hs.wired.onward hongoing ht) hq rfl rfl, hq⟩

theorem Sound.resume (hs : Sound handler world s) (hget : s.handles[h]? = some handle)
    (hstep : s.resume h handle = some s') : Sound handler world s' := by
  unfold Mount.resume at hstep
  split at hstep
  · rename_i hstage
    obtain ⟨t, ht, hstep⟩ := Option.bind_eq_some_iff.mp hstep
    obtain ⟨hs', -⟩ := hs.poll ht
    have hlive : handle.stage ≠ .dropped := by simp [hstage]
    dsimp only at hstep
    split at hstep
    · obtain rfl := Option.some.inj hstep
      exact hs'.proceed hget hlive (next_own _ _ _)
    · obtain rfl := Option.some.inj hstep
      exact hs'.proceed hget hlive trivial
  · rename_i hstage
    obtain ⟨t, ht, hstep⟩ := Option.bind_eq_some_iff.mp hstep
    obtain ⟨hs', hq⟩ := hs.poll ht
    have hclean := hs.clunked hget hstage ht
    exact hs'.giveBack hget (by simp [hstage]) (hq.clean hclean) hstep
  · cases hstep

theorem asked_fresh {client : Calls} (htag : (pickTag client.inflight.keys 0).isSome)
    (message : TMessage) :
    ∃ tag, (client.call message).asked client.calls.length = some (tag, message) := by
  obtain ⟨hnone, -⟩ | ⟨tag, -, hnew⟩ := call_cases client message
  · rw [hnone] at htag
    cases htag
  · exact ⟨tag, by rw [hnew, asked_of_get List.getElem?_concat_length]; rfl⟩

theorem Sound.clunk (hs : Sound handler world s) (hget : s.handles[h]? = some handle)
    (hspawned : handle.stage = .spawned) (htag : s.hasTag) (hstep : s.clunk h handle = some s') :
    Sound handler world s' := by
  rw [Mount.clunk, if_pos htag] at hstep
  obtain rfl := Option.some.inj hstep
  have hcall : Sound handler world (s.call (.tclunk ⟨handle.fid⟩)) := hs.call trivial fun _ => id
  refine ⟨hcall.wired.frame _ _, hcall.fids.update hget (by simp [hspawned]) rfl hs.fids.valid
    (fun _ => .inl) (fun _ hc _ => hc.frame _ _) (fun _ _ hc _ => hc.frame _ _) ?_⟩
  intro c hc
  obtain rfl := HandleStage.clunking.inj hc
  exact ⟨asked_fresh htag _, .inl (.inl (hs.wired.routed.fresh _ (Nat.le_refl _)))⟩

theorem io_sends {message : TMessage} (h : isIo message) :
    Sends message ∧ ∀ fid, ¬Binds fid message := by
  cases message with
  | tstat m => exact ⟨trivial, fun _ => id⟩
  | tread m => exact ⟨trivial, fun _ => id⟩
  | twrite m => exact ⟨trivial, fun _ => id⟩
  | _ => cases h

theorem poll_transfer {c : Nat} {p : Poll} (hstep : s.poll c p = some s') :
    s.transfer (.poll c p) = some s' := by
  obtain ⟨call, hcall, hstep⟩ := Option.bind_eq_some_iff.mp hstep
  cases p with
  | sent => exact hstep
  | sendFails => cases hstep
  | _ =>
    simp only at hstep
    split at hstep
    · exact hstep
    · cases hstep

theorem Sound.operation {kind : Kind} {operation : UInt32 → UInt32 → Outcome} {h : Nat}
    (hs : Sound handler world s) (hown : ∀ src fid, (operation src fid).Own fid)
    (hstep : (s.handles[h]?.bind fun handle =>
      if handle.stage = .live kind then some (s.begin (operation handle.fid))
      else none) = some s') :
    Sound handler world s' := by
  obtain ⟨handle, hget, hstep⟩ := Option.bind_eq_some_iff.mp hstep
  split at hstep
  · obtain rfl := Option.some.inj hstep
    exact hs.begin (hown handle.fid)
  · cases hstep

theorem Sound.step {a : MountAction} (hs : Sound handler world s) (hok : s.Orderly a)
    (hstep : s.step handler a = some s') : Sound handler world s' := by
  cases a with
  | attach uname aname =>
    obtain rfl := Option.some.inj hstep
    exact hs.begin (attach_own uname aname)
  | openDirAt h path => exact hs.operation (fun src => openDirAt_own src path) hstep
  | openAt h path => exact hs.operation (fun src => openAt_own src path) hstep
  | readDir h =>
    obtain ⟨handle, hget, hstep⟩ := Option.bind_eq_some_iff.mp hstep
    split at hstep
    · rename_i hlive
      obtain rfl := Option.some.inj hstep
      exact hs.proceed hget (by simp [hlive]) (topen_own _ _)
    · cases hstep
  | io message =>
    obtain ⟨hio, hstep⟩ := Option.ite_none_right_eq_some.mp hstep
    obtain rfl := Option.some.inj hstep
    obtain ⟨hsends, hbinds⟩ := io_sends hio
    exact hs.call hsends hbinds
  | poll c p => exact hs.transfer (by trivial) (poll_transfer hstep)
  | resume h =>
    obtain ⟨handle, hget, hstep⟩ := Option.bind_eq_some_iff.mp hstep
    exact hs.resume hget hstep
  | drop h =>
    obtain ⟨handle, hget, hstep⟩ := Option.bind_eq_some_iff.mp hstep
    split at hstep
    · rename_i kind hlive
      obtain rfl := Option.some.inj hstep
      exact hs.setStage hget (by simp [hlive]) (by simp)
    · cases hstep
  | cancel h =>
    obtain ⟨handle, hget, hstep⟩ := Option.bind_eq_some_iff.mp hstep
    split at hstep
    · rename_i c goal hawaiting
      obtain ⟨t, ht, rfl⟩ := Option.map_eq_some_iff.mp hstep
      have hs' := hs.transfer (by trivial) ht
      obtain ⟨traffic, -, rfl⟩ := Option.map_eq_some_iff.mp ht
      exact hs'.setStage hget (by simp [hawaiting]) (by simp)
    · cases hstep
  | clunk h =>
    obtain ⟨handle, hget, hstep⟩ := Option.bind_eq_some_iff.mp hstep
    split at hstep
    · rename_i hspawned
      exact hs.clunk hget hspawned (hok.2 rfl) hstep
    · cases hstep
  | arrive c pick =>
    obtain ⟨owed, message, incoming, ha⟩ := hs.wired.arrival hstep
    exact hs.quieter (hs.wired.arrive ha) (quieter_arrive hs.wired ha) ha.pool ha.handles
  | lose c => exact hs.transfer (by trivial) hstep
  | serve a =>
    obtain ⟨ha, hstep⟩ := Option.ite_none_right_eq_some.mp hstep
    obtain ⟨server, hserver, rfl⟩ := Option.map_eq_some_iff.mp hstep
    exact hs.quieter (hs.wired.serve ha hserver) (quieter_serve hs.wired hok ha hserver) rfl rfl
  | answer =>
    obtain ⟨owed, c, bytes, hr⟩ := hs.wired.reply hstep
    exact hs.quieter (hs.wired.answer hr) (quieter_answer hs.wired hr) hr.pool hr.handles
  | deliver c => exact hs.transfer (by trivial) hstep
  | recvFails => exact hs.transfer (by trivial) hstep

theorem Sound.start (hstart : Mount.start handler world = some s) : Sound handler world s := by
  obtain ⟨server, hserver, rfl⟩ := Option.map_eq_some_iff.mp hstart
  have hreaches := reaches_of_exec hserver
  obtain ⟨owed, resp, bytes, hshaken⟩ : ∃ owed resp bytes,
      exec (Session.step handler) (.start world) handshake = some
        { mgr := ⟨fun _ => none, world⟩, inflight := [], initialized := true, nextSession := none,
          pc := .select, serial := 1,
          log := [.sent owed resp bytes, .received 0 versionData false] } := ⟨_, _, _, rfl⟩
  obtain rfl := Option.some.inj (hserver.symm.trans hshaken)
  refine ⟨⟨.start _, .start _, nofun, hreaches, rfl, rfl, ?_, nofun, nofun, ?_⟩,
    ⟨new_valid, fun fid _ => ⟨rfl, nofun⟩, nofun, nofun, nofun⟩⟩
  · intro serial incoming initialized hmem
    obtain heq | hmem := List.mem_cons.mp hmem
    · cases heq
    · obtain ⟨-, rfl, -⟩ := Event.received.inj (List.mem_singleton.mp hmem)
      exact .inl ⟨_, rfl⟩
  · intro owed' _ c horigin
    cases horigin

end Steps

/-- In a run in which no Tclunk overtakes a request that names its fid, a fid
that is handed out is unbound, and no earlier request can bind it. -/
theorem fid_lifetime {W P O : Type} (handler : Serve W P O) (world : W) {s₀ s : Mount W P O}
    (hstart : Mount.start handler world = some s₀)
    (hrun : Steps (Mount.step handler) Mount.Orderly s₀ s) {fid : UInt32} {pool : FidPool}
    (hget : s.pool.get = some (fid, pool)) : s.Clean fid := by
  have hsound : Sound handler world s :=
    hrun.invariant (.start hstart) fun hs hok hstep => hs.step hok hstep
  obtain ⟨-, hfree, -⟩ := get_spec hsound.fids.valid hget
  exact hsound.fids.free fid hfree

section Runs

def exported : Serve Unit Unit Empty where
  pathQid _ := ⟨qtdir, 0, 0⟩
  pathRemove _ := throw (.err "Permission denied")
  pathStat _ := throw (.err "Permission denied")
  pathWstat _ _ := throw (.err "Permission denied")
  walk _ _ := return ([], some ())
  open_ _ _ := throw (.err "Permission denied")
  create _ _ _ _ := throw (.err "Permission denied")
  openQid := nofun
  openRemove := nofun
  openStat := nofun
  openWstat := nofun
  read := nofun
  write := nofun
  auth _ _ := throw (.err "Permission denied")
  attach _ _ _ := return ()

/-- Attach, drop the directory, and have its fid back. -/
def givenBack : List MountAction :=
  [.attach "glenda" "", .poll 0 .sent, .arrive 0 0, .serve .top, .serve (.complete 0), .answer,
    .serve .pending, .serve .top, .deliver 0, .resume 0, .drop 0, .clunk 0, .poll 1 .sent,
    .arrive 1 0, .serve .top, .serve (.complete 0), .answer, .deliver 1, .resume 0]

/-- An attach is dropped while it waits, and the Tclunk arrives before its Tattach. -/
def overtaken : List MountAction :=
  [.attach "glenda" "", .poll 0 .sent, .cancel 0, .clunk 0, .poll 1 .sent, .arrive 1 0, .serve .top,
    .serve (.complete 0), .answer, .serve .pending, .serve .top, .deliver 1, .resume 0,
    .arrive 0 0, .serve .top, .serve (.complete 0)]

theorem fid_lifetime_given_back : ∃ s₀ s pool, Mount.start exported () = some s₀ ∧
    exec (guarded (Mount.step exported) fun s a => s.Orderly a) s₀ givenBack = some s ∧
    s.pool.get = some (0, pool) ∧ s.Clean 0 := by
  have hcheck : ((Mount.start exported ()).bind fun s₀ =>
      (exec (guarded (Mount.step exported) fun s a => s.Orderly a) s₀ givenBack).bind fun s =>
        s.pool.get.map Prod.fst) = some 0 := by decide +kernel
  obtain ⟨s₀, hstart, hcheck⟩ := Option.bind_eq_some_iff.mp hcheck
  obtain ⟨s, hrun, hcheck⟩ := Option.bind_eq_some_iff.mp hcheck
  obtain ⟨⟨fid, pool⟩, hget, rfl⟩ := Option.map_eq_some_iff.mp hcheck
  have hsteps := (steps_of_exec hrun).mono fun _ _ => of_decide_eq_true
  exact ⟨s₀, s, pool, hstart, hrun, hget, fid_lifetime exported () hstart hsteps hget⟩

theorem fid_lifetime_overtaken : ¬∀ (s₀ s : Mount Unit Unit Empty) (fid : UInt32) (pool : FidPool),
    Mount.start exported () = some s₀ → Reaches (Mount.step exported) s₀ s →
    s.pool.get = some (fid, pool) → s.Clean fid := by
  intro h
  have hcheck : ((Mount.start exported ()).bind fun s₀ =>
      (exec (Mount.step exported) s₀ overtaken).bind fun s => s.pool.get.map fun got =>
        (s.server.mgr.resources got.1).isSome) = some true := by decide
  obtain ⟨s₀, hstart, hcheck⟩ := Option.bind_eq_some_iff.mp hcheck
  obtain ⟨s, hrun, hcheck⟩ := Option.bind_eq_some_iff.mp hcheck
  obtain ⟨⟨fid, pool⟩, hget, hbound⟩ := Option.map_eq_some_iff.mp hcheck
  have hclean := h s₀ s fid pool hstart (reaches_of_exec hrun) hget
  simp [hclean.unbound] at hbound

end Runs

end NineWire.Client
