import NineWire.Client.Negotiation
import NineWire.Client.Requests
import NineWire.Wire.RequestLength
import NineWire.Wire.Tags

/-! The tag of a call, from the datagram `transact` sends to the reply: the
server finds the tag in it whatever it makes of the rest, and answers under it. -/
namespace NineWire.Client
open NineWire.Wire NineWire.Server NineWire.Ledger NineWire.Transition

section Datagrams
variable {maxlen serial : Nat} {tag : UInt16} {message : TMessage} {data : Bytes}

theorem serialize_attributed (h : message.serialize tag = .ok data) : Attributed data tag := by
  by_cases hm : message.Is9P2000
  · exact .inl ⟨message, message.deserialize_serialize hm h⟩
  · cases message with
    | treads m =>
      exact .inl ⟨_, Tread.deserialize_serialize ((m.serialize_eq tag).symm.trans h)⟩
    | _ => exact (hm trivial).elim

theorem requestData_attributed (h : requestData maxlen tag message = some data) :
    Attributed data tag := by
  obtain ⟨req, -, hdata⟩ := Option.bind_eq_some_iff.mp h
  cases hser : req.serialize tag with
  | ok data' =>
    rw [hser] at hdata
    obtain rfl := Option.some.inj hdata
    exact serialize_attributed hser
  | error e =>
    cases herror : (RMessage.rerror ⟨e.toString⟩).serialize tag with
    | ok data' =>
      simp only [hser, herror, Except.toOption, Option.some.injEq] at hdata
      subst hdata
      exact .inr ⟨_, deserializeT_rerror herror, rfl⟩
    | error e' =>
      simp only [hser, herror, Except.toOption] at hdata
      cases hdata

/-- Only the write bound keeps `transact` from having something to send. -/
theorem requestData_isSome (h : (bounded maxlen message).isSome) (tag : UInt16) :
    ∃ data, requestData maxlen tag message = some data := by
  obtain ⟨req, hreq⟩ := Option.isSome_iff_exists.mp h
  rw [requestData, hreq]
  cases hser : req.serialize tag with
  | ok data => exact ⟨data, by simp [hser]⟩
  | error e => exact ⟨_, by simp only [Option.bind_some, hser]; rfl⟩

theorem owes_attributed (h : Attributed data tag) (serial : Nat) :
    ∃ owed, owes serial data true = some owed ∧ owed.tag = tag := by
  obtain ⟨m, hdes⟩ | ⟨e, hdes, htag⟩ := h
  · cases m <;> simp [owes, hdes]
  · exact ⟨⟨serial, tag, .undecodable e⟩, by simp [owes, hdes, htag], rfl⟩

end Datagrams

section Replies
variable {W P O : Type} {handler : Serve W P O} {world : W} {s s' : Session W P O}

/-- What is accepted is unanswered until its reply is out. -/
theorem recv_unanswered {incoming : Bytes} {pick : Nat} {owed : Owed}
    (hstep : s.step handler (.recv incoming pick) = some s')
    (howes : owes s.serial incoming s.initialized = some owed) : owed ∈ s'.unanswered := by
  cases step_cases hstep with
  | thrownOut hpc hrecv hnone =>
    rw [hnone] at howes
    cases howes
  | version hpc hrecv hsome hcause =>
    obtain rfl := Option.some.inj (howes.symm.trans hsome)
    exact mem_unanswered.mpr (.inr (.inr ⟨_, rfl⟩))
  | push hpc hrecv hsome hcause hflush =>
    obtain rfl := Option.some.inj (howes.symm.trans hsome)
    have hpushed : ⟨owed, none, owed.cause.hdl⟩ ∈ ((s.received incoming).push owed
        owed.cause.hdl).inflight := List.mem_cons_self
    exact mem_unanswered_of_inflight hpushed
  | park hpc hrecv hsome hcause hfut htag =>
    rename_i oldtag fut
    obtain rfl := Option.some.inj (howes.symm.trans hsome)
    obtain ⟨hi, -⟩ := List.getElem?_eq_some_iff.mp hfut
    have hparked : owed ∈ TaggedFuture.owed { fut with flushes := some owed } := by
      simp [TaggedFuture.owed]
    exact mem_unanswered.mpr (.inl ⟨_, List.mem_set hi _, hparked⟩)

/-- Only a received flush displaces one. -/
theorem dropped_step {a : Action} (ha : ¬a.IsRecv) (hstep : s.step handler a = some s') :
    dropped (ledger s'.log) = dropped (ledger s.log) := by
  cases step_cases hstep with
  | reset hpc hempty hnext hbytes => rfl
  | wait hpc hnext => rfl
  | complete hpc hfut hresp => rfl
  | reply hpc hbytes => rfl
  | flush hpc hbytes => rfl
  | pending hpc => rfl
  | else_ hpc hempty hnext => rfl
  | _ => exact (ha trivial).elim

theorem dropped_run {as : List Action} (has : ∀ a ∈ as, ¬a.IsRecv)
    (h : exec (Session.step handler) s as = some s') :
    dropped (ledger s'.log) = dropped (ledger s.log) := by
  induction as generalizing s with
  | nil =>
    obtain rfl := Option.some.inj h
    rfl
  | cons a as ih =>
    obtain ⟨t, hstep, hexec⟩ := Option.bind_eq_some_iff.mp h
    rw [ih (fun b hb => has b (List.mem_cons_of_mem a hb)) hexec]
    exact dropped_step (has a List.mem_cons_self) hstep

theorem accepted_run {as : List Action} {owed : Owed} (hmem : owed ∈ accepted (ledger s.log))
    (h : exec (Session.step handler) s as = some s') : owed ∈ accepted (ledger s'.log) := by
  induction as generalizing s with
  | nil =>
    obtain rfl := Option.some.inj h
    exact hmem
  | cons a as ih =>
    obtain ⟨t, hstep, hexec⟩ := Option.bind_eq_some_iff.mp h
    obtain ⟨new, hlog, -⟩ := step_log hstep
    refine ih ?_ hexec
    rw [hlog, ledger, List.filterMap_append, accepted, List.filterMap_append]
    exact List.mem_append_right _ hmem

/-- Where a session cannot go on without input, and no request panics, nothing
is left to answer. -/
theorem unanswered_of_stuck (h : Reaches (Session.step handler) (.start world) s)
    (hcalm : ¬s.Panics handler) (hstuck : ∀ a, ¬a.IsRecv → s.step handler a = none) :
    s.unanswered = 0 := by
  have hloop := reaches_looping h
  have hidle : s.inFlight = [] := by
    by_contra hbusy
    obtain ⟨a, t, ha, hstep⟩ :=
      progress hcalm (reaches_accounted h) (reaches_sound h) hloop hbusy
    rw [hstuck a ha] at hstep
    cases hstep
  obtain ⟨hfutures, hpcs⟩ := List.append_eq_nil_iff.mp hidle
  have hempty : s.inflight = [] := List.map_eq_nil_iff.mp hfutures
  cases hpc : s.pc with
  | select => simp [Session.unanswered, hempty, hpc, Pc.owed, hloop.idle hpc hempty]
  | top =>
    cases hnext : s.nextSession with
    | none => simp [Session.unanswered, hempty, hpc, Pc.owed, hnext]
    | some next =>
      have hsome : ∃ t, s.top = some t := by
        obtain ⟨owed, req⟩ := next
        simp only [Session.top, hempty, hnext]
        exact send_enabled _ owed _ _
      obtain ⟨t, ht⟩ := hsome
      have hstep := hstuck .top id
      rw [Session.step, hpc] at hstep
      cases hstep.symm.trans ht
  | reply owed flushes resp => simp [hpc, Pc.replying] at hpcs
  | flush owed =>
    obtain ⟨t, ht⟩ := send_enabled s owed (.rflush {}) .poll
    have hstep := hstuck .send id
    rw [Session.step, hpc] at hstep
    cases hstep.symm.trans ht
  | poll =>
    have hstep := hstuck .pending id
    rw [Session.step, hpc] at hstep
    cases hstep
  | done => exact (hloop.running hpc).elim

theorem mem_settled {log : List Event} {owed : Owed} (h : owed ∈ settled (ledger log)) :
    ∃ resp bytes, Event.sent owed resp bytes ∈ log := by
  obtain ⟨entry, hentry, hsettle⟩ := List.mem_filterMap.mp h
  obtain ⟨event, hevent, hmap⟩ := List.mem_filterMap.mp hentry
  cases event with
  | sent o resp bytes =>
    cases hmap
    cases hsettle
    exact ⟨resp, bytes, hevent⟩
  | received serial incoming initialized =>
    cases howes : owes serial incoming initialized with
    | none => simp [Event.entry, howes] at hmap
    | some o =>
      simp only [Event.entry, howes, Option.map_some, Option.some.injEq] at hmap
      subst hmap
      cases hsettle
  | displaced o =>
    cases hmap
    cases hsettle

/-- Where a session cannot go on without input, everything that was unanswered
has got its reply, but a flush that a later one took the place of. -/
theorem answered_of_stuck {t : Session W P O} {as : List Action} {owed : Owed}
    (h : Reaches (Session.step handler) (.start world) s) (howed : owed ∈ s.unanswered)
    (hexec : exec (Session.step handler) s as = some t)
    (hstuck : ∀ a, ¬a.IsRecv → t.step handler a = none) :
    t.Panics handler ∨ (∃ resp bytes, Event.sent owed resp bytes ∈ t.log) ∨
      owed.isFlush ∧ .displaced owed ∈ t.log ∧ ∃ a ∈ as, a.IsRecv := by
  by_cases hcalm : t.Panics handler
  · exact .inl hcalm
  · have hbalanced := (reaches_accounted h).balanced
    have hmem := accepted_run (hbalanced.mem_accepted_of_open howed) hexec
    have ht := h.trans (reaches_of_exec hexec)
    have hconserved := (reaches_accounted ht).balanced.conserved
    rw [unanswered_of_stuck ht hcalm hstuck, add_zero] at hconserved
    rw [← Multiset.mem_coe, hconserved] at hmem
    obtain hsettled | hdropped := Multiset.mem_add.mp hmem
    · exact .inr (.inl (mem_settled hsettled))
    · have hdisplaced := mem_dropped hdropped
      refine .inr (.inr ⟨(reaches_sound ht).displaced owed hdisplaced, hdisplaced, ?_⟩)
      by_contra hnone
      rw [Multiset.mem_coe, dropped_run (fun a ha hrecv => hnone ⟨a, ha, hrecv⟩) hexec] at hdropped
      exact hbalanced.not_open hdropped howed

/-- What is received has fitted the buffer. -/
theorem received_fits {serial : Nat} {incoming : Bytes} {initialized : Bool}
    (h : Reaches (Session.step handler) (.start world) s)
    (hmem : .received serial incoming initialized ∈ s.log) : incoming.length ≤ maxMessageSize := by
  let I : Session W P O → Prop := fun s => ∀ serial incoming initialized,
    .received serial incoming initialized ∈ s.log → incoming.length ≤ maxMessageSize
  have hstart : I (.start world) := by simp [I, Session.start]
  refine h.invariant (I := I) hstart (fun hI _ hstep => ?_) serial incoming initialized hmem
  intro serial incoming initialized hmem
  cases step_cases hstep with
  | wait => exact hI _ _ _ hmem
  | complete => exact hI _ _ _ hmem
  | pending => exact hI _ _ _ hmem
  | else_ => exact hI _ _ _ hmem
  | reset => exact hI _ _ _ (by simpa using hmem)
  | reply => exact hI _ _ _ (by simpa using hmem)
  | flush => exact hI _ _ _ (by simpa using hmem)
  | park hpc hrecv howes hcause hfut htag =>
    obtain hdisplaced | hmem := List.mem_append.mp hmem
    · obtain ⟨owed, -, heq⟩ := List.mem_map.mp hdisplaced
      cases heq
    · obtain heq | hmem := List.mem_cons.mp hmem
      · cases heq
        exact hrecv.2.2
      · exact hI _ _ _ hmem
  | _ hpc hrecv =>
    obtain heq | hmem := List.mem_cons.mp hmem
    · cases heq
      exact hrecv.2.2
    · exact hI _ _ _ hmem

end Replies

/-- The tag survives malformed input. `deserialize_t` finds it in all that is
long enough to hold one, decoded or not; so whatever `transact` sends under a
tag, the `Rerror` for a message that does not serialize too, a session that
receives it takes as a request under that tag and replies to it under no other.
Once the session has nothing left to do it has replied, unless a request panics
or the message is a flush that a later one took the place of. -/
theorem tag_preserved {W P O : Type} (handler : Serve W P O) (world : W) (b : Bytes)
    (maxlen : Nat) (tag : UInt16) (message : TMessage) :
    ((3 ≤ b.length → Attributed b (tagAt b)) ∧
      (b.length < 3 → ∃ e, deserializeT b = .error e ∧ e.tag = none)) ∧
    ((bounded maxlen message).isSome → ∃ data, requestData maxlen tag message = some data) ∧
    ∀ data, requestData maxlen tag message = some data → Attributed data tag ∧
      ∀ s s' pick, Reaches (Session.step handler) (.start world) s → s.initialized = true →
        s.step handler (.recv data pick) = some s' →
        ∃ owed, owed.tag = tag ∧ owes s.serial data true = some owed ∧ owed ∈ s'.unanswered ∧
          ∀ as t, exec (Session.step handler) s' as = some t →
            (∀ resp bytes, .sent owed resp bytes ∈ t.log →
              ∃ resp', deserializeR bytes = .ok (tag, resp')) ∧
            ((∀ a, ¬a.IsRecv → t.step handler a = none) →
              t.Panics handler ∨ (∃ resp bytes, .sent owed resp bytes ∈ t.log) ∨
                owed.isFlush ∧ .displaced owed ∈ t.log ∧ ∃ a ∈ as, a.IsRecv) := by
  refine ⟨⟨deserializeT_attributed, deserializeT_untagged⟩,
    fun hbounded => requestData_isSome hbounded tag, fun data hdata => ?_⟩
  have hattributed := requestData_attributed hdata
  refine ⟨hattributed, fun s s' pick hreach hinit hstep => ?_⟩
  obtain ⟨owed, howes, htag⟩ := owes_attributed hattributed s.serial
  have howes' : owes s.serial data s.initialized = some owed := by rw [hinit, howes]
  have hopen := recv_unanswered hstep howes'
  have hreach' : Reaches (Session.step handler) (.start world) s' := .tail _ hreach trivial hstep
  refine ⟨owed, htag, howes, hopen, fun as t hexec => ⟨fun resp bytes hsent => ?_, ?_⟩⟩
  · have hsound := reaches_sound (hreach'.trans (reaches_of_exec hexec))
    obtain ⟨⟨mgr, mgr', hcompletes⟩, hbytes⟩ := hsound.sent owed resp bytes hsent
    rw [htag] at hbytes
    obtain hdes | ⟨e, -, hdes⟩ := serialized_cases (completes_is9P2000 hcompletes) hbytes
    · exact ⟨resp, hdes⟩
    · exact ⟨_, hdes⟩
  · exact fun hstuck => answered_of_stuck hreach' hopen hexec hstuck

theorem requestData_long {m : Twalk} (h : 2^16 ≤ m.wname.length) (maxlen : Nat) (tag : UInt16) :
    requestData maxlen tag (.twalk m) =
      ((RMessage.rerror ⟨"serialize error"⟩).serialize tag).toOption := by
  cases hser : (TMessage.twalk m).serialize tag with
  | ok b => exact absurd (TMessage.encodable_of_serialize _ hser).1 (Nat.not_lt.mpr h)
  | error e =>
    rw [requestData, bounded, Option.bind_some]
    · simp only [hser, SerializeError.toString]
    · intro fid offset data heq
      cases heq

/-- A walk of 65536 names, sent as an error that keeps its tag. -/
theorem tag_preserved_long_walk : ∃ data,
    requestData 1192 7 (.twalk ⟨1, 2, List.replicate 65536 "a"⟩) = some data ∧
      deserializeR data = .ok (7, .rerror ⟨"serialize error"⟩) ∧ Attributed data 7 := by
  obtain ⟨data, hok⟩ : ∃ data, (RMessage.rerror ⟨"serialize error"⟩).serialize 7 = .ok data :=
    ⟨_, rfl⟩
  have hdata := requestData_long (Nat.le_of_eq List.length_replicate.symm :
    2^16 ≤ (Twalk.mk 1 2 (List.replicate 65536 "a")).wname.length) 1192 7
  rw [hok] at hdata
  exact ⟨data, hdata, RMessage.deserialize_serialize _ trivial hok,
    ((tag_preserved Serve.nothing () [] 1192 7 _).2.2 data hdata).1⟩

def longName : ByteString :=
  "aaaaaaaaaaaaaaaaaaaaaaaaaaaaaaaaaaaaaaaaaaaaaaaaaaaaaaaaaaaaaaaaaaaaaaaaaaaaaaaaaaaaaaaaaaaaaaaaaaaa"

/-- A walk of sixteen such names goes out in 1645 bytes, and no session ever
receives it. -/
theorem long_walk_not_received : ¬∀ (tag : UInt16) (message : TMessage) (data : Bytes),
    requestData 1192 tag message = some data →
      ∃ s : Session Unit Empty Empty, Reaches (Session.step Serve.nothing) (.start ()) s ∧
        ∃ serial initialized, .received serial data initialized ∈ s.log := by
  intro hall
  have hlen : (TMessage.twalk ⟨1, 2, List.replicate 16 longName⟩).len = 1645 := by decide
  have henc := twalk_encodable (by rw [hlen]; decide)
  have hbounded : bounded 1192 (.twalk ⟨1, 2, List.replicate 16 longName⟩) = some _ := rfl
  obtain ⟨data, hdata, hlength⟩ := requestData_length 7 hbounded
  rw [if_pos henc, hlen] at hlength
  obtain ⟨s, hreach, serial, initialized, hmem⟩ := hall 7 _ data hdata
  have hfits := received_fits hreach hmem
  rw [hlength] at hfits
  exact absurd hfits (by decide)

end NineWire.Client
