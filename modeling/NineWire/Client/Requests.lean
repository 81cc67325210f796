import NineWire.Client.Calls
import NineWire.Server.Replies
import NineWire.Wire.Inverse

/-! The requests of a client: what it sent for each of them, where the sender of
a call that waits is, and what `handle_client` makes of the datagram. -/
namespace NineWire.Client
open NineWire.Wire NineWire.Server NineWire.Codec NineWire.Table

def Calls.asked (s : Calls) (c : Nat) : Option (UInt16 × TMessage) :=
  s.calls[c]?.map fun call => (call.tag, call.message)

/-- What a call sends is made of its tag and its message, and a call that can
still be answered has its sender in the map until it has its reply. -/
structure Formed (s : Calls) : Prop where
  data : ∀ (c : Nat) (call : Call), s.calls[c]? = some call →
    call.data = requestData s.maxlen call.tag call.message
  sender : ∀ (c : Nat) (call : Call), s.calls[c]? = some call → call.Live → call.reply = none →
    s.inflight[call.tag]? = some c

theorem Formed.start (maxlen : Nat) : Formed (.start maxlen) where
  data _ _ h := by cases h
  sender _ _ h := by cases h

section Steps
variable {s s' : Calls} {message : TMessage} {incoming : Bytes} {c d : Nat} {p : Poll}
  {tag : UInt16}

theorem live_of_next {call : Call} {stage : Stage} (h : s.next c call p = some stage) :
    call.Live := by
  cases p with
  | resume =>
    simp only [Calls.next] at h
    split at h
    · rename_i hwaiting
      exact .inr hwaiting
    · cases h
  | cancel =>
    simp only [Calls.next] at h
    split at h
    · assumption
    · cases h
  | _ =>
    simp only [Calls.next] at h
    split at h
    · rename_i hsending
      exact .inl hsending
    · cases h

theorem asked_of_get {call : Call} (h : s.calls[c]? = some call) :
    s.asked c = some (call.tag, call.message) := by
  rw [Calls.asked, h]
  rfl

theorem asked_poll (h : s.poll c p = some s') : s'.asked = s.asked := by
  obtain ⟨call, stage, hcall, -, rfl⟩ := poll_cases h
  funext d
  by_cases hcd : c = d
  · subst hcd
    rw [asked_of_get (set_get_self hcall), asked_of_get hcall]
  · rw [Calls.asked, set_get_ne hcd]
    rfl

theorem asked_recv (s : Calls) (incoming : Bytes) : (s.recv incoming).asked = s.asked := by
  obtain heq | ⟨tag, resp, c, -, -, heq⟩ := recv_cases s incoming
  · rw [heq]
  · rw [heq]
    funext d
    simp only [Calls.asked, List.getElem?_modify, Option.map_eq_map, Option.map_map]
    congr 1
    funext call
    by_cases hcd : c = d
    · simp [hcd]
    · simp [hcd]

theorem asked_call {m : TMessage} (message : TMessage) (h : s.asked d = some (tag, m)) :
    (s.call message).asked d = some (tag, m) := by
  obtain ⟨call, hcall, heq⟩ := Option.map_eq_some_iff.mp h
  obtain ⟨-, hsame⟩ | ⟨tag', -, hnew⟩ := call_cases s message
  · rw [hsame, h]
  · rw [hnew, asked_of_get (append_get hcall), heq]

theorem asked_call_cases {m : TMessage} (h : (s.call message).asked d = some (tag, m)) :
    s.asked d = some (tag, m) ∨ (d = s.calls.length ∧ m = message) := by
  obtain ⟨-, hsame⟩ | ⟨tag', -, hnew⟩ := call_cases s message
  · rw [hsame] at h
    exact .inl h
  · rw [hnew] at h
    obtain ⟨call, hcall, heq⟩ := Option.map_eq_some_iff.mp h
    obtain hold | ⟨hd, rfl⟩ := append_cases hcall
    · exact .inl (by rw [asked_of_get hold, heq])
    · exact .inr ⟨hd, (congrArg Prod.snd heq).symm⟩

theorem Formed.call (h : Formed s) (message : TMessage) : Formed (s.call message) := by
  obtain ⟨-, hsame⟩ | ⟨tag, hfree, hnew⟩ := call_cases s message
  · rwa [hsame]
  · rw [hnew]
    refine ⟨fun d call hd => ?_, fun d call hd hlive hreply => ?_⟩
    · obtain hold | ⟨-, rfl⟩ := append_cases hd
      · exact h.data d call hold
      · rfl
    · rw [Std.TreeMap.getElem?_insert]
      obtain hold | ⟨rfl, rfl⟩ := append_cases hd
      · have hsender := h.sender d call hold hlive hreply
        have htag : tag ≠ call.tag := by
          intro heq
          subst heq
          rw [hfree] at hsender
          cases hsender
        simpa [htag] using hsender
      · simp [Call.start]

theorem Formed.poll (h : Formed s) (hpoll : s.poll c p = some s') : Formed s' := by
  obtain ⟨call, stage, hcall, hnext, rfl⟩ := poll_cases hpoll
  refine ⟨fun d call' hd => ?_, fun d call' hd hlive hreply => ?_⟩
  · obtain ⟨rfl, rfl⟩ | ⟨-, hold⟩ := set_cases hd
    · exact h.data c call hcall
    · exact h.data d call' hold
  · obtain ⟨rfl, rfl⟩ | ⟨-, hold⟩ := set_cases hd
    · exact h.sender c call hcall (live_of_next hnext) hreply
    · exact h.sender d call' hold hlive hreply

theorem Formed.recv (h : Formed s) (incoming : Bytes) : Formed (s.recv incoming) := by
  obtain heq | ⟨tag, resp, c, -, htag, heq⟩ := recv_cases s incoming
  · rwa [heq]
  · rw [heq]
    refine ⟨fun d call' hd => ?_, fun d call' hd hlive hreply => ?_⟩
    · obtain ⟨call, hcall, rfl⟩ := modify_cases hd
      have hdata := h.data d call hcall
      split
      · rw [Call.answer_data, Call.answer_tag, Call.answer_message, hdata]
      · exact hdata
    · obtain ⟨call, hcall, rfl⟩ := modify_cases hd
      by_cases hcd : c = d
      · rw [if_pos hcd] at hlive hreply
        have hcalllive : call.Live := by
          rwa [Call.Live, Call.answer_stage] at hlive
        simp [Call.answer, hcalllive] at hreply
      · rw [if_neg hcd] at hlive hreply ⊢
        have hsender := h.sender d call hcall hlive hreply
        have hne : tag ≠ call.tag := by
          intro hsame
          subst hsame
          exact hcd (Option.some.inj (htag.symm.trans hsender))
        rw [Std.TreeMap.getElem?_erase]
        simpa [hne] using hsender

/-- A call that waits goes on only with a reply. -/
theorem Formed.resume {call : Call} {stage : Stage} (h : Formed s) (hcall : s.calls[c]? = some call)
    (hnext : s.next c call .resume = some stage) :
    ∃ resp, call.reply = some resp ∧ stage = .returned resp := by
  simp only [Calls.next] at hnext
  split at hnext
  · rename_i hwaiting
    unfold Calls.resume at hnext
    cases hreply : call.reply with
    | some resp =>
      rw [hreply] at hnext
      exact ⟨resp, rfl, (Option.some.inj hnext).symm⟩
    | none =>
      have hsender := h.sender c call hcall (.inr hwaiting) hreply
      simp only [hreply, hsender, if_true] at hnext
      cases hnext
  · cases hnext

end Steps

def Sends : TMessage → Prop
  | .tattach _ | .twalk _ | .topen _ | .tclunk _ | .tstat _ | .tread _ | .twrite _ => True
  | _ => False

section Datagrams
variable {maxlen serial : Nat} {tag : UInt16} {message req : TMessage} {data : Bytes}

/-- A message is bounded to one that the server dispatches. -/
theorem Sends.bounded (h : Sends message) (hreq : bounded maxlen message = some req) :
    req.Is9P2000 ∧ ∀ serial tag data, deserializeT data = .ok (tag, req) →
      owes serial data true = some ⟨serial, tag, .request req⟩ := by
  have hsends : Sends req := by
    cases message with
    | twrite m =>
      obtain ⟨bound, -, rfl⟩ := Option.map_eq_some_iff.mp hreq
      trivial
    | _ =>
      obtain rfl := Option.some.inj hreq
      exact h
  cases req with
  | tversion m => exact hsends.elim
  | tflush m => exact hsends.elim
  | treads m => exact hsends.elim
  | _ => exact ⟨trivial, fun serial tag data hdes => by simp [owes, hdes]⟩

theorem deserializeT_rerror {m : Rerror} (h : (RMessage.rerror m).serialize tag = .ok data) :
    deserializeT data = .error (.unsupportedType .rerror tag) := by
  have hd : Decodes (putString m.ename) (deserializeRBody .rerror tag) (.rerror m) :=
    Decodes.map _ (Decodes.last (string_roundTrips _ _) rfl)
  obtain ⟨bs, rfl, -⟩ := hd _ _ (freeze_ok h)
  rw [deserializeT, deserializeHeader_header]
  rfl

/-- What goes out for a message: the message as it is bounded, or, if that does
not serialize, an error of a type that no request has. -/
theorem requestData_cases (h : requestData maxlen tag message = some data) :
    ∃ req, bounded maxlen message = some req ∧
      (req.serialize tag = .ok data ∨
        ∃ e, req.serialize tag = .error e ∧
          deserializeT data = .error (.unsupportedType .rerror tag)) := by
  obtain ⟨req, hreq, hdata⟩ := Option.bind_eq_some_iff.mp h
  refine ⟨req, hreq, ?_⟩
  cases hser : req.serialize tag with
  | ok data' =>
    rw [hser] at hdata
    cases hdata
    exact .inl rfl
  | error e =>
    simp only [hser] at hdata
    cases herror : (RMessage.rerror ⟨e.toString⟩).serialize tag with
    | ok data' =>
      rw [herror] at hdata
      cases hdata
      exact .inr ⟨e, rfl, deserializeT_rerror herror⟩
    | error e' =>
      rw [herror] at hdata
      cases hdata

theorem owes_requestData (hsends : Sends message) (h : requestData maxlen tag message = some data)
    (serial : Nat) :
    (∃ req, bounded maxlen message = some req ∧
      owes serial data true = some ⟨serial, tag, .request req⟩) ∨
    ((∀ m, message ≠ .tclunk m) ∧
      ∃ e, owes serial data true = some ⟨serial, tag, .undecodable e⟩) := by
  obtain ⟨req, hreq, hser | ⟨e, hser, hdes⟩⟩ := requestData_cases h
  · obtain ⟨h9p, howes⟩ := hsends.bounded hreq
    exact .inl ⟨req, hreq, howes serial tag data (req.deserialize_serialize h9p hser)⟩
  · refine .inr ⟨fun m hm => ?_, _, by rw [owes, hdes]; rfl⟩
    subst hm
    obtain rfl := Option.some.inj hreq
    have htotal : ∃ data', freeze .tclunk tag (putU32Le m.fid) = .ok data' :=
      freeze_isOk (putSlice_total _)
    obtain ⟨data', hok⟩ := htotal
    cases hok.symm.trans hser

end Datagrams

end NineWire.Client
