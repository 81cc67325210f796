import Mathlib.Logic.Function.Basic
import NineWire.Client.Calls
import NineWire.Wire.Inverse

/-! Whose reply a call returns. The server answers every request once, under
its tag, and the network delivers the answers in any order. -/
namespace NineWire.Client
open NineWire.Wire NineWire.LittleEndian NineWire.Transition NineWire.Table

/-- How far the request of a call has come. Its tag is taken until the answer is
`delivered`, also if the request is `lost`. -/
inductive Fate where
  | unsent
  | lost
  | pending
  | answered (reply : Bytes)
  | delivered (reply : Bytes)
  deriving DecidableEq

def Fate.Open : Fate → Prop
  | .delivered _ => False
  | _ => True

/-- The calls of a client, and the requests and replies under way. -/
structure Traffic where
  client : Calls
  fates : Nat → Fate

def Traffic.start (maxlen : Nat) : Traffic where
  client := .start maxlen
  fates _ := .unsent

def tagBytes (data : Bytes) : Bytes := (data.drop 1).take 2

inductive TrafficAction where
  | call (message : TMessage)
  | poll (c : Nat) (p : Poll)
  | transmit (c : Nat)
  | lose (c : Nat)
  | answer (c : Nat) (reply : Bytes)
  | deliver (c : Nat)
  | recvFails

/-- A request that a call gave to the transport can reach the server at any
time, also after the call is over, or not at all. -/
def Traffic.step (s : Traffic) : TrafficAction → Option Traffic
  | .call message => some { s with client := s.client.call message }
  | .poll c p => (s.client.poll c p).map fun client => { s with client }
  | .transmit c => do
    let call ← s.client.calls[c]?
    if call.data.isSome ∧ s.fates c = .unsent then
      some { s with fates := Function.update s.fates c .pending }
    else none
  | .lose c => do
    let _ ← s.client.calls[c]?
    if s.fates c = .unsent then some { s with fates := Function.update s.fates c .lost } else none
  | .answer c reply => do
    let call ← s.client.calls[c]?
    let data ← call.data
    if s.fates c = .pending ∧ tagBytes reply = tagBytes data then
      some { s with fates := Function.update s.fates c (.answered reply) }
    else none
  | .deliver c =>
    match s.fates c with
    | .answered reply =>
      (s.client.step (.recv reply)).map fun client =>
        { client, fates := Function.update s.fates c (.delivered reply) }
    | _ => none
  | .recvFails => (s.client.step .recvFails).map fun client => { s with client }

/-! Tags in datagrams. -/

theorem toLe_tag_inj {tag tag' : UInt16} (h : toLe 2 tag.toNat = toLe 2 tag'.toNat) :
    tag = tag' := by
  have heq := congrArg ofLe h
  rw [ofLe_toLe 2 _ tag.toNat_lt, ofLe_toLe 2 _ tag'.toNat_lt] at heq
  exact UInt16.toNat_inj.mp heq

theorem tagBytes_deserializeR {reply : Bytes} {tag : UInt16} {resp : RMessage}
    (h : deserializeR reply = .ok (tag, resp)) : tagBytes reply = toLe 2 tag.toNat := by
  obtain ⟨type_, bs, rest, rfl, -⟩ := deserialize_ok h
  rfl

theorem tagBytes_serialize {message : TMessage} {tag : UInt16} {data : Bytes}
    (h : message.serialize tag = .ok data) : tagBytes data = toLe 2 tag.toNat := by
  have hdes : ∃ m, deserializeT data = .ok (tag, m) := by
    cases message with
    | treads m => exact ⟨_, Tread.deserialize_serialize ((m.serialize_eq tag).symm.trans h)⟩
    | _ => exact ⟨_, TMessage.deserialize_serialize _ (by trivial) h⟩
  obtain ⟨m, hm⟩ := hdes
  obtain ⟨type_, bs, rest, rfl, -⟩ := deserialize_ok hm
  rfl

theorem tagBytes_requestData {maxlen : Nat} {tag : UInt16} {message : TMessage} {data : Bytes}
    (h : requestData maxlen tag message = some data) : tagBytes data = toLe 2 tag.toNat := by
  obtain ⟨cut, -, hdata⟩ := Option.bind_eq_some_iff.mp h
  cases hser : cut.serialize tag with
  | ok data' =>
    rw [hser] at hdata
    obtain rfl := Option.some.inj hdata
    exact tagBytes_serialize hser
  | error e =>
    rw [hser] at hdata
    cases herror : (RMessage.rerror ⟨e.toString⟩).serialize tag with
    | ok data' =>
      simp only [herror, Except.toOption, Option.some.injEq] at hdata
      subst hdata
      exact tagBytes_deserializeR (RMessage.deserialize_serialize _ (by trivial) herror)
    | error e' =>
      simp only [herror, Except.toOption] at hdata
      cases hdata

/-! The invariant. -/

/-- A request whose answer can still arrive owns its tag, and what a call holds
is the answer that was delivered for it. -/
structure Routed (s : Traffic) : Prop where
  owner : ∀ (c : Nat) (call : Call), s.client.calls[c]? = some call → (s.fates c).Open →
    s.client.inflight[call.tag]? = some c
  linked : ∀ tag c, s.client.inflight[tag]? = some c →
    ∃ call : Call, s.client.calls[c]? = some call ∧ call.tag = tag
  sent : ∀ (c : Nat) (call : Call) data, s.client.calls[c]? = some call → call.data = some data →
    tagBytes data = toLe 2 call.tag.toNat
  answered : ∀ (c : Nat) (call : Call) reply, s.client.calls[c]? = some call →
    s.fates c = .answered reply → tagBytes reply = toLe 2 call.tag.toNat
  replied : ∀ (c : Nat) (call : Call) resp, s.client.calls[c]? = some call →
    call.reply = some resp ∨ call.stage = .returned resp →
    ∃ reply, s.fates c = .delivered reply ∧ deserializeR reply = .ok (call.tag, resp)
  recycled : ∀ (c d : Nat) (first second : Call), c < d → s.client.calls[c]? = some first →
    s.client.calls[d]? = some second → first.tag = second.tag → ¬(s.fates c).Open
  fresh : ∀ c, s.client.calls.length ≤ c → s.fates c = .unsent

theorem Routed.start (maxlen : Nat) : Routed (.start maxlen) where
  owner _ _ h := by cases h
  linked tag c h := by
    rw [Traffic.start, Calls.start, Std.TreeMap.getElem?_emptyc] at h
    cases h
  sent _ _ _ h := by cases h
  answered _ _ _ h := by cases h
  replied _ _ _ h := by cases h
  recycled _ _ _ _ _ h := by cases h
  fresh _ _ := rfl

section Steps
variable {s s' : Traffic} {c : Nat}

theorem transmit_cases (h : s.step (.transmit c) = some s') :
    (∃ call : Call, s.client.calls[c]? = some call) ∧ s.fates c = .unsent ∧
      s' = { s with fates := Function.update s.fates c .pending } := by
  obtain ⟨call, hcall, h⟩ := Option.bind_eq_some_iff.mp h
  split at h
  · rename_i hunsent
    exact ⟨⟨call, hcall⟩, hunsent.2, (Option.some.inj h).symm⟩
  · cases h

theorem lose_cases (h : s.step (.lose c) = some s') :
    (∃ call : Call, s.client.calls[c]? = some call) ∧ s.fates c = .unsent ∧
      s' = { s with fates := Function.update s.fates c .lost } := by
  obtain ⟨call, hcall, h⟩ := Option.bind_eq_some_iff.mp h
  split at h
  · rename_i hunsent
    exact ⟨⟨call, hcall⟩, hunsent, (Option.some.inj h).symm⟩
  · cases h

theorem deliver_cases (h : s.step (.deliver c) = some s') :
    ∃ reply, s.fates c = .answered reply ∧
      s' = ⟨s.client.recv reply, Function.update s.fates c (.delivered reply)⟩ := by
  simp only [Traffic.step] at h
  split at h
  · rename_i reply hfate
    obtain ⟨client, hrecv, rfl⟩ := Option.map_eq_some_iff.mp h
    simp only [Calls.step] at hrecv
    split at hrecv
    · exact ⟨reply, hfate, by rw [Option.some.inj hrecv]⟩
    · cases hrecv
  · cases h

theorem recvFails_cases (h : s.step .recvFails = some s') :
    s' = { s with client := { s.client with receiving := false } } := by
  obtain ⟨client, hfails, rfl⟩ := Option.map_eq_some_iff.mp h
  simp only [Calls.step] at hfails
  split at hfails
  · rw [Option.some.inj hfails]
  · cases hfails

/-- A new call takes a tag nobody owns. -/
theorem Routed.call (h : Routed s) (message : TMessage) :
    Routed { s with client := s.client.call message } := by
  obtain ⟨-, heq⟩ | ⟨tag, hfree, heq⟩ := call_cases s.client message
  · rwa [heq]
  · rw [heq]
    refine ⟨fun d call hd hopen => ?_, fun t d ht => ?_, fun d call data hd hdata => ?_,
      fun d call reply hd hfate => ?_, fun d call resp hd hresp => ?_,
      fun d e first second hlt hd he htag hopen => ?_, fun d hd => ?_⟩
    · rw [Std.TreeMap.getElem?_insert]
      obtain hold | ⟨rfl, rfl⟩ := append_cases hd
      · have howner := h.owner d call hold hopen
        by_cases htag : tag = call.tag
        · rw [← htag, hfree] at howner
          cases howner
        · simpa [htag] using howner
      · simp [Call.start]
    · rw [Std.TreeMap.getElem?_insert] at ht
      by_cases htag : tag = t
      · obtain rfl : s.client.calls.length = d := by simpa [htag] using ht
        exact ⟨_, List.getElem?_concat_length, htag⟩
      · obtain ⟨call, hcall, hct⟩ := h.linked t d (by simpa [htag] using ht)
        exact ⟨call, append_get hcall, hct⟩
    · obtain hold | ⟨rfl, rfl⟩ := append_cases hd
      · exact h.sent d call data hold hdata
      · exact tagBytes_requestData hdata
    · obtain hold | ⟨rfl, rfl⟩ := append_cases hd
      · exact h.answered d call reply hold hfate
      · rw [h.fresh _ (Nat.le_refl _)] at hfate
        cases hfate
    · obtain hold | ⟨rfl, rfl⟩ := append_cases hd
      · exact h.replied d call resp hold hresp
      · obtain hreply | hstage := hresp
        · cases hreply
        · simp only [Call.start] at hstage
          split at hstage <;> cases hstage
    · obtain hold | ⟨rfl, rfl⟩ := append_cases he
      · have hlen := lt_of_get hold
        rw [List.getElem?_append_left (by omega)] at hd
        exact h.recycled d e first second hlt hd hold htag hopen
      · rw [List.getElem?_append_left hlt] at hd
        have howner := h.owner d first hd hopen
        rw [htag] at howner
        exact Option.some_ne_none _ (howner.symm.trans hfree)
    · refine h.fresh d ?_
      rw [List.length_append, List.length_singleton] at hd
      omega

/-- Polling or dropping a call changes neither who owns a tag nor what was
delivered. -/
theorem Routed.poll {client : Calls} {p : Poll} (h : Routed s)
    (hpoll : s.client.poll c p = some client) : Routed { s with client } := by
  obtain ⟨hinflight, hlen, hback, hforth⟩ := poll_moves hpoll
  refine ⟨fun d call' hd hopen => ?_, fun t d ht => ?_, fun d call' data hd hdata => ?_,
    fun d call' reply hd hfate => ?_, fun d call' resp hd hresp => ?_,
    fun d e first second hlt hd he htag => ?_, fun d hd => h.fresh d (by rwa [hlen] at hd)⟩
  · obtain ⟨call, hcall, hmoved⟩ := hback d call' hd
    rw [hinflight, hmoved.tag]
    exact h.owner d call hcall hopen
  · rw [hinflight] at ht
    obtain ⟨call, hcall, hct⟩ := h.linked t d ht
    obtain ⟨call', hcall', hmoved⟩ := hforth d call hcall
    exact ⟨call', hcall', hmoved.tag.trans hct⟩
  · obtain ⟨call, hcall, hmoved⟩ := hback d call' hd
    rw [hmoved.tag]
    exact h.sent d call data hcall (hmoved.data.symm.trans hdata)
  · obtain ⟨call, hcall, hmoved⟩ := hback d call' hd
    rw [hmoved.tag]
    exact h.answered d call reply hcall hfate
  · obtain ⟨call, hcall, hmoved⟩ := hback d call' hd
    rw [hmoved.tag]
    refine h.replied d call resp hcall ?_
    obtain hreply | hstage := hresp
    · exact .inl (hmoved.reply.symm.trans hreply)
    · exact (hmoved.returned resp hstage).symm
  · obtain ⟨first', hfirst, hmoved⟩ := hback d first hd
    obtain ⟨second', hsecond, hmoved'⟩ := hback e second he
    exact h.recycled d e first' second' hlt hfirst hsecond
      (hmoved.tag.symm.trans (htag.trans hmoved'.tag))

structure Refates (s s' : Traffic) (c : Nat) (fate : Fate) : Prop where
  self : s'.fates c = fate
  other : ∀ d, d ≠ c → s'.fates d = s.fates d

theorem refates_update (client : Calls) (fate : Fate) :
    Refates s ⟨client, Function.update s.fates c fate⟩ c fate :=
  ⟨Function.update_self c fate s.fates, fun _ hdc => Function.update_of_ne hdc fate s.fates⟩

/-- A request moves on, towards a reply under its tag. -/
theorem Routed.refate {call : Call} {fate : Fate} (h : Routed s) (hclient : s'.client = s.client)
    (hfates : Refates s s' c fate) (hcall : s.client.calls[c]? = some call)
    (hopen : (s.fates c).Open)
    (hreply : ∀ reply, fate = .answered reply → tagBytes reply = toLe 2 call.tag.toNat) :
    Routed s' := by
  have hopen' (d : Nat) (hd : (s'.fates d).Open) : (s.fates d).Open := by
    by_cases hdc : d = c
    · rwa [hdc]
    · rwa [hfates.other d hdc] at hd
  rw [← hclient] at hcall
  have hlt := lt_of_get hcall
  refine ⟨?_, by rw [hclient]; exact h.linked, by rw [hclient]; exact h.sent, ?_, ?_, ?_, ?_⟩
  · intro d call' hd hfate
    rw [hclient] at hd ⊢
    exact h.owner d call' hd (hopen' d hfate)
  · intro d call' reply hd hfate
    by_cases hdc : d = c
    · subst hdc
      obtain rfl := Option.some.inj (hcall.symm.trans hd)
      exact hreply reply (hfates.self.symm.trans hfate)
    · rw [hfates.other d hdc] at hfate
      rw [hclient] at hd
      exact h.answered d call' reply hd hfate
  · intro d call' resp hd hresp
    rw [hclient] at hd
    obtain ⟨reply, hdelivered, hdes⟩ := h.replied d call' resp hd hresp
    have hdc : d ≠ c := by
      intro heq
      subst heq
      rw [hdelivered] at hopen
      exact hopen
    exact ⟨reply, by rw [hfates.other d hdc, hdelivered], hdes⟩
  · intro d e first second hde hd he htag hfate
    rw [hclient] at hd he
    exact h.recycled d e first second hde hd he htag (hopen' d hfate)
  · intro d hd
    rw [hfates.other d (by omega), h.fresh d (by rwa [hclient] at hd)]

/-- A request with a reply under way is that of a call, which owns its tag and
holds nothing yet. -/
theorem Routed.awaiting {reply : Bytes} (h : Routed s) (hfate : s.fates c = .answered reply) :
    ∃ call : Call, s.client.calls[c]? = some call ∧ s.client.inflight[call.tag]? = some c ∧
      tagBytes reply = toLe 2 call.tag.toNat ∧
      ∀ resp, ¬(call.reply = some resp ∨ call.stage = .returned resp) := by
  have hlt : c < s.client.calls.length := by
    by_contra hge
    rw [h.fresh c (Nat.le_of_not_lt hge)] at hfate
    cases hfate
  have hcall := List.getElem?_eq_getElem hlt
  have hopen : (s.fates c).Open := by
    rw [hfate]
    trivial
  refine ⟨_, hcall, h.owner c _ hcall hopen, h.answered c _ reply hcall hfate, fun resp hresp => ?_⟩
  obtain ⟨reply', hdelivered, -⟩ := h.replied c _ resp hcall hresp
  rw [hfate] at hdelivered
  cases hdelivered

/-- A reply that arrives is for the call that owns its tag, or for nobody. -/
theorem Routed.deliver {reply : Bytes} (h : Routed s) (hfate : s.fates c = .answered reply)
    (hclient : s'.client = s.client.recv reply) (hfates : Refates s s' c (.delivered reply)) :
    Routed s' := by
  obtain ⟨call, hcall, howner, hbytes, hnone⟩ := h.awaiting hfate
  have hlt := lt_of_get hcall
  have hother {d : Nat} (hd : (s'.fates d).Open) : d ≠ c ∧ (s.fates d).Open := by
    by_cases hdc : d = c
    · rw [hdc, hfates.self] at hd
      exact hd.elim
    · exact ⟨hdc, by rwa [hfates.other d hdc] at hd⟩
  have hanswered {d : Nat} {reply' : Bytes} (hd : s'.fates d = .answered reply') :
      s.fates d = .answered reply' := by
    by_cases hdc : d = c
    · rw [hdc, hfates.self] at hd
      cases hd
    · rwa [hfates.other d hdc] at hd
  have hreplied {d : Nat} {call' : Call} {resp : RMessage} (hd : s.client.calls[d]? = some call')
      (hresp : call'.reply = some resp ∨ call'.stage = .returned resp) :
      ∃ reply, s'.fates d = .delivered reply ∧ deserializeR reply = .ok (call'.tag, resp) := by
    have hdc : d ≠ c := by
      intro hid
      subst hid
      obtain rfl := Option.some.inj (hcall.symm.trans hd)
      exact hnone resp hresp
    rw [hfates.other d hdc]
    exact h.replied d call' resp hd hresp
  have hfresh (d : Nat) (hd : s.client.calls.length ≤ d) : s'.fates d = .unsent := by
    rw [hfates.other d (by omega), h.fresh d hd]
  obtain heq | ⟨tag, resp, c', hdes, htag, heq⟩ := recv_cases s.client reply
  · rw [heq] at hclient
    refine ⟨?_, by rw [hclient]; exact h.linked, by rw [hclient]; exact h.sent, ?_, ?_, ?_, ?_⟩
    all_goals rw [hclient]
    · exact fun d call' hd hfate' => h.owner d call' hd (hother hfate').2
    · exact fun d call' reply' hd hfate' => h.answered d call' reply' hd (hanswered hfate')
    · exact fun d call' resp hd hresp => hreplied hd hresp
    · exact fun d e first second hde hd he hsame hfate' =>
        h.recycled d e first second hde hd he hsame (hother hfate').2
    · exact hfresh
  · obtain rfl : tag = call.tag := toLe_tag_inj ((tagBytes_deserializeR hdes).symm.trans hbytes)
    obtain rfl : c' = c := Option.some.inj (htag.symm.trans howner)
    rw [heq] at hclient
    have hback (d : Nat) (call' : Call) (hd : s'.client.calls[d]? = some call') :
        ∃ old : Call, s.client.calls[d]? = some old ∧
          call' = if c' = d then old.answer resp else old := by
      rw [hclient] at hd
      exact modify_cases hd
    refine ⟨?_, ?_, ?_, ?_, ?_, ?_, ?_⟩
    · intro d call' hd hfate'
      obtain ⟨hdc, hopen⟩ := hother hfate'
      obtain ⟨old, hold, rfl⟩ := hback d call' hd
      rw [if_neg (Ne.symm hdc)]
      have hold' := h.owner d old hold hopen
      rw [hclient, Std.TreeMap.getElem?_erase]
      have hne : ¬call.tag = old.tag := by
        intro hsame
        rw [← hsame, howner] at hold'
        exact hdc (Option.some.inj hold').symm
      simpa [hne] using hold'
    · intro t d ht
      rw [hclient, Std.TreeMap.getElem?_erase] at ht
      by_cases htt : call.tag = t
      · simp [htt] at ht
      · obtain ⟨old, hold, hot⟩ := h.linked t d (by simpa [htt] using ht)
        refine ⟨if c' = d then old.answer resp else old, ?_, ?_⟩
        · simp [hclient, List.getElem?_modify, hold]
        · split <;> simpa using hot
    · intro d call' data hd hdata
      obtain ⟨old, hold, rfl⟩ := hback d call' hd
      have hsent := h.sent d old data hold
      split at hdata <;> simp_all
    · intro d call' reply' hd hfate'
      obtain ⟨old, hold, rfl⟩ := hback d call' hd
      have hanswer := h.answered d old reply' hold (hanswered hfate')
      split <;> simpa using hanswer
    · intro d call' resp' hd hresp
      obtain ⟨old, hold, rfl⟩ := hback d call' hd
      by_cases hdc : c' = d
      · subst hdc
        obtain rfl := Option.some.inj (hcall.symm.trans hold)
        rw [if_pos rfl, Call.answer_tag]
        rw [if_pos rfl, Call.answer_stage] at hresp
        obtain hreply | hstage := hresp
        · obtain rfl | hreply := Call.answer_reply hreply
          · exact ⟨reply, hfates.self, hdes⟩
          · exact (hnone resp' (.inl hreply)).elim
        · exact (hnone resp' (.inr hstage)).elim
      · rw [if_neg hdc] at hresp ⊢
        exact hreplied hold hresp
    · intro d e first second hde hd he hsame hfate'
      obtain ⟨old, hold, rfl⟩ := hback d first hd
      obtain ⟨old', hold', rfl⟩ := hback e second he
      have hsame' : old.tag = old'.tag := by
        simpa [apply_ite Call.tag] using hsame
      exact h.recycled d e old old' hde hold hold' hsame' (hother hfate').2
    · intro d hd
      exact hfresh d (by simpa [hclient] using hd)

theorem Routed.step {a : TrafficAction} (h : Routed s) (hstep : s.step a = some s') :
    Routed s' := by
  cases a with
  | call message =>
    obtain rfl := Option.some.inj hstep
    exact h.call message
  | poll c p =>
    obtain ⟨client, hpoll, rfl⟩ := Option.map_eq_some_iff.mp hstep
    exact h.poll hpoll
  | transmit c =>
    obtain ⟨⟨call, hcall⟩, hunsent, rfl⟩ := transmit_cases hstep
    refine h.refate rfl (refates_update s.client .pending) hcall ?_ (by rintro _ ⟨⟩)
    rw [hunsent]
    trivial
  | lose c =>
    obtain ⟨⟨call, hcall⟩, hunsent, rfl⟩ := lose_cases hstep
    refine h.refate rfl (refates_update s.client .lost) hcall ?_ (by rintro _ ⟨⟩)
    rw [hunsent]
    trivial
  | answer c reply =>
    obtain ⟨call, hcall, hstep⟩ := Option.bind_eq_some_iff.mp hstep
    obtain ⟨data, hdata, hstep⟩ := Option.bind_eq_some_iff.mp hstep
    split at hstep
    · rename_i hpending
      obtain rfl := Option.some.inj hstep
      refine h.refate rfl (refates_update s.client (.answered reply)) hcall ?_ ?_
      · rw [hpending.1]
        trivial
      · intro _ heq
        cases heq
        exact hpending.2.trans (h.sent c call data hcall hdata)
    · cases hstep
  | deliver c =>
    obtain ⟨reply, hfate, rfl⟩ := deliver_cases hstep
    exact h.deliver hfate rfl (refates_update _ _)
  | recvFails =>
    obtain rfl := recvFails_cases hstep
    exact ⟨h.owner, h.linked, h.sent, h.answered, h.replied, h.recycled, h.fresh⟩

end Steps

theorem routed_run {maxlen : Nat} {s : Traffic} (h : Reaches Traffic.step (.start maxlen) s) :
    Routed s :=
  h.invariant (Routed.start maxlen) fun hrouted _ hstep => hrouted.step hstep

/-- In every run, what a call returns is the answer to its own request, and a
tag is taken again only once the answer to every earlier request under it has
arrived. -/
theorem reply_routing (maxlen : Nat) (s : Traffic) (h : Reaches Traffic.step (.start maxlen) s) :
    (∀ (c : Nat) (call : Call) (resp : RMessage), s.client.calls[c]? = some call →
      call.stage = .returned resp →
      ∃ reply, s.fates c = .delivered reply ∧ deserializeR reply = .ok (call.tag, resp)) ∧
    ∀ (c d : Nat) (first second : Call), c < d → s.client.calls[c]? = some first →
      s.client.calls[d]? = some second → first.tag = second.tag →
      ∃ reply, s.fates c = .delivered reply := by
  have hrouted := routed_run h
  refine ⟨fun c call resp hcall hstage => hrouted.replied c call resp hcall (.inr hstage), ?_⟩
  intro c d first second hcd hfirst hsecond htag
  have hclosed := hrouted.recycled c d first second hcd hfirst hsecond htag
  cases hfate : s.fates c with
  | delivered reply => exact ⟨reply, rfl⟩
  | _ =>
    rw [hfate] at hclosed
    exact (hclosed trivial).elim

def crossed : List TrafficAction :=
  [.call (.tclunk ⟨1⟩), .call (.tclunk ⟨2⟩), .transmit 0, .transmit 1, .poll 0 .sent,
    .poll 0 .cancel, .poll 1 .sent, .answer 1 [121, 1, 0], .deliver 1, .call (.tclunk ⟨3⟩),
    .answer 0 [121, 0, 0], .deliver 0, .poll 1 .resume]

theorem reply_routing_crossed : ∃ s, exec Traffic.step (.start 1192) crossed = some s ∧
    (∀ (c : Nat) (call : Call) (resp : RMessage), s.client.calls[c]? = some call →
      call.stage = .returned resp →
      ∃ reply, s.fates c = .delivered reply ∧ deserializeR reply = .ok (call.tag, resp)) ∧
    ∀ (c d : Nat) (first second : Call), c < d → s.client.calls[c]? = some first →
      s.client.calls[d]? = some second → first.tag = second.tag →
      ∃ reply, s.fates c = .delivered reply := by
  have hsome : (exec Traffic.step (.start 1192) crossed).isSome = true := by decide
  obtain ⟨s, hs⟩ := Option.isSome_iff_exists.mp hsome
  exact ⟨s, hs, reply_routing 1192 s (reaches_of_exec hs)⟩

end NineWire.Client
