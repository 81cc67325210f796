import NineWire.Transport.Mail

/-! Where every datagram is, on its way from one transport to the other. -/
namespace NineWire.Transport.Mail
open NineWire.Table
open NineWire.Wire (Bytes)

inductive Place
  | unsent
  | queued
  | held (i : Nat)
  | gone
  deriving DecidableEq

structure Letter where
  index : Nat
  payload : Bytes
  message : Bytes

def Letter.nonce (l : Letter) : UInt64 := UInt64.ofNat l.index

def Letter.datagram (l : Letter) : Bytes := Transport.datagram l.nonce l.message

def Letter.Sent (l : Letter) (c : Channel) : Prop :=
  ∃ send n, c.sends[l.index]? = some send ∧ send.stage = .returned n ∧
    send.message = some l.message ∧ send.buf = l.payload

structure Placed (crypto : Crypto) (c : Channel) (q : List Letter) (place : Nat → Place)
    (m : Post) : Prop where
  counted : Counted crypto c
  few : c.sends.length < 2^64
  payloads : m.queue = q.map Letter.payload
  sent : ∀ l ∈ q, l.Sent c ∧ place l.index = .queued
  nodup : (q.map Letter.index).Nodup
  hands : ∀ i size payload, m.hand i = some (size, payload) → ∃ recv len, ∃ l : Letter,
    c.recvs[i]? = some recv ∧ recv.size = size ∧ recv.stage = .holding (l.datagram.take len) ∧
      size + 24 ≤ len ∧ l.payload = payload ∧ l.Sent c ∧ place l.index = .held i
  free : ∀ i, m.hand i = none → ∀ recv d, c.recvs[i]? = some recv → recv.stage ≠ .holding d
  seen : ∀ nonce ∈ c.nonceIncoming, place nonce.toNat = .gone
  unsent : ∀ j, (∀ send n, c.sends[j]? = some send → send.stage ≠ .returned n) →
    place j = .unsent

variable {crypto : Crypto} {c c' : Channel} {q : List Letter} {place : Nat → Place} {m : Post}
  {l : Letter}

theorem placed_start (crypto : Crypto) :
    Placed crypto .start [] (fun _ => .unsent) .empty where
  counted := .start
  few := by decide
  payloads := rfl
  sent := by simp
  nodup := List.nodup_nil
  hands := by simp [Post.empty]
  free := by simp [Channel.start]
  seen := by simp [Channel.start]
  unsent _ _ := rfl

theorem Placed.nonce_toNat (h : Placed crypto c q place m) (hl : l.Sent c) :
    l.nonce.toNat = l.index := by
  obtain ⟨send, n, hsend, -⟩ := hl
  have hlt := lt_of_get hsend
  have hfew := h.few
  exact UInt64.toNat_ofNat_of_lt' (Nat.lt_trans hlt hfew)

theorem Placed.sealed (h : Placed crypto c q place m) (hl : l.Sent c) :
    crypto.writeMessage l.nonce l.payload = some l.message := by
  obtain ⟨send, n, hsend, -, hmessage, hbuf⟩ := hl
  have hsealed := h.counted.sealed _ _ _ hsend hmessage
  rwa [h.counted.numbered _ _ hsend, hbuf] at hsealed

theorem Placed.datagram_length (h : Placed crypto c q place m) (hl : l.Sent c) :
    l.datagram.length = l.payload.length + 24 := by
  rw [Letter.datagram, Transport.datagram, List.length_append, toBeBytes_length,
    crypto.overhead _ _ _ (h.sealed hl)]
  omega

theorem nonceOf_take {len : Nat} (hlen : 8 ≤ len) : nonceOf (l.datagram.take len) = l.nonce := by
  have htake : (l.datagram.take len).take 8 = l.datagram.take 8 := by
    rw [List.take_take, Nat.min_eq_left hlen]
  rw [nonceOf, htake]
  exact nonceOf_datagram _ _

theorem Placed.same (h : Placed crypto c q place m) (hcounted : Counted crypto c')
    (hfew : c'.sends.length < 2^64) (hseen : c'.nonceIncoming = c.nonceIncoming)
    (hsends : ∀ (j : Nat) (send : Send) (n : Nat), send.stage = .returned n →
      (c'.sends[j]? = some send ↔ c.sends[j]? = some send))
    (hrecvs : ∀ (i : Nat) (recv : Recv) (d : Bytes), recv.stage = .holding d →
      (c'.recvs[i]? = some recv ↔ c.recvs[i]? = some recv)) : Placed crypto c' q place m := by
  have hkeep {l : Letter} (hl : l.Sent c) : l.Sent c' := by
    obtain ⟨send, n, hsend, hstage, hrest⟩ := hl
    exact ⟨send, n, (hsends _ send n hstage).mpr hsend, hstage, hrest⟩
  constructor
  · exact hcounted
  · exact hfew
  · exact h.payloads
  · exact fun l hl => ⟨hkeep (h.sent l hl).1, (h.sent l hl).2⟩
  · exact h.nodup
  · intro i size payload hhand
    obtain ⟨recv, len, l, hrecv, hsize, hstage, hlen, hpayload, hl, hplace⟩ :=
      h.hands i size payload hhand
    exact ⟨recv, len, l, (hrecvs i recv _ hstage).mpr hrecv, hsize, hstage, hlen, hpayload,
      hkeep hl, hplace⟩
  · intro i hhand recv d hrecv hstage
    exact h.free i hhand recv d ((hrecvs i recv d hstage).mp hrecv) hstage
  · rw [hseen]
    exact h.seen
  · intro j hj
    apply h.unsent j
    intro send n hsend hstage
    exact hj send n ((hsends j send n hstage).mpr hsend) hstage

theorem Placed.setSend {j : Nat} {send send' : Send} (h : Placed crypto c q place m)
    (hsend : c.sends[j]? = some send) (hnot : ∀ n, send.stage ≠ .returned n)
    (hnot' : ∀ n, send'.stage ≠ .returned n)
    (hcounted : Counted crypto { c with sends := c.sends.set j send' }) :
    Placed crypto { c with sends := c.sends.set j send' } q place m := by
  refine h.same hcounted ?_ rfl ?_ fun _ _ _ _ => Iff.rfl
  · rw [List.length_set]
    exact h.few
  · intro k other n hstage
    constructor
    · intro hk
      rcases set_cases hk with ⟨rfl, rfl⟩ | ⟨-, hk⟩
      · exact absurd hstage (hnot' n)
      · exact hk
    · intro hk
      have hjk : j ≠ k := by
        rintro rfl
        obtain rfl := Option.some.inj (hsend.symm.trans hk)
        exact hnot n hstage
      exact (set_get_ne hjk).trans hk

theorem Placed.setRecv {i : Nat} {recv recv' : Recv} (h : Placed crypto c q place m)
    (hrecv : c.recvs[i]? = some recv) (hnot : ∀ d, recv.stage ≠ .holding d)
    (hnot' : ∀ d, recv'.stage ≠ .holding d)
    (hcounted : Counted crypto { c with recvs := c.recvs.set i recv' }) :
    Placed crypto { c with recvs := c.recvs.set i recv' } q place m := by
  refine h.same hcounted h.few rfl (fun _ _ _ _ => Iff.rfl) ?_
  intro k other d hstage
  constructor
  · intro hk
    rcases set_cases hk with ⟨rfl, rfl⟩ | ⟨-, hk⟩
    · exact absurd hstage (hnot' d)
    · exact hk
  · intro hk
    have hik : i ≠ k := by
      rintro rfl
      obtain rfl := Option.some.inj (hrecv.symm.trans hk)
      exact hnot d hstage
    exact (set_get_ne hik).trans hk

theorem next_stage {send send' : Send} {b : SendStep} (h : send.next crypto b = some send')
    (hb : b ≠ .sent) :
    (∀ n, send.stage ≠ .returned n) ∧ ∀ n, send'.stage ≠ .returned n := by
  cases b with
  | sent => exact absurd rfl hb
  | encrypt =>
    simp only [Send.next] at h
    split at h
    · rename_i hstage
      split at h <;> cases h <;> simp [hstage]
    · cases h
  | fails =>
    simp only [Send.next] at h
    split at h
    · rename_i hstage
      cases h
      simp [hstage]
    · cases h
  | cancel =>
    simp only [Send.next] at h
    split at h
    · rename_i hstage
      cases h
      simp [hstage]
    · cases h

/-- What the transports do by themselves sends nothing and opens nothing. -/
theorem Placed.step {a : Transport.Action} (h : Placed crypto c q place m)
    (hcounted : Counted crypto c') (hstep : c.step crypto a = some c')
    (hsend : ∀ j, a ≠ .send j .sent) (hreceive : ∀ i d, a ≠ .receive i d)
    (hdecrypt : ∀ i, a ≠ .decrypt i)
    (hfew : ∀ buf, a = .sendWith buf → c.sends.length + 1 < 2^64) :
    Placed crypto c' q place m := by
  have hwake {i : Nat} {stage : RecvStage} (hstage : ∀ d, stage ≠ .holding d)
      (hwake : c.wake i stage = some c') : Placed crypto c' q place m := by
    obtain ⟨recv, hrecv, hwake⟩ := Option.bind_eq_some_iff.mp hwake
    split at hwake
    · rename_i hwaiting
      obtain rfl := Option.some.inj hwake
      exact h.setRecv hrecv (by simp [hwaiting]) hstage hcounted
    · cases hwake
  cases a with
  | sendWith buf =>
    obtain rfl := Option.some.inj hstep
    refine h.same hcounted ?_ rfl ?_ fun _ _ _ _ => Iff.rfl
    · rw [Channel.sendWith, List.length_append, List.length_singleton]
      exact hfew buf rfl
    · intro j send n hstage
      constructor
      · intro hj
        rcases append_cases hj with hold | ⟨-, rfl⟩
        · exact hold
        · cases hstage
      · exact append_get
  | send j b =>
    obtain ⟨send, hj, hstep⟩ := Option.bind_eq_some_iff.mp hstep
    obtain ⟨send', hnext, hstep⟩ := Option.bind_eq_some_iff.mp hstep
    obtain rfl := Option.some.inj hstep
    obtain ⟨hnot, hnot'⟩ := next_stage hnext fun hb => hsend j (by rw [hb])
    exact h.setSend hj hnot hnot' hcounted
  | recv size =>
    obtain rfl := Option.some.inj hstep
    refine h.same hcounted h.few rfl (fun _ _ _ _ => Iff.rfl) ?_
    intro i recv d hstage
    constructor
    · intro hi
      rcases append_cases hi with hold | ⟨-, rfl⟩
      · exact hold
      · cases hstage
    · exact append_get
  | receive i incoming => exact absurd rfl (hreceive i incoming)
  | recvFails i => exact hwake (by simp) hstep
  | cancel i => exact hwake (by simp) hstep
  | decrypt i => exact absurd rfl (hdecrypt i)

/-- The connection accepts the datagram of a send. -/
theorem Placed.accept {j : Nat} {send : Send} {message : Bytes} (h : Placed crypto c q place m)
    (hsend : c.sends[j]? = some send) (hstage : send.stage = .sending)
    (hmessage : send.message = some message)
    (hcounted : Counted crypto { c with
      sends := c.sends.set j { send with stage := .returned send.buf.length } }) :
    Placed crypto { c with sends := c.sends.set j { send with stage := .returned send.buf.length } }
      (q ++ [⟨j, send.buf, message⟩]) (Function.update place j .queued)
      { m with queue := m.queue ++ [send.buf] } := by
  have hplace : place j = .unsent := by
    apply h.unsent
    intro other n hother
    obtain rfl := Option.some.inj (hsend.symm.trans hother)
    simp [hstage]
  have hne {k : Nat} (hk : place k ≠ .unsent) : k ≠ j := by
    rintro rfl
    exact hk hplace
  have hkeep {l : Letter} (hl : l.Sent c) (hindex : l.index ≠ j) : l.Sent { c with
      sends := c.sends.set j { send with stage := .returned send.buf.length } } := by
    obtain ⟨other, n, hother, hrest⟩ := hl
    exact ⟨other, n, (set_get_ne hindex.symm).trans hother, hrest⟩
  constructor
  · exact hcounted
  · rw [List.length_set]
    exact h.few
  · simp [h.payloads]
  · intro l hl
    rcases List.mem_append.mp hl with hl | hl
    · obtain ⟨hl, hqueued⟩ := h.sent l hl
      have hindex := hne (k := l.index) (by simp [hqueued])
      exact ⟨hkeep hl hindex, by rw [Function.update_of_ne hindex, hqueued]⟩
    · obtain rfl := List.mem_singleton.mp hl
      exact ⟨⟨_, _, set_get_self hsend, rfl, hmessage, rfl⟩, Function.update_self ..⟩
  · rw [List.map_append, List.nodup_append]
    refine ⟨h.nodup, by simp, ?_⟩
    intro k hk k' hk'
    obtain ⟨l, hl, rfl⟩ := List.mem_map.mp hk
    obtain rfl : k' = j := by simpa using hk'
    exact hne (by simp [(h.sent l hl).2])
  · intro i size payload hhand
    obtain ⟨recv, len, l, hrecv, hsize, hholding, hlen, hpayload, hl, hheld⟩ :=
      h.hands i size payload hhand
    have hindex := hne (k := l.index) (by simp [hheld])
    exact ⟨recv, len, l, hrecv, hsize, hholding, hlen, hpayload, hkeep hl hindex, by
      rw [Function.update_of_ne hindex, hheld]⟩
  · exact h.free
  · intro nonce hnonce
    have hgone := h.seen nonce hnonce
    rw [Function.update_of_ne (hne (by simp [hgone])), hgone]
  · intro k hk
    by_cases hkj : k = j
    · subst hkj
      exact absurd rfl (hk _ _ (set_get_self hsend))
    · rw [Function.update_of_ne hkj]
      apply h.unsent k
      intro other n hother
      exact hk other n ((set_get_ne (Ne.symm hkj)).trans hother)

theorem Placed.take {i len : Nat} {recv : Recv} (h : Placed crypto c (l :: q) place m)
    (hrecv : c.recvs[i]? = some recv) (hwaiting : recv.stage = .waiting)
    (hlen : recv.size + 24 ≤ len)
    (hcounted : Counted crypto { c with
      recvs := c.recvs.set i { recv with stage := .holding (l.datagram.take len) } }) :
    m.hand i = none ∧ Placed crypto { c with
      recvs := c.recvs.set i { recv with stage := .holding (l.datagram.take len) } }
      q (Function.update place l.index (.held i))
      ⟨q.map Letter.payload, Function.update m.hand i (some (recv.size, l.payload))⟩ := by
  obtain ⟨hl, hqueued⟩ := h.sent l List.mem_cons_self
  have hnodup := h.nodup
  rw [List.map_cons, List.nodup_cons] at hnodup
  have hne {k : Nat} (hk : place k ≠ .queued) : k ≠ l.index := by
    rintro rfl
    exact hk hqueued
  have hhand : m.hand i = none := by
    cases hi : m.hand i with
    | none => rfl
    | some hand =>
      obtain ⟨size, payload⟩ := hand
      obtain ⟨other, len', l', hother, -, hholding, -⟩ := h.hands i size payload hi
      obtain rfl := Option.some.inj (hrecv.symm.trans hother)
      rw [hwaiting] at hholding
      cases hholding
  refine ⟨hhand, ?_⟩
  constructor
  · exact hcounted
  · exact h.few
  · rfl
  · intro l' hl'
    obtain ⟨hsent, hplace⟩ := h.sent l' (List.mem_cons_of_mem l hl')
    have hindex : l'.index ≠ l.index := by
      intro heq
      exact hnodup.1 (heq ▸ List.mem_map_of_mem hl')
    exact ⟨hsent, by rw [Function.update_of_ne hindex, hplace]⟩
  · exact hnodup.2
  · intro k size payload hk
    dsimp only at hk
    by_cases hki : k = i
    · subst hki
      rw [Function.update_self] at hk
      obtain ⟨rfl, rfl⟩ := Prod.mk.inj (Option.some.inj hk)
      exact ⟨_, len, l, set_get_self hrecv, rfl, rfl, hlen, rfl, hl, Function.update_self ..⟩
    · rw [Function.update_of_ne hki] at hk
      obtain ⟨other, len', l', hother, hsize, hholding, hlen', hpayload, hl', hheld⟩ :=
        h.hands k size payload hk
      exact ⟨other, len', l', (set_get_ne (Ne.symm hki)).trans hother, hsize, hholding, hlen',
        hpayload, hl', by rw [Function.update_of_ne (hne (by simp [hheld])), hheld]⟩
  · intro k hk other d hother
    dsimp only at hk
    have hki : k ≠ i := by
      rintro rfl
      simp at hk
    rw [Function.update_of_ne hki] at hk
    exact h.free k hk other d ((set_get_ne (Ne.symm hki)).symm.trans hother)
  · intro nonce hnonce
    have hgone := h.seen nonce hnonce
    rw [Function.update_of_ne (hne (by simp [hgone])), hgone]
  · intro k hk
    have hunsent := h.unsent k hk
    rw [Function.update_of_ne (hne (by simp [hunsent])), hunsent]

/-- A receive is over with its datagram. -/
theorem Placed.release {i : Nat} {recv recv' : Recv} {seen : Finset UInt64}
    (h : Placed crypto c q place m) (hrecv : c.recvs[i]? = some recv)
    (hl : l.Sent c) (hheld : place l.index = .held i)
    (hstage : ∀ d, recv'.stage ≠ .holding d)
    (hseen : ∀ nonce ∈ seen, nonce = l.nonce ∨ nonce ∈ c.nonceIncoming)
    (hcounted : Counted crypto { c with
      nonceIncoming := seen, recvs := c.recvs.set i recv' }) :
    Placed crypto { c with nonceIncoming := seen, recvs := c.recvs.set i recv' } q
      (Function.update place l.index .gone)
      { m with hand := Function.update m.hand i none } := by
  have hne {k : Nat} (hk : place k ≠ .held i) : k ≠ l.index := by
    rintro rfl
    exact hk hheld
  constructor
  · exact hcounted
  · exact h.few
  · exact h.payloads
  · intro l' hl'
    obtain ⟨hsent, hplace⟩ := h.sent l' hl'
    exact ⟨hsent, by rw [Function.update_of_ne (hne (by simp [hplace])), hplace]⟩
  · exact h.nodup
  · intro k size payload hk
    dsimp only at hk
    have hki : k ≠ i := by
      rintro rfl
      simp at hk
    rw [Function.update_of_ne hki] at hk
    obtain ⟨other, len', l', hother, hsize, hholding, hlen', hpayload, hl', hheld'⟩ :=
      h.hands k size payload hk
    exact ⟨other, len', l', (set_get_ne (Ne.symm hki)).trans hother, hsize, hholding, hlen',
      hpayload, hl', by rw [Function.update_of_ne (hne (by simpa [hheld'] using hki)), hheld']⟩
  · intro k hk other d hother
    dsimp only at hk
    by_cases hki : k = i
    · subst hki
      obtain rfl := Option.some.inj ((set_get_self hrecv).symm.trans hother)
      exact hstage d
    · rw [Function.update_of_ne hki] at hk
      exact h.free k hk other d ((set_get_ne (Ne.symm hki)).symm.trans hother)
  · intro nonce hnonce
    rcases hseen nonce hnonce with rfl | hold
    · rw [h.nonce_toNat hl, Function.update_self]
    · have hgone := h.seen nonce hold
      rw [Function.update_of_ne (hne (by simp [hgone])), hgone]
  · intro k hk
    have hunsent := h.unsent k hk
    rw [Function.update_of_ne (hne (by simp [hunsent])), hunsent]

/-- A datagram of which too little came in is none that was sent. -/
theorem Placed.truncated {len i : Nat} {recv : Recv} (h : Placed crypto c q place m)
    (hl : l.Sent c) (hrecv : c.recvs[i]? = some recv)
    (hholding : recv.stage = .holding (l.datagram.take len)) (hlen : 8 ≤ len)
    (hauth : Authentic crypto c (.decrypt i)) (hshort : len < l.datagram.length) :
    crypto.readMessage l.nonce (messageOf (l.datagram.take len)) = none := by
  rw [Option.eq_none_iff_forall_ne_some]
  intro payload hread
  rw [← nonceOf_take hlen] at hread
  obtain ⟨other, hmem, hnonce, hmessage⟩ := hauth recv _ payload hrecv hholding hread
  obtain ⟨j, hj⟩ := List.mem_iff_getElem?.mp hmem
  obtain ⟨send, n, hsend, -, hmine, -⟩ := hl
  have hindex : j = l.index := by
    have hlt := lt_of_get hj
    have hlt' := lt_of_get hsend
    have hfew := h.few
    rw [nonceOf_take hlen, h.counted.numbered j other hj] at hnonce
    have htoNat := congrArg UInt64.toNat hnonce
    rwa [Letter.nonce, UInt64.toNat_ofNat_of_lt' (Nat.lt_trans hlt hfew),
      UInt64.toNat_ofNat_of_lt' (Nat.lt_trans hlt' hfew)] at htoNat
  subst hindex
  obtain rfl := Option.some.inj (hj.symm.trans hsend)
  have hlengths := congrArg List.length (Option.some.inj (hmine.symm.trans hmessage))
  have hwhole : l.message.length + 8 = l.datagram.length := by
    rw [Letter.datagram, Transport.datagram, List.length_append, toBeBytes_length]
    omega
  rw [messageOf, List.length_drop, List.length_take] at hlengths
  omega

/-- What was taken is returned, or is too long. -/
theorem Placed.decrypt {i : Nat} {recv : Recv} {d : Bytes} (h : Placed crypto c q place m)
    (hrecv : c.recvs[i]? = some recv) (hholding : recv.stage = .holding d)
    (hauth : Authentic crypto c (.decrypt i)) :
    ∃ size payload place', m.hand i = some (size, payload) ∧
      Placed crypto (c.decrypt crypto i recv d) q place'
        { m with hand := Function.update m.hand i none } ∧
      (payload.length ≤ size ∧ (c.decrypt crypto i recv d).recvs[i]?.map Recv.stage =
          some (.returned (nonceOf d) payload) ∨
        size < payload.length ∧
          (c.decrypt crypto i recv d).recvs[i]?.map Recv.stage = some .waiting) := by
  cases hhand : m.hand i with
  | none => exact absurd hholding (h.free i hhand recv d hrecv)
  | some hand =>
    obtain ⟨size, payload⟩ := hand
    obtain ⟨other, len, l, hother, rfl, hstage, hlen, rfl, hl, hheld⟩ := h.hands i size payload hhand
    obtain rfl := Option.some.inj (hrecv.symm.trans hother)
    obtain rfl := RecvStage.holding.inj (hholding.symm.trans hstage)
    have hnonce : nonceOf (l.datagram.take len) = l.nonce := nonceOf_take (by omega)
    have hlength := h.datagram_length hl
    have hcounted := h.counted.decrypt hrecv hholding hauth
    have hnew : nonceOf (l.datagram.take len) ∉ c.nonceIncoming := by
      intro hseen
      have hgone := h.seen _ hseen
      rw [hnonce, h.nonce_toNat hl, hheld] at hgone
      cases hgone
    refine ⟨recv.size, l.payload, Function.update place l.index .gone, rfl, ?_⟩
    by_cases hfits : l.payload.length ≤ recv.size
    · have hwhole : l.datagram.take len = l.datagram := List.take_of_length_le (by omega)
      have hmessage : messageOf l.datagram = l.message := messageOf_datagram _ _
      have hread : crypto.readMessage (nonceOf (l.datagram.take len))
          (messageOf (l.datagram.take len)) = some l.payload := by
        rw [hnonce, hwhole, hmessage]
        exact crypto.opens _ _ _ (h.sealed hl)
      have haccepts := decrypt_accepts (i := i) hnew hread hfits
      rw [haccepts] at hcounted ⊢
      refine ⟨h.release hrecv hl hheld (by simp) ?_ hcounted, .inl ⟨hfits, ?_⟩⟩
      · intro nonce hmem
        rw [← hnonce]
        exact Finset.mem_insert.mp hmem
      · simp only [set_get_self hrecv, Option.map_some]
    · have hnone : readInto crypto recv.size (nonceOf (l.datagram.take len))
          (messageOf (l.datagram.take len)) = none := by
        rcases Nat.lt_or_ge len l.datagram.length with hshort | hlong
        · rw [readInto, hnonce, h.truncated hl hrecv hholding (by omega) hauth hshort]
          rfl
        · have hmessage : messageOf l.datagram = l.message := messageOf_datagram _ _
          rw [readInto, hnonce, List.take_of_length_le hlong, hmessage,
            crypto.opens _ _ _ (h.sealed hl), Option.filter_some]
          simp [hfits]
      have hwaits : c.decrypt crypto i recv (l.datagram.take len) =
          { c with recvs := c.recvs.set i { recv with stage := .waiting } } := by
        simp [Channel.decrypt, hnew, hnone]
      rw [hwaits] at hcounted ⊢
      refine ⟨h.release hrecv hl hheld (by simp) (fun _ => .inr) hcounted, .inr ⟨by omega, ?_⟩⟩
      simp only [set_get_self hrecv, Option.map_some]

end NineWire.Transport.Mail
