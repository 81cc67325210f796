import NineWire.Udt.RendezvousFlows

/-! The handshakes that the two ends send, and that each takes them for what they are. -/
namespace NineWire.Udt.Rendezvous
variable {setup : Setup} {s : Pair} {p : Peer → List (List UInt8)} {x : Peer}

theorem Holds.post {id : Int} {body : Body} (h : Holds setup s p)
    (hbody : ∀ w, body ≠ .transfer w) (hsaid : Says setup s ⟨x.other, id, body⟩) :
    Holds setup (s.post x id body) p where
  ends y := h.ends y
  net := by
    intro e he
    rcases List.mem_append.mp he with he | he
    · exact (h.net e he).mono (.of_ends rfl)
    · obtain rfl := List.mem_singleton.mp he
      exact hsaid.mono (.of_ends rfl)
  flows y := (h.flows y).congr (fun _ => rfl) (fun _ => wires_post hbody) rfl

theorem Holds.request (h : Holds setup s p) (x : Peer) :
    Holds setup (s.react (.request x)).2 p := by
  have hx := h.ends x
  simp only [Pair.react]
  split
  · apply h.post (by simp)
    refine ⟨by simpa using hx.request, .inl ⟨hx.type, ?_⟩⟩
    rcases hx.reqType with hreq | hasked
    · exact .inl hreq
    · rw [Peer.other_other]
      exact .inr ⟨hasked, hasked⟩
  · exact h

theorem Holds.note {e : End} (h : Holds setup s p) (hhalves : e.halves = (s.ends x).halves)
    (hasked : s.Asked x → e.Asked) (hknows : Knows setup x e (s.Asked x.other)) :
    Holds setup (s.setEnd x e) p := by
  have hlater : Later s (s.setEnd x e) := by
    apply Later.setEnd hasked
    intro hconn
    rwa [End.Connected, hhalves]
  have hsame : ∀ y, ((s.setEnd x e).ends y).halves = (s.ends y).halves := by
    intro y
    by_cases hy : y = x
    · rw [hy, setEnd_self, hhalves]
    · rw [setEnd_ne hy]
  constructor
  · intro y
    rcases x.eq_or y with rfl | rfl
    · rw [setEnd_self, Pair.Asked, setEnd_ne y.other_ne]
      exact hknows
    · rw [setEnd_ne x.other_ne]
      exact (h.ends x.other).mono (hlater.asked _)
  · exact fun e' he' => (h.net e' he').mono hlater
  · exact fun y => (h.flows y).congr hsame (fun _ => rfl) rfl

theorem Holds.giveUp (h : Holds setup s p) (x : Peer) : Holds setup (s.react (.giveUp x)).2 p := by
  have hx := h.ends x
  have hknows : Knows setup x { s.ends x with connecting := false } (s.Asked x.other) :=
    { hx with live := fun _ hconn => absurd hconn (by simp) }
  exact h.note rfl (fun hasked => hasked) hknows

theorem postConnect_halves {e : End} {peerAsked : Prop} (h : Knows setup x e peerAsked)
    (htells : Tells setup x.other e.connRes) :
    ∃ late, ∀ late', e.postConnect.halves =
      some ((Link.new (setup.terms x late)).snd, (Link.new (setup.terms x.other late')).rcv) := by
  obtain ⟨late, hwindow⟩ := htells.window
  rw [Peer.other_other] at hwindow
  have hsize : ((setup.mss : Int) - 48 - 16).toNat = setup.mss - 48 - 16 := by omega
  refine ⟨late, ?_⟩
  intro late'
  simp only [End.postConnect, h.options, h.isn, htells.isn, htells.mss, hwindow, hsize]
  simp [Link.new, Setup.terms]

theorem Holds.postConnect (h : Holds setup s p) (e : End) (hnot : ¬ s.Connected x)
    (hasked : e.Asked) (hother : s.Asked x.other) (hknows : Knows setup x e (s.Asked x.other)) :
    Holds setup (s.setEnd x e.postConnect) p := by
  have htells := hknows.told hasked
  obtain ⟨late, hhalves⟩ := postConnect_halves hknows htells
  have hconn : e.postConnect.Connected := by rw [End.Connected, hhalves late]; rfl
  have hlater : Later s (s.setEnd x e.postConnect) := .setEnd (fun _ => hasked) fun _ => hconn
  have hlink : (s.setEnd x e.postConnect).link (setup.terms x late) x =
      .new (setup.terms x late) := by
    have hnew := ((h.flows x).2 hnot).2.link late
    calc (s.setEnd x e.postConnect).link (setup.terms x late) x
        = { s.link (setup.terms x late) x with snd := (Link.new (setup.terms x late)).snd } := by
          simp [Pair.link, Pair.setEnd, Pair.wires, hhalves late]
      _ = .new (setup.terms x late) := by rw [hnew]
  have hlinkOther (late' : Bool) :
      (s.setEnd x e.postConnect).link (setup.terms x.other late') x.other =
        s.link (setup.terms x.other late') x.other := by
    have hnone : (s.ends x).halves = none := by simpa [Pair.Connected, End.Connected] using hnot
    simp [Pair.link, Pair.setEnd, Pair.wires, hhalves late', hnone]
  constructor
  · intro y
    rcases x.eq_or y with rfl | rfl
    · rw [setEnd_self, Pair.Asked, setEnd_ne y.other_ne]
      exact { hknows with
        mss := htells.mss
        live := fun _ hconn => absurd hconn (by simp [End.postConnect])
        asked := fun _ => ⟨hasked, hother⟩
        peerID := fun _ => htells.id }
    · rw [setEnd_ne x.other_ne]
      exact (h.ends x.other).mono (hlater.asked _)
  · exact fun e' he' => (h.net e' he').mono hlater
  · intro y
    rcases x.eq_or y with rfl | rfl
    · have hself : (s.setEnd y e.postConnect).Connected y := by rwa [Pair.Connected, setEnd_self]
      rw [((h.flows y).2 hnot).1]
      refine ⟨fun _ => ⟨late, ?_⟩, fun hnot => absurd hself hnot⟩
      rw [hlink]
      exact Link.holds_new _
    · have hflow := h.flows x.other
      have hsame : (s.setEnd x e.postConnect).Connected x.other ↔ s.Connected x.other := by
        rw [Pair.Connected, setEnd_ne x.other_ne, Pair.Connected]
      rw [Carried, hsame]
      refine ⟨?_, ?_⟩
      · intro hconn
        obtain ⟨late', hholds⟩ := hflow.1 hconn
        refine ⟨late', ?_⟩
        rwa [hlinkOther]
      · intro hconn
        obtain ⟨hnil, hunheard⟩ := hflow.2 hconn
        refine ⟨hnil, ?_, hunheard.data⟩
        intro late'
        rw [hlinkOther]
        exact hunheard.link late'

/-- Whatever comes to an end that connects, it goes on to connect. -/
theorem Holds.connectResponse {body : Body} {id : Int} (h : Holds setup s p)
    (hnot : ¬ s.Connected x) (hconn : (s.ends x).connecting = true)
    (hsaid : Says setup s ⟨x, id, body⟩)
    (hdata : ∀ w, body = .transfer w →
      s.Connected x.other ∧ ∃ seqNo packet, w = .data seqNo packet) :
    ∃ code e, (s.ends x).connectResponse body = (code, e) ∧ 0 ≤ code ∧
      Holds setup (s.setEnd x e) p := by
  have hx := h.ends x
  have hboth : s.Connected x.other → (s.ends x).Asked ∧ s.Asked x.other := by
    intro hother
    have hasked := (h.ends x.other).asked hother
    rw [Peer.other_other] at hasked
    exact ⟨hasked.2, hasked.1⟩
  have hlive : s.Connected x.other → (s.ends x).connRes.type ≠ 0 ∧
      Holds setup (s.setEnd x (s.ends x).postConnect) p := by
    intro hother
    obtain ⟨hasked, hpeer⟩ := hboth hother
    exact ⟨hx.live hasked hconn, h.postConnect _ hnot hasked hpeer hx⟩
  cases body with
  | keepAlive =>
    obtain ⟨htype, hholds⟩ := hlive hsaid
    exact ⟨0, _, by simp [End.connectResponse, hconn, htype], le_refl 0, hholds⟩
  | transfer w =>
    obtain ⟨hother, seqNo, packet, rfl⟩ := hdata w rfl
    obtain ⟨htype, hholds⟩ := hlive hother
    exact ⟨0, _, by simp [End.connectResponse, hconn, htype], le_refl 0, hholds⟩
  | handShake hs =>
    obtain ⟨htells, hcases⟩ := hsaid
    dsimp only at htells hcases
    by_cases hagain : ((s.ends x).take hs).connReq.reqType = 0 ∨ hs.reqType = 0
    · -- a socket that is connected answers only those that have asked
      have htype : hs.type ≠ 0 ∧ hs.reqType ≠ 1 := by
        rcases hcases with ⟨htype, hreq⟩ | ⟨hreq, hother⟩
        · rw [htype]
          exact ⟨by decide, by omega⟩
        · have hasked : (s.ends x).connReq.reqType = -1 := (hboth hother).1
          have hagain' : (s.ends x).connReq.reqType = 0 ∨ hs.reqType = 0 := hagain
          omega
      have hknows : Knows setup x ((s.ends x).take hs).ask (s.Asked x.other) :=
        { hx with
          request := { hx.request with }
          reqType := .inr rfl
          id := .inr htells.id
          told := fun _ => htells
          live := fun _ _ => htype.1
          asked := fun hconn => absurd hconn hnot
          peerID := fun hconn => absurd hconn hnot }
      have hholds : Holds setup (s.setEnd x ((s.ends x).take hs).ask) p :=
        h.note rfl (fun _ => rfl) hknows
      exact ⟨1, _, by simp [End.connectResponse, hconn, htype.2, hagain], by decide, hholds⟩
    · have hagain' : ¬ ((s.ends x).connReq.reqType = 0 ∨ hs.reqType = 0) := hagain
      have hasked : (s.ends x).Asked := hx.reqType.resolve_left fun hzero => hagain' (.inl hzero)
      have hpeer : s.Asked x.other := by
        rcases hcases with ⟨-, hreq | ⟨-, hpeer⟩⟩ | ⟨-, hother⟩
        · exact absurd (.inr hreq) hagain'
        · exact hpeer
        · exact (hboth hother).2
      have hone : hs.reqType ≠ 1 := by omega
      -- the last answer has no type, but nothing is to be asked any more
      have hholds := h.postConnect { (s.ends x).take hs with connecting := false } hnot hasked hpeer
        { hx with
          id := .inr htells.id
          told := fun _ => htells
          live := fun _ hconn => absurd hconn (by simp) }
      exact ⟨0, ((s.ends x).take hs).postConnect, by simp [End.connectResponse, hconn, hone, hagain], le_refl 0, hholds⟩

theorem Holds.processHandShake {hs res : HandShake} (h : Holds setup s p) (hx : s.Connected x)
    (hres : (s.ends x).processHandShake hs = some res) (id : Int) :
    Says setup s ⟨x.other, id, .handShake res⟩ := by
  have hknows := h.ends x
  unfold End.processHandShake at hres
  split at hres
  · cases hres
    refine ⟨?_, .inr ⟨rfl, by rwa [Peer.other_other]⟩⟩
    rw [Peer.other_other]
    exact
      { isn := hknows.isn
        mss := hknows.mss
        window := ⟨true, by simp [hknows.options, Setup.terms]⟩
        id := hknows.socketID }
  · cases hres

end NineWire.Udt.Rendezvous
