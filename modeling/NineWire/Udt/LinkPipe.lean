import NineWire.Udt.ReceiverSteps

/-! What holds of both ends and of the packets between them at any time, and that
the connection is a pipe of messages therefore. -/
namespace NineWire.Udt
open NineWire.Refinement NineWire.Udt.SeqNo NineWire.Udt.RcvBuffer

def OnItsWay (c : Terms) (stream : List Packet) (n a rc : Int) (got : Int → Option Packet)
    (e : Nat × Wire) : Prop :=
  c.isn + e.1 ≤ n ∧
  match e.2 with
  | .data seqNo p => ∃ i, seqNo = num i ∧ packetAt c.isn stream i = some p ∧ i < n ∧
      c.isn + e.1 - c.window ≤ i
  | .ack _ ack avail => ∃ j, ack = num j ∧ j ≤ a ∧ c.isn + e.1 - c.window ≤ j ∧
      avail ≤ c.window
  | .lightAck ack => ∃ j, ack = num j ∧ CameIn a rc got j ∧ c.isn + e.1 - c.window ≤ j
  | .ack2 _ => True
  | .nak losslist => ∃ g, losslist = LossReport.words g ∧ c.isn ≤ g.lo ∧ g.hi < n ∧
      c.isn + e.1 - c.window ≤ g.lo
  | .drop .. => False

/-- `done` are the messages that were read and `todo` those that were not. -/
structure Carries (c : Terms) (l : Link) (done todo : List (List Packet)) (f da la a rc : Int)
    (got : Int → Option Packet) : Prop where
  msgs : ∀ ps ∈ done ++ todo, IsMsg ps ∧ ∀ p ∈ ps, Reliable p
  sends : Sends c l.snd (done ++ todo).flatten f da la (c.isn + l.sent)
  receives : Receives c l.rcv (done ++ todo).flatten (c.isn + done.flatten.length) a rc got
  le : da ≤ a ∧ rc ≤ c.isn + l.sent
  came : CameIn a rc got la
  net : ∀ e ∈ l.net, OnItsWay c (done ++ todo).flatten (c.isn + l.sent) a rc got e

def Link.Holds (c : Terms) (l : Link) (ms : List (List UInt8)) : Prop :=
  ∃ done todo f da la a rc got, Carries c l done todo f da la a rc got ∧ todo.map bytes = ms

variable {c : Terms} {l : Link} {done todo : List (List Packet)} {f da la a rc n j : Int}
  {got : Int → Option Packet} {stream : List Packet} {e : Nat × Wire}

theorem CameIn.mono {a' rc' : Int} {got' : Int → Option Packet} (h : CameIn a rc got j)
    (ha : a ≤ a') (hrc : rc ≤ rc') (hgot : ∀ i, a' ≤ i → got i ≠ none → got' i ≠ none) :
    CameIn a' rc' got' j :=
  ⟨le_trans h.1 hrc, fun i hi hlt => hgot i hi (h.2 i (le_trans ha hi) hlt)⟩

theorem OnItsWay.append (h : OnItsWay c stream n a rc got e) (more : List Packet) :
    OnItsWay c (stream ++ more) n a rc got e := by
  obtain ⟨hm, h⟩ := h
  refine ⟨hm, ?_⟩
  obtain ⟨m, w⟩ := e
  cases w with
  | data seqNo p =>
    obtain ⟨i, hi, hp, hrest⟩ := h
    exact ⟨i, hi, packetAt_append hp more, hrest⟩
  | ack _ _ _ => exact h
  | lightAck _ => exact h
  | ack2 _ => exact h
  | nak _ => exact h
  | drop _ _ _ => exact h

theorem OnItsWay.mono {n' a' rc' : Int} {got' : Int → Option Packet}
    (h : OnItsWay c stream n a rc got e) (hn : n ≤ n') (ha : a ≤ a') (hrc : rc ≤ rc')
    (hgot : ∀ i, a' ≤ i → got i ≠ none → got' i ≠ none) :
    OnItsWay c stream n' a' rc' got' e := by
  obtain ⟨hm, h⟩ := h
  refine ⟨le_trans hm hn, ?_⟩
  obtain ⟨m, w⟩ := e
  cases w with
  | data seqNo p =>
    obtain ⟨i, hi, hp, hlt, hage⟩ := h
    exact ⟨i, hi, hp, by omega, hage⟩
  | ack _ ack avail =>
    obtain ⟨j, hj, hja, hage, havail⟩ := h
    exact ⟨j, hj, by omega, hage, havail⟩
  | lightAck ack =>
    obtain ⟨j, hj, hcame, hage⟩ := h
    exact ⟨j, hj, hcame.mono ha hrc hgot, hage⟩
  | ack2 _ => trivial
  | nak losslist =>
    obtain ⟨g, hg, hlo, hhi, hage⟩ := h
    exact ⟨g, hg, hlo, by omega, hage⟩
  | drop _ _ _ => exact h

theorem bytes_ne_nil {ps : List Packet} (hmsg : IsMsg ps) (hrel : ∀ p ∈ ps, Reliable p) :
    bytes ps ≠ [] := by
  obtain ⟨p, ps, rfl⟩ := List.exists_cons_of_ne_nil hmsg.1
  have hp := (hrel p List.mem_cons_self).data
  simp [bytes, hp]

theorem Carries.reliable (h : Carries c l done todo f da la a rc got) :
    ∀ p ∈ (done ++ todo).flatten, Reliable p := by
  intro p hp
  obtain ⟨ps, hps, hp⟩ := List.mem_flatten.mp hp
  exact (h.msgs ps hps).2 p hp

theorem carries_new (c : Terms) :
    Carries c (.new c) [] [] c.isn c.isn c.isn c.isn c.isn fun _ => none := by
  have hmin := c.rcv_min
  have hpos := c.window_pos
  have hrcv := c.window_le
  have hflight := c.flight_lt
  have hisn : c.isn = num c.isn := (num_of_le c.isn_nonneg c.isn_le).symm
  have hcurr := stands_pred c.isn_nonneg c.isn_le
  have hn : c.isn + ((Link.new c).sent : Int) = c.isn := add_zero c.isn
  have hsends : Sends c (Link.new c).snd [] c.isn c.isn c.isn c.isn :=
    { le := by simp
      window := by simp [Link.new]; omega
      lastAck := hisn
      lastDataAck := hisn
      curr := hcurr
      sizes := ⟨rfl, rfl⟩
      msgNo := (by decide : (1 : Nat) < maxMsgNo)
      buffer := ⟨[], [], SndBuffer.holds_new (by decide), by simp, by simp, by simp⟩
      losses := ⟨∅, SndLossList.shows_new (by simp only [seqNoTH]; omega), rfl, by simp⟩
      sound := rfl }
  have hreceives : Receives c (Link.new c).rcv [] c.isn c.isn c.isn fun _ => none :=
    { window := ⟨-c.isn, window_new (by omega) c.isn⟩
      size := rfl
      le := le_refl c.isn
      packets := by simp
      reached := by simp
      last := by simp
      losses := ⟨∅, RcvLossList.shows_new (by simp only [seqNoTH]; omega), rfl, by simp⟩
      lastAck := hisn
      curr := hcurr }
  constructor
  · simp
  · rw [hn]
    exact hsends
  · simpa using hreceives
  · rw [hn]
    exact ⟨le_refl c.isn, le_refl c.isn⟩
  · exact ⟨le_refl c.isn, by intro i hi hlt; omega⟩
  · simp [Link.new]

theorem Carries.withSnd {x : Sender} {f' da' la' : Int} (h : Carries c l done todo f da la a rc got)
    (hsends : Sends c x (done ++ todo).flatten f' da' la' (c.isn + l.sent)) (hda : da' ≤ a)
    (hla : CameIn a rc got la') :
    Carries c { l with snd := x } done todo f' da' la' a rc got :=
  { h with sends := hsends, le := ⟨hda, h.le.2⟩, came := hla }

theorem Carries.withRcv {r : Receiver} {a' rc' : Int} {got' : Int → Option Packet}
    (h : Carries c l done todo f da la a rc got)
    (hreceives : Receives c r (done ++ todo).flatten (c.isn + done.flatten.length) a' rc' got')
    (ha : a ≤ a') (hrc : rc ≤ rc') (hrc' : rc' ≤ c.isn + l.sent)
    (hgot : ∀ i, got i ≠ none → got' i ≠ none) :
    Carries c { l with rcv := r } done todo f da la a' rc' got' := by
  have hle := h.le
  refine { h with
    receives := hreceives
    le := ⟨by omega, hrc'⟩
    came := h.came.mono ha hrc fun i _ => hgot i
    net := ?_ }
  intro e he
  exact (h.net e he).mono (le_refl _) ha hrc fun i _ => hgot i

theorem Carries.post {w : Option Wire} (h : Carries c l done todo f da la a rc got)
    (hw : ∀ x, w = some x →
      OnItsWay c (done ++ todo).flatten (c.isn + l.sent) a rc got (l.sent, x)) :
    Carries c (l.post w) done todo f da la a rc got := by
  cases w with
  | none => exact h
  | some x =>
    refine { h with net := ?_ }
    intro e he
    rcases List.mem_append.mp he with he | he
    · exact h.net e he
    · obtain rfl := List.mem_singleton.mp he
      exact hw x rfl

/-- A packet goes out no earlier than `c.window` packets behind its own. -/
theorem Carries.young (h : Carries c l done todo f da la a rc got) :
    c.isn + l.sent - c.window ≤ a := by
  have hle := h.sends.le
  have hwindow := h.sends.window
  have hda := h.le
  omega

theorem Carries.packData (h : Carries c l done todo f da la a rc got) (congestionWindow : Int)
    (now : Nat) : Carries c (l.packData congestionWindow now) done todo f da la a rc got := by
  have hle := h.sends.le
  have hwindow := h.sends.window
  have hpos := c.window_pos
  unfold Link.packData
  rcases h.sends.packData h.reliable congestionWindow now with
    ⟨i, p, hwire, hp, hda, hlt, hsends, hcurr⟩ | ⟨p, hwire, hp, hsends, hcurr⟩ |
      ⟨hwire, hsends, hcurr⟩
  · generalize l.snd.packData congestionWindow now = res at *
    obtain ⟨w, x⟩ := res
    dsimp only at hwire hcurr hsends ⊢
    subst hwire
    rw [if_pos hcurr]
    apply (h.withSnd hsends h.le.1 h.came).post
    intro x hx
    cases hx
    exact ⟨le_refl _, i, rfl, hp, hlt, by dsimp only; omega⟩
  · generalize l.snd.packData congestionWindow now = res at *
    obtain ⟨w, x⟩ := res
    dsimp only at hwire hcurr hsends ⊢
    subst hwire
    rw [if_neg hcurr]
    have hn : c.isn + ((l.sent + 1 : Nat) : Int) = c.isn + l.sent + 1 := by omega
    have hnew : Carries c { l with snd := x, sent := l.sent + 1 } done todo f da la a rc got := by
      refine { h with sends := ?_, le := ?_, net := ?_ }
      · rwa [hn]
      · have hrc := h.le
        rw [hn]
        omega
      · intro e he
        rw [hn]
        exact (h.net e he).mono (by omega) (le_refl a) (le_refl rc) fun _ _ hi => hi
    apply hnew.post
    intro x hx
    cases hx
    exact ⟨le_refl _, c.isn + l.sent, rfl, hp, by dsimp only; omega, by dsimp only; omega⟩
  · generalize l.snd.packData congestionWindow now = res at *
    obtain ⟨w, x⟩ := res
    dsimp only at hwire hcurr hsends ⊢
    subst hwire
    rw [if_pos hcurr]
    exact h.withSnd hsends h.le.1 h.came

theorem Carries.sendLightAck (h : Carries c l done todo f da la a rc got) :
    Carries c (l.post l.rcv.sendLightAck) done todo f da la a rc got := by
  apply h.post
  intro w hw
  obtain ⟨j, rfl, haj, hcame⟩ := h.receives.sendLightAck hw
  have hyoung := h.young
  exact ⟨le_refl _, j, rfl, hcame, by dsimp only; omega⟩

theorem Carries.sendAck (h : Carries c l done todo f da la a rc got) (recent : Bool) (now : Nat) :
    ∃ a', Carries c ({ l with rcv := (l.rcv.sendAck recent now).2 }.post
      (l.rcv.sendAck recent now).1) done todo f da la a' rc got := by
  have hyoung := h.young
  have hle := h.le
  obtain ⟨a', ha, hreceives, hw⟩ := h.receives.sendAck (by omega) recent now
  have hnew := h.withRcv hreceives ha (le_refl rc) h.le.2 fun _ hi => hi
  refine ⟨a', hnew.post ?_⟩
  intro w hsome
  obtain ⟨ackSeqNo, avail, rfl, havail⟩ := hw w hsome
  exact ⟨le_refl _, a', rfl, le_refl a', by dsimp only; omega, havail⟩

theorem Carries.deliverRcv {w : Wire} {m : Nat} (h : Carries c l done todo f da la a rc got)
    (hw : OnItsWay c (done ++ todo).flatten (c.isn + l.sent) a rc got (m, w))
    (hage : l.sent ≤ m + Link.lifetime) (now : Nat) :
    (l.deliverRcv w now).1 = .quiet ∧
      ∃ rc' got', Carries c (l.deliverRcv w now).2 done todo f da la a rc' got' := by
  have hyoung := h.young
  have hle := h.le
  have harc := h.receives.le
  obtain ⟨hm, hw⟩ := hw
  cases w with
  | data seqNo p =>
    obtain ⟨i, rfl, hp, hlt, hold⟩ := hw
    dsimp only at hm hold
    have hi : Recent c (c.isn + l.sent) i := ⟨by omega, by omega⟩
    obtain ⟨rc', got', hreceives, hrc, hrc', hgot, hwire⟩ :=
      h.receives.processData hyoung h.le.2 hi hlt hp
    have hnew := h.withRcv hreceives (le_refl a) hrc hrc' hgot
    refine ⟨rfl, rc', got', hnew.post ?_⟩
    intro x hx
    obtain ⟨g, rfl, hlo, hhi⟩ := hwire x hx
    have hisn := h.sends.le
    exact ⟨le_refl _, g, rfl, by omega, hhi, by dsimp only; omega⟩
  | ack2 ackSeqNo =>
    exact ⟨rfl, rc, got, h.withRcv (h.receives.processAck2 ackSeqNo now) (le_refl a) (le_refl rc)
      h.le.2 fun _ hi => hi⟩
  | drop msgno first last => exact hw.elim
  | ack ackSeqNo ack avail => exact ⟨rfl, rc, got, h⟩
  | lightAck ack => exact ⟨rfl, rc, got, h⟩
  | nak losslist => exact ⟨rfl, rc, got, h⟩

theorem Carries.deliverSnd {w : Wire} {m : Nat} (h : Carries c l done todo f da la a rc got)
    (hw : OnItsWay c (done ++ todo).flatten (c.isn + l.sent) a rc got (m, w))
    (hage : l.sent ≤ m + Link.lifetime) (reply : Bool) :
    (l.deliverSnd w reply).1 = .quiet ∧
      ∃ f' da' la', Carries c (l.deliverSnd w reply).2 done todo f' da' la' a rc got := by
  have hle := h.le
  have harc := h.receives.le
  obtain ⟨hm, hw⟩ := hw
  cases w with
  | ack ackSeqNo ack avail =>
    obtain ⟨j, rfl, hja, hold, havail⟩ := hw
    dsimp only at hm hold
    have hj : Recent c (c.isn + l.sent) j := ⟨by omega, by omega⟩
    obtain ⟨f', hsends⟩ := h.sends.processAck hj havail
    have hcame : CameIn a rc got (max j la) := by
      rcases le_total j la with hjla | hjla
      · rw [max_eq_right hjla]
        exact h.came
      · rw [max_eq_left hjla]
        exact ⟨by omega, by intro i hi hlt; omega⟩
    have hnew := h.withSnd hsends (by omega) hcame
    refine ⟨?_, f', _, _, hnew.post ?_⟩
    · simp only [Link.deliverSnd]
      rw [hsends.sound]
      rfl
    · intro x hx
      cases reply with
      | false => simp at hx
      | true =>
        obtain rfl : Wire.ack2 ackSeqNo = x := by simpa using hx
        exact ⟨le_refl _, trivial⟩
  | lightAck ack =>
    obtain ⟨j, rfl, hcame, hold⟩ := hw
    dsimp only at hm hold
    have hj : Recent c (c.isn + l.sent) j := ⟨by omega, by have := hcame.1; omega⟩
    have hcame' : CameIn a rc got (max j la) := by
      rcases le_total j la with hjla | hjla
      · rw [max_eq_right hjla]
        exact h.came
      · rw [max_eq_left hjla]
        exact hcame
    exact ⟨rfl, f, da, _, h.withSnd (h.sends.processLightAck hj) h.le.1 hcame'⟩
  | nak losslist =>
    obtain ⟨g, rfl, hisn, hhi, hold⟩ := hw
    have hg := g.le
    dsimp only at hm hold
    have hlo : Recent c (c.isn + l.sent) g.lo := ⟨by omega, by omega⟩
    obtain ⟨x, hx, hsends⟩ := h.sends.processNak hlo hisn hhi
    simp only [Link.deliverSnd, hx, hsends.sound, Bool.false_eq_true, if_false]
    exact ⟨trivial, f, da, la, h.withSnd hsends h.le.1 h.came⟩
  | data seqNo p => exact ⟨rfl, f, da, la, h⟩
  | ack2 ackSeqNo => exact ⟨rfl, f, da, la, h⟩
  | drop msgno first last => exact ⟨rfl, f, da, la, h⟩

theorem Carries.sendmsg (h : Carries c l done todo f da la a rc got) (data : List UInt8)
    (now : Nat) :
    (¬ 0 < (l.snd.sendmsg data (-1) true now).1 ∧
      (l.snd.sendmsg data (-1) true now).2 = l.snd) ∨
    ∃ ps, 0 < (l.snd.sendmsg data (-1) true now).1 ∧ bytes ps = data ∧
      Carries c { l with snd := (l.snd.sendmsg data (-1) true now).2 } done (todo ++ [ps])
        f da la a rc got := by
  rcases h.sends.sendmsg data now with hnot | ⟨ps, hmsg, hrel, hbytes, hpos, hsends⟩
  · exact .inl hnot
  · refine .inr ⟨ps, hpos, hbytes, ?_⟩
    have hflatten : (done ++ (todo ++ [ps])).flatten = (done ++ todo).flatten ++ ps := by simp
    constructor
    · intro qs hqs
      rw [← List.append_assoc, List.mem_append, List.mem_singleton] at hqs
      rcases hqs with hqs | rfl
      · exact h.msgs qs hqs
      · exact ⟨hmsg, hrel⟩
    · rwa [hflatten]
    · have hreceives := h.receives
      rw [hflatten]
      exact { hreceives with
        packets := fun i p hp => packetAt_append (hreceives.packets i p hp) ps }
    · exact h.le
    · exact h.came
    · intro e he
      rw [hflatten]
      exact (h.net e he).append ps

/-- The next message can be read when it is acknowledged. -/
theorem Carries.recvmsg_next {ps : List Packet} (h : Carries c l done (ps :: todo) f da la a rc got)
    (hle : c.isn + done.flatten.length + ps.length ≤ a) {len : Nat} (hlen : 0 < len) :
    0 < (l.rcv.recvmsg len).1 ∧ (l.rcv.recvmsg len).2.1 = (bytes ps).take len ∧
      ∃ got', Carries c { l with rcv := (l.rcv.recvmsg len).2.2 } (done ++ [ps]) todo
        f da la a rc got' := by
  obtain ⟨hmsg, hrel⟩ := h.msgs ps (by simp)
  have hps : ps <+: (done ++ ps :: todo).flatten.drop done.flatten.length := by
    rw [List.flatten_append, List.drop_left, List.flatten_cons]
    exact List.prefix_append ps _
  obtain ⟨hpos, hdata, hreceives⟩ := h.receives.recvmsg_next rfl hps hmsg hle hlen
    (bytes_ne_nil hmsg hrel)
  have hall : done ++ [ps] ++ todo = done ++ ps :: todo := by simp
  have hlength : c.isn + (done ++ [ps]).flatten.length =
      c.isn + done.flatten.length + ps.length := by
    simp
    omega
  have hgot : ∀ i, a ≤ i → got i ≠ none →
      since (c.isn + done.flatten.length + ps.length) got i ≠ none := by
    intro i hi hne
    rwa [since_of_le (by omega)]
  refine ⟨hpos, hdata, since (c.isn + done.flatten.length + ps.length) got, ?_⟩
  constructor
  · rw [hall]
    exact h.msgs
  · rw [hall]
    exact h.sends
  · rw [hall, hlength]
    exact hreceives
  · exact h.le
  · exact h.came.mono (le_refl a) (le_refl rc) hgot
  · intro e he
    rw [hall]
    exact (h.net e he).mono (le_refl _) (le_refl a) (le_refl rc) hgot

theorem Carries.recvmsg_none (h : Carries c l done todo f da la a rc got)
    (hnot : ∀ ps, todo.head? = some ps → a < c.isn + done.flatten.length + ps.length) (len : Nat) :
    ¬ 0 < (l.rcv.recvmsg len).1 ∧ (l.rcv.recvmsg len).2.2 = l.rcv := by
  cases todo with
  | nil =>
    obtain ⟨_, hwindow⟩ := h.receives.window
    have hsends := h.sends.le
    have hle := h.le
    have harc := h.receives.le
    have hsa := hwindow.le
    rw [List.append_nil] at hsends
    exact h.receives.recvmsg_none [] rfl h.reliable (.inl (by omega)) len
  | cons ps todo =>
    have hps : ps <+: (done ++ ps :: todo).flatten.drop done.flatten.length := by
      rw [List.flatten_append, List.drop_left, List.flatten_cons]
      exact List.prefix_append ps _
    exact h.receives.recvmsg_none ps rfl h.reliable
      (.inr ⟨hps, (h.msgs ps (by simp)).1, hnot ps rfl⟩) len

theorem Link.Holds.react {ms : List (List UInt8)} (h : Link.Holds c l ms) (act : Link.Action)
    (hfresh : l.Fresh act) : ∃ ms', Pipe ms (l.react act).1 ms' ∧ Link.Holds c (l.react act).2 ms' := by
  obtain ⟨done, todo, f, da, la, a, rc, got, h, rfl⟩ := h
  cases act with
  | sendmsg data now =>
    rcases h.sendmsg data now with ⟨hnot, hsame⟩ | ⟨ps, hpos, rfl, hnew⟩
    · simp only [Link.react, if_neg hnot, hsame]
      exact ⟨_, .quiet _, done, todo, f, da, la, a, rc, got, h, rfl⟩
    · simp only [Link.react, if_pos hpos]
      exact ⟨_, .sent _ _, done, todo ++ [ps], f, da, la, a, rc, got, hnew, by simp⟩
  | packData congestionWindow now =>
    exact ⟨_, .quiet _, done, todo, f, da, la, a, rc, got, h.packData congestionWindow now, rfl⟩
  | expire =>
    exact ⟨_, .quiet _, done, todo, f, da, la, a, rc, got,
      h.withSnd h.sends.expire h.le.1 h.came, rfl⟩
  | sendLightAck =>
    exact ⟨_, .quiet _, done, todo, f, da, la, a, rc, got, h.sendLightAck, rfl⟩
  | sendAck recent now =>
    obtain ⟨a', hnew⟩ := h.sendAck recent now
    exact ⟨_, .quiet _, done, todo, f, da, la, a', rc, got, hnew, rfl⟩
  | recvmsg len =>
    by_cases hnext : ∃ ps todo', todo = ps :: todo' ∧
        c.isn + done.flatten.length + ps.length ≤ a ∧ 0 < len
    · obtain ⟨ps, todo', rfl, hle, hlen⟩ := hnext
      obtain ⟨hpos, hdata, got', hnew⟩ := h.recvmsg_next hle hlen
      simp only [Link.react, if_pos hpos, hdata]
      exact ⟨_, .received _ _ _, done ++ [ps], todo', f, da, la, a, rc, got', hnew, rfl⟩
    · obtain ⟨hnot, hsame⟩ : ¬ 0 < (l.rcv.recvmsg len).1 ∧ (l.rcv.recvmsg len).2.2 = l.rcv := by
        by_cases hlen : len = 0
        · simp [Receiver.recvmsg, hlen]
        · apply h.recvmsg_none
          intro ps hps
          obtain ⟨todo', rfl⟩ := List.head?_eq_some_iff.mp hps
          by_contra hle
          exact hnext ⟨ps, todo', rfl, by omega, by omega⟩
      simp only [Link.react, if_neg hnot, hsame]
      exact ⟨_, .quiet _, done, todo, f, da, la, a, rc, got, h, rfl⟩
  | deliver i reply now =>
    simp only [Link.Fresh] at hfresh
    simp only [Link.react]
    cases hi : l.net[i]? with
    | none => exact ⟨_, .quiet _, done, todo, f, da, la, a, rc, got, h, rfl⟩
    | some e =>
      obtain ⟨m, w⟩ := e
      rw [hi] at hfresh
      have hw := h.net _ (List.mem_of_getElem? hi)
      obtain ⟨hquiet, rc', got', hrcv⟩ := h.deliverRcv hw hfresh now
      obtain ⟨hquiet', f', da', la', hsnd⟩ := h.deliverSnd hw hfresh reply
      cases w <;> simp only [Link.deliver, hquiet, hquiet']
      · exact ⟨_, .quiet _, done, todo, f, da, la, a, rc', got', hrcv, rfl⟩
      · exact ⟨_, .quiet _, done, todo, f', da', la', a, rc, got, hsnd, rfl⟩
      · exact ⟨_, .quiet _, done, todo, f', da', la', a, rc, got, hsnd, rfl⟩
      · exact ⟨_, .quiet _, done, todo, f, da, la, a, rc', got', hrcv, rfl⟩
      · exact ⟨_, .quiet _, done, todo, f', da', la', a, rc, got, hsnd, rfl⟩
      · exact ⟨_, .quiet _, done, todo, f, da, la, a, rc', got', hrcv, rfl⟩

theorem Link.Holds.deliver {ms : List (List UInt8)} {m : Nat} {w : Wire} (h : Link.Holds c l ms)
    (hw : (m, w) ∈ l.net) (hage : l.sent ≤ m + Link.lifetime) (reply : Bool) (now : Nat) :
    ∃ ms', Pipe ms (l.deliver w reply now).1 ms' ∧ Link.Holds c (l.deliver w reply now).2 ms' := by
  obtain ⟨i, hi⟩ := List.mem_iff_getElem?.mp hw
  have hreact := h.react (.deliver i reply now) (by simpa only [Link.Fresh, hi] using hage)
  simpa only [Link.react, hi] using hreact

theorem Link.holds_new (c : Terms) : Link.Holds c (.new c) [] :=
  ⟨[], [], _, _, _, _, _, _, carries_new c, rfl⟩

theorem Link.Holds.run {events : List Link.Event} (h : Runs Link.react Link.Fresh (.new c) events l) :
    ∃ ms, Traces Pipe [] events ms ∧ Link.Holds c l ms := by
  apply h.simulates (Link.Holds c) (Link.holds_new c)
  exact fun hholds hfresh => hholds.react _ hfresh

/-- Whatever the network loses, repeats and delays, messages come out once, whole and
in the order they went in, no check takes a packet for an attack, and no access is
undefined. -/
theorem link_is_a_pipe {events : List Link.Event}
    (h : Runs Link.react Link.Fresh (.new c) events l) : ∃ ms, Traces Pipe [] events ms := by
  obtain ⟨ms, htrace, -⟩ := Link.Holds.run h
  exact ⟨ms, htrace⟩

def smallTerms : Terms where
  isn := 2147483647
  payloadSize := 4
  sndBufSize := 64
  window := 32
  rcvBufSize := 32
  flightFlagSize := 32
  isn_nonneg := by decide
  isn_le := by decide
  payload_pos := by decide
  rcv_min := by decide
  rcv_le := by decide
  window_le := by decide
  flight_lt := by decide

def resend : List Link.Action :=
  [.sendmsg [1, 2, 3, 4, 5] 0, .packData 16 0, .packData 16 0, .deliver 1 false 1, .recvmsg 9,
    .deliver 2 false 1, .packData 16 1, .deliver 3 false 2, .sendAck false 3, .deliver 4 true 3,
    .deliver 1 false 4, .deliver 5 false 4]

theorem link_is_a_pipe_two : ∃ ms, Traces Pipe []
    [.sent [1, 2, 3, 4, 5], .quiet, .quiet, .quiet, .quiet, .quiet, .quiet, .quiet, .quiet, .quiet,
      .quiet, .quiet, .received 9 [1, 2, 3, 4, 5]] ms :=
  link_is_a_pipe (c := smallTerms) (runs_of_reactions (resend ++ [.recvmsg 9]) (by decide +kernel)
    (Prod.ext (by decide +kernel) rfl))

theorem Carries.read_all {lens : List Nat} (h : Carries c l done todo f da la a rc got)
    (hempty : l.snd.sndBuffer.getCurrBufSize = 0) (hlength : lens.length = todo.length)
    (hpos : ∀ len ∈ lens, 0 < len) :
    (reactions Link.react l (lens.map .recvmsg)).1 =
      List.zipWith (fun len m => .received len (m.take len)) lens (todo.map bytes) := by
  induction todo generalizing l done lens got with
  | nil =>
    obtain rfl : lens = [] := by simpa using hlength
    rfl
  | cons ps todo ih =>
    obtain ⟨len, lens, rfl⟩ := List.exists_cons_of_length_eq_add_one hlength
    have hflushed := h.sends.flushed hempty
    have hle : c.isn + done.flatten.length + ps.length ≤ a := by
      have hda := h.le
      rw [List.flatten_append, List.flatten_cons, List.length_append, List.length_append] at hflushed
      omega
    obtain ⟨hlast, hdata, got', hnew⟩ := h.recvmsg_next hle (hpos len List.mem_cons_self)
    have hlength' : lens.length = todo.length := by simpa using hlength
    have hrest := ih hnew hempty hlength' fun n hn => hpos n (List.mem_cons_of_mem len hn)
    simp only [List.map_cons, reactions, Link.react, if_pos hlast, hdata, List.zipWith_cons_cons]
    rw [hrest]

/-- When the sender's buffer is empty, the messages that were not read yet can be, all
of them, without another packet. -/
theorem flushed_is_readable {events : List Link.Event}
    (h : Runs Link.react Link.Fresh (.new c) events l)
    (hempty : l.snd.sndBuffer.getCurrBufSize = 0) :
    ∃ ms, Traces Pipe [] events ms ∧ ∀ lens : List Nat, lens.length = ms.length →
      (∀ len ∈ lens, 0 < len) → (reactions Link.react l (lens.map .recvmsg)).1 =
        List.zipWith (fun len m => .received len (m.take len)) lens ms := by
  obtain ⟨ms, htrace, done, todo, f, da, la, a, rc, got, hcarries, rfl⟩ := Link.Holds.run h
  refine ⟨_, htrace, ?_⟩
  intro lens hlength hpos
  exact hcarries.read_all hempty (by simpa using hlength) hpos

theorem flushed_is_readable_two : ∃ ms, Traces Pipe []
    (reactions Link.react (.new smallTerms) resend).1 ms ∧ ∀ lens : List Nat,
      lens.length = ms.length → (∀ len ∈ lens, 0 < len) →
        (reactions Link.react (reactions Link.react (.new smallTerms) resend).2
          (lens.map .recvmsg)).1 =
          List.zipWith (fun len m => .received len (m.take len)) lens ms :=
  flushed_is_readable (runs_of_reactions resend (by decide +kernel) rfl) (by decide +kernel)

end NineWire.Udt
