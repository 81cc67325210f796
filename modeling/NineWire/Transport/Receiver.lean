import NineWire.Transport.Delivery

/-! One `SecureTransport::recv` after the other at the queue of the UDT
connection. A call tries the socket, makes a waiter, tries once more, and waits
until an event of the socket has come since. A message is handed over in a pooled
buffer, where bytes of earlier datagrams lie behind those of the last one. -/
namespace NineWire.Transport
open NineWire.Transition
open NineWire.Wire (Bytes)

/-- A message queued in the UDT connection. UDT counts its bytes in an `int`. -/
structure Message where
  bytes : Bytes
  length_lt : bytes.length < 2^31
  deriving DecidableEq

def i32Max : Nat := 2^31 - 1

/-- `tmp`: a buffer of the pool or a new one, grown with zeros. -/
def prepare (pooled : Option Bytes) (size : Nat) : Bytes :=
  let tmp := pooled.getD []
  let tgt := size + 8 + 16
  if tmp.length < tgt then tmp ++ List.replicate (tgt - tmp.length) 0 else tmp

def Message.handed (d : Message) (len : Nat) : Bytes := d.bytes.take (min len i32Max)

/-- `recvmsg` writes over the front of the buffer. -/
def overlay (tmp : Bytes) (d : Message) : Bytes :=
  d.handed tmp.length ++ tmp.drop (d.handed tmp.length).length

inductive Verdict where
  | duplicate
  | undecryptable
  | panics
  | returns (nonce : UInt64) (payload : Bytes)
  deriving DecidableEq

/-- From the nonce to the end of the loop body. The nonce is read from the
buffer, whatever `n` is. -/
def examine (crypto : Crypto) (size : Nat) (accepted : Finset UInt64) (tmp : Bytes) (n : Nat) :
    Verdict :=
  let nonce := nonceOf tmp
  if nonce ∈ accepted then .duplicate
  -- `&tmp[8..n]`
  else if n < 8 then .panics
  else
    match readInto crypto size nonce (messageOf (tmp.take n)) with
    | some payload => .returns nonce payload
    | none => .undecryptable

inductive Phase where
  | idle
  | trying (size : Nat) (tmp : Bytes)
  | registering (size : Nat) (tmp : Bytes)
  | retrying (size : Nat) (tmp : Bytes)
  | awaiting (size : Nat) (tmp : Bytes)
  | received (size : Nat) (tmp : Bytes) (n : Nat)
  | panicked

/-- A message taken out of the queue, what was handed over of it, and the length
of the buffer its `recv` was called with. -/
structure Dequeued where
  size : Nat
  message : Message
  incoming : Bytes

/-- `due` counts the calls of `update_events` that are still to come, and
`signalled` says whether one came since the waiter was made. No function reads
what has arrived, what was dequeued and what was returned. -/
structure Receiver where
  accepted : Finset UInt64
  queue : List Message
  phase : Phase
  due : Nat
  signalled : Bool
  arrived : List Message
  dequeued : List Dequeued
  returned : List Bytes

def Receiver.start : Receiver where
  accepted := ∅
  queue := []
  phase := .idle
  due := 0
  signalled := false
  arrived := []
  dequeued := []
  returned := []

/-- The state of the UDT socket: one that is broken still hands over what it
has, one that is closed does not, and one that is removed makes no waiters. -/
inductive Link where
  | connected
  | broken
  | closed
  | removed
  deriving DecidableEq

inductive RecvAction where
  /-- `ackData` makes messages readable, be it none. -/
  | arrive (ds : List Message)
  | event
  | recv (size : Nat) (pooled : Option Bytes)
  | tryRecv (link : Link)
  | register (link : Link)
  | examine
  | wake
  | drop

/-- `recvmsg` finds nothing: an error if the connection is gone, else would
block, and then the call goes on to `next`. -/
def Receiver.wouldBlock (s : Receiver) (link : Link) (next : Phase) : Receiver :=
  if link = .broken then { s with phase := .idle } else { s with phase := next }

/-- `try_recv`. An empty message is taken out of the queue, and reported as if
there were none. -/
def Receiver.tryRecv (s : Receiver) (link : Link) (size : Nat) (tmp : Bytes) (next : Phase) :
    Receiver :=
  if link = .closed ∨ link = .removed then { s with phase := .idle }
  else
    match s.queue with
    | [] => s.wouldBlock link next
    | d :: rest =>
      let incoming := d.handed tmp.length
      let s : Receiver :=
        { s with queue := rest, dequeued := s.dequeued ++ [⟨size, d, incoming⟩] }
      if incoming.length = 0 then s.wouldBlock link next
      else { s with phase := .received size (overlay tmp d) incoming.length }

section Receiver
variable (crypto : Crypto)

def Receiver.examine (s : Receiver) (size : Nat) (tmp : Bytes) (n : Nat) : Receiver :=
  match Transport.examine crypto size s.accepted tmp n with
  | .duplicate | .undecryptable => { s with phase := .trying size tmp }
  | .panics => { s with phase := .panicked }
  | .returns nonce payload =>
    { s with
      phase := .idle
      accepted := insert nonce s.accepted
      returned := s.returned ++ [payload] }

/-- A panic does not poison the lock, so that `recv` can be called again. A
future is dropped where it waits. -/
def Receiver.step (s : Receiver) : RecvAction → Option Receiver
  | .arrive ds =>
    some { s with queue := s.queue ++ ds, arrived := s.arrived ++ ds, due := s.due + 1 }
  | .event => if s.due = 0 then none else some { s with due := s.due - 1, signalled := true }
  | .recv size pooled =>
    match s.phase with
    | .idle | .panicked => some { s with phase := .trying size (prepare pooled size) }
    | _ => none
  | .tryRecv link =>
    match s.phase with
    | .trying size tmp => some (s.tryRecv link size tmp (.registering size tmp))
    | .retrying size tmp => some (s.tryRecv link size tmp (.awaiting size tmp))
    | _ => none
  | .register link =>
    match s.phase with
    | .registering size tmp =>
      -- `rpoll.readable(self.inner).unwrap()`
      if link = .removed then some { s with phase := .panicked }
      else some { s with phase := .retrying size tmp, signalled := false }
    | _ => none
  | .examine =>
    match s.phase with
    | .received size tmp n => some (s.examine crypto size tmp n)
    | _ => none
  | .wake =>
    match s.phase with
    | .awaiting size tmp =>
      if s.signalled then some { s with phase := .trying size tmp, signalled := false } else none
    | _ => none
  | .drop =>
    match s.phase with
    | .awaiting _ _ => some { s with phase := .idle }
    | _ => none

inductive Phase.Tries (size : Nat) (tmp : Bytes) : Phase → Phase → Prop
  | first : Tries size tmp (.trying size tmp) (.registering size tmp)
  | second : Tries size tmp (.retrying size tmp) (.awaiting size tmp)

def Blocked (link : Link) (next phase : Phase) : Prop :=
  phase = next ∨ link ≠ .connected ∧ phase = .idle

inductive Receiver.Stepped (s : Receiver) : RecvAction → Receiver → Prop
  | arrive {ds} : s.Stepped (.arrive ds)
      { s with queue := s.queue ++ ds, arrived := s.arrived ++ ds, due := s.due + 1 }
  | event (hdue : s.due ≠ 0) : s.Stepped .event { s with due := s.due - 1, signalled := true }
  | recv {size pooled} (hphase : s.phase = .idle ∨ s.phase = .panicked) :
      s.Stepped (.recv size pooled) { s with phase := .trying size (prepare pooled size) }
  | blocked {link size tmp next phase} (htries : Phase.Tries size tmp s.phase next)
      (hqueue : s.queue = [] ∨ link ≠ .connected) (hblocked : Blocked link next phase) :
      s.Stepped (.tryRecv link) { s with phase }
  | empty {link size tmp next phase d rest} (htries : Phase.Tries size tmp s.phase next)
      (hqueue : s.queue = d :: rest) (hempty : (d.handed tmp.length).length = 0)
      (hblocked : Blocked link next phase) :
      s.Stepped (.tryRecv link)
        { s with
          queue := rest
          dequeued := s.dequeued ++ [⟨size, d, d.handed tmp.length⟩]
          phase }
  | received {link size tmp next d rest} (htries : Phase.Tries size tmp s.phase next)
      (hqueue : s.queue = d :: rest) (hsome : (d.handed tmp.length).length ≠ 0) :
      s.Stepped (.tryRecv link)
        { s with
          queue := rest
          dequeued := s.dequeued ++ [⟨size, d, d.handed tmp.length⟩]
          phase := .received size (overlay tmp d) (d.handed tmp.length).length }
  | register {link size tmp} (hphase : s.phase = .registering size tmp) :
      s.Stepped (.register link) { s with phase := .retrying size tmp, signalled := false }
  | unregistered {size tmp} (hphase : s.phase = .registering size tmp) :
      s.Stepped (.register .removed) { s with phase := .panicked }
  | examine {size tmp n} (hphase : s.phase = .received size tmp n) :
      s.Stepped .examine (s.examine crypto size tmp n)
  | wake {size tmp} (hphase : s.phase = .awaiting size tmp) (hsignalled : s.signalled) :
      s.Stepped .wake { s with phase := .trying size tmp, signalled := false }
  | drop {size tmp} (hphase : s.phase = .awaiting size tmp) :
      s.Stepped .drop { s with phase := .idle }

variable {crypto} {s s' : Receiver} {a : RecvAction}

theorem wouldBlock_cases (s : Receiver) (link : Link) (next : Phase) :
    ∃ phase, Blocked link next phase ∧ s.wouldBlock link next = { s with phase } := by
  unfold Receiver.wouldBlock
  by_cases hbroken : link = .broken
  · exact ⟨.idle, .inr ⟨by simp [hbroken], rfl⟩, by rw [if_pos hbroken]⟩
  · exact ⟨next, .inl rfl, by rw [if_neg hbroken]⟩

theorem tryRecv_cases {link : Link} {size : Nat} {tmp : Bytes} {next : Phase}
    (htries : Phase.Tries size tmp s.phase next) :
    s.Stepped crypto (.tryRecv link) (s.tryRecv link size tmp next) := by
  unfold Receiver.tryRecv
  by_cases hgone : link = .closed ∨ link = .removed
  · rw [if_pos hgone]
    have hlink : link ≠ .connected := by rintro rfl; simp at hgone
    exact .blocked htries (.inr hlink) (.inr ⟨hlink, rfl⟩)
  · rw [if_neg hgone]
    split
    · rename_i hqueue
      obtain ⟨phase, hblocked, heq⟩ := wouldBlock_cases s link next
      rw [heq]
      exact .blocked htries (.inl hqueue) hblocked
    · rename_i d rest hqueue
      by_cases hempty : (d.handed tmp.length).length = 0
      · simp only [if_pos hempty]
        obtain ⟨phase, hblocked, heq⟩ := wouldBlock_cases
          { s with queue := rest, dequeued := s.dequeued ++ [⟨size, d, d.handed tmp.length⟩] }
          link next
        rw [heq]
        exact .empty htries hqueue hempty hblocked
      · simp only [if_neg hempty]
        exact .received htries hqueue hempty

theorem receiver_cases (h : s.step crypto a = some s') : s.Stepped crypto a s' := by
  cases a with
  | arrive ds =>
    cases h
    exact .arrive
  | event =>
    simp only [Receiver.step] at h
    split at h
    · cases h
    · rename_i hdue
      cases h
      exact .event hdue
  | recv size pooled =>
    cases hphase : s.phase <;> simp only [Receiver.step, hphase] at h <;> cases h
    · exact .recv (.inl hphase)
    · exact .recv (.inr hphase)
  | tryRecv link =>
    cases hphase : s.phase <;> simp only [Receiver.step, hphase] at h <;> cases h
    · exact tryRecv_cases (hphase ▸ .first)
    · exact tryRecv_cases (hphase ▸ .second)
  | register link =>
    cases hphase : s.phase <;> simp only [Receiver.step, hphase] at h
    case registering size tmp =>
      split at h
      · rename_i hremoved
        subst hremoved
        cases h
        exact .unregistered hphase
      · cases h
        exact .register hphase
    all_goals cases h
  | examine =>
    cases hphase : s.phase <;> simp only [Receiver.step, hphase] at h <;> cases h
    exact .examine hphase
  | wake =>
    cases hphase : s.phase <;> simp only [Receiver.step, hphase] at h
    case awaiting size tmp =>
      split at h
      · rename_i hsignalled
        cases h
        exact .wake hphase hsignalled
      · cases h
    all_goals cases h
  | drop =>
    cases hphase : s.phase <;> simp only [Receiver.step, hphase] at h <;> cases h
    exact .drop hphase

end Receiver

section Buffer
variable {crypto : Crypto} {size : Nat} {accepted : Finset UInt64} {tmp : Bytes} {d : Message}

theorem prepare_length (pooled : Option Bytes) (size : Nat) :
    size + 24 ≤ (prepare pooled size).length := by
  unfold prepare
  by_cases hlen : (pooled.getD []).length < size + 8 + 16
  · simp only [if_pos hlen, List.length_append, List.length_replicate]
    omega
  · simp only [if_neg hlen]
    omega

theorem handed_length (d : Message) (len : Nat) :
    (d.handed len).length = min (min len i32Max) d.bytes.length := by
  rw [Message.handed, List.length_take]

theorem handed_le (d : Message) (len : Nat) : (d.handed len).length ≤ len := by
  rw [handed_length]
  omega

theorem handed_whole {len : Nat} (h : d.bytes.length ≤ len) : d.handed len = d.bytes := by
  have hlt := d.length_lt
  rw [Message.handed, List.take_of_length_le]
  rw [i32Max]
  omega

@[simp] theorem overlay_length (tmp : Bytes) (d : Message) : (overlay tmp d).length = tmp.length := by
  have hle := handed_le d tmp.length
  rw [overlay, List.length_append, List.length_drop]
  omega

theorem take_overlay (tmp : Bytes) (d : Message) :
    (overlay tmp d).take (d.handed tmp.length).length = d.handed tmp.length := by
  rw [overlay, List.take_left]

/-- A whole header lies over the older bytes. -/
theorem nonceOf_overlay (h : 8 ≤ (d.handed tmp.length).length) :
    nonceOf (overlay tmp d) = nonceOf (d.handed tmp.length) := by
  rw [nonceOf, nonceOf, overlay, List.take_append_of_le_length h]

theorem examine_overlay (h : 8 ≤ (d.handed tmp.length).length) :
    examine crypto size accepted (overlay tmp d) (d.handed tmp.length).length =
      if nonceOf (d.handed tmp.length) ∈ accepted then .duplicate
      else
        match readInto crypto size (nonceOf (d.handed tmp.length))
          (messageOf (d.handed tmp.length)) with
        | some payload => .returns (nonceOf (d.handed tmp.length)) payload
        | none => .undecryptable := by
  simp only [examine, take_overlay, nonceOf_overlay h, if_neg (Nat.not_lt.mpr h)]

theorem examine_short (hshort : (d.handed tmp.length).length < 8) :
    examine crypto size accepted (overlay tmp d) (d.handed tmp.length).length =
      if nonceOf (overlay tmp d) ∈ accepted then .duplicate else .panics := by
  simp only [examine, if_pos hshort]

end Buffer

section Genuine
variable (crypto : Crypto) (size : Nat)

/-- A datagram as the peer's `send_with` makes it, with a payload that fits the
caller's buffer. -/
structure Genuine (d : Message) (nonce : UInt64) (payload : Bytes) : Prop where
  made : ∃ message, crypto.writeMessage nonce payload = some message ∧
    d.bytes = datagram nonce message
  fits : payload.length ≤ size

variable {crypto size} {d : Message} {nonce : UInt64} {payload : Bytes}

/-- A genuine datagram is handed over whole. -/
theorem Genuine.handed_eq (h : Genuine crypto size d nonce payload) {len : Nat}
    (hlen : size + 24 ≤ len) : d.handed len = d.bytes := by
  obtain ⟨⟨message, hwrite, hbytes⟩, hfits⟩ := h
  have hlength : d.bytes.length = payload.length + 24 := by
    rw [hbytes, datagram, List.length_append, toBeBytes_length, crypto.overhead _ _ _ hwrite]
    omega
  exact handed_whole (by omega)

theorem Genuine.read (h : Genuine crypto size d nonce payload) :
    8 ≤ d.bytes.length ∧ nonceOf d.bytes = nonce ∧
      readInto crypto size nonce (messageOf d.bytes) = some payload := by
  obtain ⟨⟨message, hwrite, hbytes⟩, hfits⟩ := h
  refine ⟨?_, ?_, ?_⟩
  · rw [hbytes, datagram, List.length_append, toBeBytes_length]
    omega
  · rw [hbytes, nonceOf_datagram]
  · rw [hbytes, messageOf_datagram, readInto, crypto.opens _ _ _ hwrite]
    simpa using hfits

end Genuine

def second : Message := ⟨datagram 1 (7 :: List.replicate 16 1), by decide⟩

theorem second_genuine : Genuine checked 4 second 1 [7] := ⟨⟨_, rfl, rfl⟩, by decide⟩

end NineWire.Transport
