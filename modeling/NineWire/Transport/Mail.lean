import NineWire.Transport.Delivery
import NineWire.Udt.Rendezvous

/-! Two `SecureTransport`s over one UDT connection, whose network may lose packets,
repeat and delay them. What they are for is mail: every payload is taken out once, in
the order they went in, and opened by the one who took it. -/
namespace NineWire.Transport.Mail
open NineWire.Udt.Rendezvous (Peer Pair)
open NineWire.Wire (Bytes)

/-- `channel x` is about the payloads of `x`: its sends, and the receives of the other
end. -/
structure Stack where
  pair : Pair
  channel : Peer → Channel

def Stack.start (pair : Pair) : Stack where
  pair
  channel _ := .start

inductive Action
  /-- What the connection does, but for `sendmsg` and `recvmsg`. -/
  | udt (a : Udt.Rendezvous.Action)
  /-- What `send_with` and `recv` do, but for their calls of the connection. -/
  | channel (x : Peer) (a : Transport.Action)
  /-- A `send_with` tries to hand over its datagram. -/
  | send (x : Peer) (j : Nat) (now : Nat)
  /-- A `recv` tries to get one into its `tmp`, which is `len` bytes long. -/
  | receive (x : Peer) (i : Nat) (len : Nat)

inductive Event
  | quiet
  | udt (e : Udt.Rendezvous.Event)
  | accepted (x : Peer) (payload : Bytes)
  /-- `recv` number `i` has a datagram, and a buffer for `size` bytes. -/
  | took (x : Peer) (i size : Nat)
  | returned (x : Peer) (i : Nat) (payload : Bytes)
  /-- The slice behind the nonce ends before it starts. -/
  | panicked

def told (x : Peer) (c : Channel) : Transport.Action → Event
  | .decrypt i =>
    match c.recvs[i]?.map Recv.stage with
    | some (.returned _ payload) => .returned x i payload
    | _ => .quiet
  | _ => .quiet

section Stack
variable (crypto : Peer → Crypto)

def Stack.setChannel (s : Stack) (x : Peer) (c : Channel) : Stack :=
  { s with channel := Function.update s.channel x c }

def Stack.send (s : Stack) (x : Peer) (j : Nat) (now : Nat) : Event × Stack :=
  match (s.channel x).sends[j]? with
  | some send =>
    match send.stage, send.message with
    | .sending, some message =>
      match s.pair.react (.sendmsg x (datagram send.nonce message) now) with
      | (.flow _ (.sent _), pair) =>
        (.accepted x send.buf,
          { s with pair }.setChannel x { s.channel x with
            sends := (s.channel x).sends.set j
              { send with stage := .returned send.buf.length } })
      | (e, pair) => (.udt e, { s with pair })
    | _, _ => (.quiet, s)
  | none => (.quiet, s)

def Stack.receive (s : Stack) (x : Peer) (i len : Nat) : Event × Stack :=
  match (s.channel x).recvs[i]? with
  | some recv =>
    if recv.stage = .waiting then
      match s.pair.react (.recvmsg x.other len) with
      | (.flow _ (.received _ data), pair) =>
        if data.length < 8 then (.panicked, s)
        else
          (.took x i recv.size,
            { s with pair }.setChannel x { s.channel x with
              recvs := (s.channel x).recvs.set i { recv with stage := .holding data } })
      | (e, pair) => (.udt e, { s with pair })
    else (.quiet, s)
  | none => (.quiet, s)

def Stack.react (s : Stack) : Action → Event × Stack
  | .udt a => (.udt (s.pair.react a).1, { s with pair := (s.pair.react a).2 })
  | .channel x a =>
    match (s.channel x).step (crypto x) a with
    | some c => (told x c a, s.setChannel x c)
    | none => (.quiet, s)
  | .send x j now => s.send x j now
  | .receive x i len => s.receive x i len

/-- `tmp` has room for the buffer's worth of a datagram at least, and the counter of
nonces does not come round. -/
def Stack.Allowed (s : Stack) : Action → Prop
  | .udt a =>
    match a with
    | .sendmsg .. | .recvmsg .. => False
    | a => s.pair.Fresh a
  | .channel x a =>
    match a with
    | .send _ .sent | .receive .. => False
    | .sendWith _ => (s.channel x).sends.length + 1 < 2^64
    | a => Authentic (crypto x) (s.channel x) a
  | .send .. => True
  | .receive x i len => ∀ recv, (s.channel x).recvs[i]? = some recv → recv.size + 24 ≤ len

end Stack

structure Post where
  queue : List Bytes
  hand : Nat → Option (Nat × Bytes)

def Post.empty : Post where
  queue := []
  hand _ := none

/-- A payload that was taken is returned, but where it is too long for the buffer. -/
inductive Mailed (m : Peer → Post) : Event → (Peer → Post) → Prop
  | quiet : Mailed m .quiet m
  | udt (x : Peer) : Mailed m (.udt (.flow x .quiet)) m
  | accepted (x : Peer) (payload : Bytes) :
    Mailed m (.accepted x payload)
      (Function.update m x { m x with queue := (m x).queue ++ [payload] })
  | took (x : Peer) (i size : Nat) {payload : Bytes} {queue : List Bytes}
    (hqueue : (m x).queue = payload :: queue) (hhand : (m x).hand i = none) :
    Mailed m (.took x i size) (Function.update m x
      ⟨queue, Function.update (m x).hand i (some (size, payload))⟩)
  | returned (x : Peer) (i size : Nat) {payload : Bytes}
    (hhand : (m x).hand i = some (size, payload)) (hsize : payload.length ≤ size) :
    Mailed m (.returned x i payload) (Function.update m x
      { m x with hand := Function.update (m x).hand i none })
  | discarded (x : Peer) (i size : Nat) {payload : Bytes}
    (hhand : (m x).hand i = some (size, payload)) (hsize : size < payload.length) :
    Mailed m .quiet (Function.update m x
      { m x with hand := Function.update (m x).hand i none })

end NineWire.Transport.Mail
