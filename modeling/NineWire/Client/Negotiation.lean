import NineWire.Client.Filesystem
import NineWire.Wire.De
import NineWire.Wire.RequestLength

/-! The size a session agrees on, and which requests keep to it. The client
takes whatever size the server offers and bounds only what it writes. -/
namespace NineWire.Client
open NineWire.Wire

/-- `Filesystem::new` on the first reply: the `maxlen` of the session, or why
there is none. -/
def negotiated (reply : Bytes) : Except ByteString Nat :=
  match deserializeR reply with
  | .error e => .error e.toString
  | .ok (_, .rversion ver) =>
    if ver.version ≠ "9P2000" then .error "protocol not supported" else .ok ver.msize.toNat
  | .ok _ => .error "invalid version response"

/-- The bytes of the `Rerror` that takes the place of a request whose fields
do not fit their counts. -/
def serializeErrorLen : Nat := (RMessage.rerror ⟨SerializeError.mk.toString⟩).len

/-- When a request keeps to the session: a write can be cut to size, as long as
its fixed part fits; anything else is sent as long as it is. -/
def FitsSession (msize : Nat) : TMessage → Prop
  | .twrite m => twriteOverhead ≤ msize ∧
      (msize ≤ maxMessageSize ∨ twriteOverhead + m.data.length ≤ maxMessageSize)
  | m => (if m.Encodable then m.len else serializeErrorLen) ≤ min msize maxMessageSize

section Requests
variable {reply data : Bytes} {maxlen : Nat} {message : TMessage}

theorem negotiated_lt (h : negotiated reply = .ok maxlen) : maxlen < 2^32 := by
  unfold negotiated at h
  split at h
  · cases h
  · split at h
    · cases h
    · cases h
      exact UInt32.toNat_lt _
  · cases h

theorem requestData_length (tag : UInt16) (hbounded : bounded maxlen message = some message) :
    ∃ data, requestData maxlen tag message = some data ∧
      data.length = if message.Encodable then message.len else serializeErrorLen := by
  simp only [requestData, hbounded, Option.bind_some]
  cases hser : message.serialize tag with
  | ok data =>
    refine ⟨data, rfl, ?_⟩
    rw [if_pos (message.encodable_of_serialize hser), message.serialize_length hser]
  | error e =>
    have hnot : ¬message.Encodable := by
      intro henc
      obtain ⟨b, hb⟩ := message.serialize_isOk tag henc
      rw [hb] at hser
      cases hser
    have herror : (RMessage.rerror ⟨e.toString⟩).Encodable := by
      cases e
      show (asBytes "serialize error").length < 2^16
      decide
    obtain ⟨data, hdata⟩ := RMessage.serialize_isOk _ tag herror
    refine ⟨data, by simp only [hdata, Except.toOption], ?_⟩
    rw [if_neg hnot, RMessage.serialize_length _ hdata]
    cases e
    rfl

/-- A write is cut to the bound, so it always serializes. -/
theorem requestData_write (tag : UInt16) (m : Twrite) (hmax : maxlen < 2^32)
    (hle : twriteOverhead ≤ maxlen) :
    ∃ data, requestData maxlen tag (.twrite m) = some data ∧
      data.length = twriteOverhead + min (maxlen - twriteOverhead) m.data.length := by
  let cut : TMessage := .twrite ⟨m.fid, m.offset, m.data.take (maxlen - twriteOverhead)⟩
  have hcut : cut.Encodable := by
    show (m.data.take (maxlen - twriteOverhead)).length < 2^32
    rw [List.length_take]
    omega
  obtain ⟨data, hdata⟩ := cut.serialize_isOk tag hcut
  have hbounded : bounded maxlen (.twrite m) = some cut := by
    simp only [bounded, writeBound, if_pos hle, Option.map_some, cut]
  refine ⟨data, by simp only [requestData, hbounded, Option.bind_some, hdata], ?_⟩
  rw [cut.serialize_length hdata]
  simp only [cut, TMessage.len, List.length_take]
  rfl

/-- Only a write can have its bound underflow. -/
theorem requestData_none (tag : UInt16) (m : Twrite) (hlt : ¬twriteOverhead ≤ maxlen) :
    requestData maxlen tag (.twrite m) = none := by
  simp only [requestData, bounded, writeBound, if_neg hlt, Option.map_none, Option.bind_none]

end Requests

/-- In a session of any size the client accepts, a request goes out without
underflow and within the size exactly when it fits to begin with. -/
theorem request_fits_iff (reply : Bytes) (maxlen : Nat) (h : negotiated reply = .ok maxlen)
    (tag : UInt16) (message : TMessage) :
    (∃ data, requestData maxlen tag message = some data ∧
      data.length ≤ min maxlen maxMessageSize) ↔ FitsSession maxlen message := by
  have hasis (hbounded : bounded maxlen message = some message) :
      (∃ data, requestData maxlen tag message = some data ∧
        data.length ≤ min maxlen maxMessageSize) ↔
      (if message.Encodable then message.len else serializeErrorLen) ≤
        min maxlen maxMessageSize := by
    obtain ⟨data, hdata, hlen⟩ := requestData_length tag hbounded
    rw [hdata, ← hlen]
    simp
  cases message with
  | twrite m =>
    by_cases hle : twriteOverhead ≤ maxlen
    · obtain ⟨data, hdata, hlen⟩ := requestData_write tag m (negotiated_lt h) hle
      simp only [hdata, Option.some.injEq, exists_eq_left', hlen, FitsSession]
      omega
    · simp [requestData_none tag m hle, FitsSession, hle]
  | _ => exact hasis rfl

theorem request_fits_iff_clunk : ∃ data,
    requestData 10 0 (.tclunk ⟨1⟩) = some data ∧ data.length ≤ min 10 maxMessageSize :=
  (request_fits_iff [101, 255, 255, 10, 0, 0, 0, 6, 0, 57, 80, 50, 48, 48, 48] 10 (by decide) 0
    _).mpr (show (if (TMessage.tclunk ⟨1⟩).Encodable then _ else _) ≤ _ by decide)

/-- A server that offers ten bytes is accepted, and a write to it underflows. -/
theorem request_fits_counterexample :
    ¬∀ (reply : Bytes) (maxlen : Nat), negotiated reply = .ok maxlen →
      ∀ (tag : UInt16) (message : TMessage), ∃ data,
        requestData maxlen tag message = some data ∧ data.length ≤ min maxlen maxMessageSize := by
  intro h
  obtain ⟨data, hdata, -⟩ := h [101, 255, 255, 10, 0, 0, 0, 6, 0, 57, 80, 50, 48, 48, 48] 10
    (by decide) 0 (.twrite ⟨1, 0, []⟩)
  cases hdata

end NineWire.Client
