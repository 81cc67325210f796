import NineWire.Wire.RoundTrip

/-! What a peer reads is what was sent: requests, replies, and the bulk-read
extension, which loses its identity on the way. -/
namespace NineWire.Wire

/-- Every 9P2000 request that serializes decodes to itself under its own tag. -/
theorem request_round_trip (m : TMessage) (tag : UInt16) (b : Bytes) (hm : m.Is9P2000)
    (h : m.serialize tag = .ok b) : deserializeT b = .ok (tag, m) :=
  m.deserialize_serialize hm h

theorem request_round_trip_walk :
    deserializeT [110, 7, 0, 1, 0, 0, 0, 2, 0, 0, 0, 2, 0, 1, 0, 97, 2, 0, 46, 46] =
      .ok (7, .twalk ⟨1, 2, ["a", ".."]⟩) :=
  request_round_trip (.twalk ⟨1, 2, ["a", ".."]⟩) 7 _ trivial (by decide)

/-- Every 9P2000 reply that serializes decodes to itself under its own tag. -/
theorem reply_round_trip (m : RMessage) (tag : UInt16) (b : Bytes) (hm : m.Is9P2000)
    (h : m.serialize tag = .ok b) : deserializeR b = .ok (tag, m) :=
  m.deserialize_serialize hm h

theorem reply_round_trip_read :
    deserializeR [117, 7, 0, 3, 0, 0, 0, 10, 20, 30] = .ok (7, .rread ⟨[10, 20, 30]⟩) :=
  reply_round_trip (.rread ⟨[10, 20, 30]⟩) 7 _ trivial (by decide)

/-- A bulk read always serializes. -/
theorem Treads.serialize_isOk (m : Treads) (tag : UInt16) : ∃ b, m.serialize tag = .ok b :=
  ⟨_, rfl⟩

/-- No bulk read keeps its identity. A `Treads` goes out as the bytes of a
`Tread` and is decoded as that `Tread`; an `Rreads` is not decoded at all. -/
theorem bulk_read_identity_lost (m : Treads) (resp : Rreads) (tag : UInt16) :
    (∃ b, m.serialize tag = .ok b ∧
      deserializeT b = .ok (tag, .tread ⟨m.fid, m.offset, m.count⟩) ∧
      deserializeT b ≠ .ok (tag, .treads m) ∧
      (TMessage.tread ⟨m.fid, m.offset, m.count⟩).serialize tag = .ok b) ∧
    ¬∃ b, resp.serialize tag = .ok b ∧ deserializeR b = .ok (tag, .rreads resp) := by
  constructor
  · obtain ⟨b, hb⟩ := m.serialize_isOk tag
    have hread := Tread.deserialize_serialize ((m.serialize_eq tag).symm.trans hb)
    refine ⟨b, hb, hread, ?_, (m.serialize_eq tag).symm.trans hb⟩
    rw [hread]
    simp
  · intro h
    obtain ⟨b, hb, hd⟩ := h
    rw [resp.deserialize_serialize hb] at hd
    cases hd

theorem bulk_read_counterexample :
    ¬((∀ (m : Treads) (tag : UInt16) (b : Bytes), m.serialize tag = .ok b →
        deserializeT b = .ok (tag, .treads m) ∧
        ∀ m' : TMessage, m' ≠ .treads m → m'.serialize tag ≠ .ok b) ∧
      (∀ (m : Rreads) (tag : UInt16) (b : Bytes), m.serialize tag = .ok b →
        deserializeR b = .ok (tag, .rreads m))) := by
  intro hcase
  obtain ⟨ht, -⟩ := hcase
  have h := ht ⟨1, 0, 10⟩ 5 [116, 5, 0, 1, 0, 0, 0, 0, 0, 0, 0, 0, 0, 0, 0, 10, 0, 0, 0] (by decide)
  exact h.2 (.tread ⟨1, 0, 10⟩) (by decide) (by decide)

end NineWire.Wire
