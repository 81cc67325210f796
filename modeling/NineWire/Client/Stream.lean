import NineWire.Client.Listing

/-! A stream of stat records: what `put_stat` appended, record by record, is
what the loop of `next_entry` takes apart again. -/
namespace NineWire.Client
open NineWire.Wire NineWire.Server NineWire.Codec NineWire.Res

/-- Records put one after the other come back as the same list. Each is read
back alone whatever follows it; the stream drains to exactly the list, under
any tag; and `next_entry`, once it has read the stream, hands out the first
record and keeps the rest. -/
theorem stat_stream_decodes {W P O : Type} (handler : Serve W P O) (stats : List Stat)
    (buf out : Bytes) (h : (stats.forM putStat).run buf = .ok ((), out)) :
    (∀ stat pre post, (putStat stat).run pre = .ok ((), post) →
      ∃ bs, post = pre ++ bs ∧ ∀ tag rest, (yankStat tag).run (bs ++ rest) = .ok (stat, rest)) ∧
    ∃ bs, out = buf ++ bs ∧ (∀ tag l, Drains (yankStat tag) bs l ↔ l = stats) ∧
      yankStats bs.length bs = (stats, none) ∧
      ∀ maxlen tag offset fid server server',
        (readAt handler maxlen tag fid 0xFFFFFFFF offset).run server = .ok bs server' →
        (nextEntry handler maxlen tag).run ⟨⟨offset, fid, []⟩, server⟩ = .ok stats.head?
          ⟨⟨offset + UInt64.ofNat bs.length, fid, stats.tail⟩, server'⟩ := by
  constructor
  · intro stat pre post hput
    obtain ⟨bs, hpost, hread⟩ := stat_roundTrips notag stat pre post hput
    refine ⟨bs, hpost, fun tag rest => ?_⟩
    obtain ⟨bs', hpost', hread'⟩ := stat_roundTrips tag stat pre post hput
    obtain rfl := List.append_cancel_left (hpost.symm.trans hpost')
    exact hread' rest
  · obtain ⟨bs, hout, hlen, hdrains⟩ := stats_drain notag h
    have hyank := yankStats_drains hdrains hlen
    refine ⟨bs, hout, fun tag l => ⟨fun hl => ?_, ?_⟩, hyank, ?_⟩
    · obtain ⟨bs', hout', -, hdrains'⟩ := stats_drain tag h
      obtain rfl := List.append_cancel_left (hout.symm.trans hout')
      exact hl.unique hdrains'
    · intro heq
      subst heq
      obtain ⟨bs', hout', -, hdrains'⟩ := stats_drain tag h
      obtain rfl := List.append_cancel_left (hout.symm.trans hout')
      exact hdrains'
    · intro maxlen tag offset fid server server' hread
      rw [nextEntry_read hread hyank]
      cases stats <;> rfl

theorem stat_stream_decodes_two : ∃ bs,
    ([rpcStat glenda, rootStat glenda].forM putStat).run [7] = .ok ((), [7] ++ bs) ∧
      yankStats bs.length bs = ([rpcStat glenda, rootStat glenda], none) := by
  have hfit : ∀ stat ∈ [rpcStat glenda, rootStat glenda], stat.len - 2 < 2^16 := by decide
  have hput := putStats_run hfit [7]
  obtain ⟨bs, hout, -, hyank, -⟩ := (stat_stream_decodes Serve.nothing _ [7] _ hput).2
  exact ⟨bs, hout ▸ hput, hyank⟩

end NineWire.Client
