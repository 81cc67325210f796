import NineWire.Wire.Length

/-! Stat records one after the other, as a directory read returns them. -/
namespace NineWire.Wire
open NineWire.Codec NineWire.LittleEndian

def Stat.encode (stat : Stat) : Bytes :=
  match (putStat stat).run [] with
  | .ok ((), bs) => bs
  | .error _ => []

def encodeAll (stats : List Stat) : Bytes := stats.flatMap Stat.encode

def lenAll (stats : List Stat) : Nat := (stats.map Stat.len).sum

section Records
variable {stat : Stat} {stats stats' : List Stat}

theorem putStat_encode (h : stat.len - 2 < 2^16) :
    (putStat stat).run [] = .ok ((), stat.encode) := by
  obtain ⟨out, hout⟩ := stat_total h []
  rw [Stat.encode, hout]

theorem putStat_run (h : stat.len - 2 < 2^16) (buf : Bytes) :
    (putStat stat).run buf = .ok ((), buf ++ stat.encode) := by
  obtain ⟨bs, -, hbs, hrun⟩ := stat_writes stat _ _ (putStat_encode h)
  rw [hbs]
  exact hrun buf

theorem encode_length (h : stat.len - 2 < 2^16) : stat.encode.length = stat.len := by
  obtain ⟨bs, hlen, hbs, -⟩ := stat_writes stat _ _ (putStat_encode h)
  rwa [hbs]

theorem lenAll_append : lenAll (stats ++ stats') = lenAll stats + lenAll stats' := by
  simp [lenAll]

theorem encodeAll_length (h : ∀ stat ∈ stats, stat.len - 2 < 2^16) :
    (encodeAll stats).length = lenAll stats := by
  induction stats with
  | nil => rfl
  | cons stat stats ih =>
    have hrest := ih fun stat' hstat' => h stat' (List.mem_cons_of_mem stat hstat')
    have hhead := encode_length (h stat List.mem_cons_self)
    simp only [encodeAll, lenAll, List.flatMap_cons, List.length_append, List.map_cons,
      List.sum_cons] at hrest ⊢
    rw [hhead, hrest]

theorem putStats_run (h : ∀ stat ∈ stats, stat.len - 2 < 2^16) (buf : Bytes) :
    (stats.forM putStat).run buf = .ok ((), buf ++ encodeAll stats) := by
  induction stats generalizing buf with
  | nil =>
    rw [encodeAll, List.flatMap_nil, List.append_nil]
    rfl
  | cons stat stats ih =>
    have hput := putStat_run (h stat List.mem_cons_self) buf
    have hrest := ih (fun stat' hstat' => h stat' (List.mem_cons_of_mem stat hstat'))
      (buf ++ stat.encode)
    rw [List.append_assoc] at hrest
    exact (run_bind_of_ok hput).trans hrest

end Records

end NineWire.Wire
