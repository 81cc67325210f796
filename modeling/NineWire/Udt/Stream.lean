import NineWire.Udt.RcvWindow
import NineWire.Udt.SndQueue

/-! The stream of packets that messages become, and what a message is cut into. -/
namespace NineWire.Udt
open NineWire.Udt.RcvBuffer

def packetOf (b : Block) : Packet := ⟨b.msgNo, b.data⟩

def packetAt (isn : Int) (stream : List Packet) (i : Int) : Option Packet :=
  if isn ≤ i then stream[(i - isn).toNat]? else none

variable {isn i : Int} {stream : List Packet} {p : Packet}

theorem packetAt_add (k : Nat) : packetAt isn stream (isn + k) = stream[k]? := by
  rw [packetAt, if_pos (by omega)]
  congr
  omega

theorem packetAt_bounds (h : packetAt isn stream i = some p) :
    isn ≤ i ∧ i < isn + stream.length := by
  unfold packetAt at h
  split_ifs at h with hle
  have hlt := (List.getElem?_eq_some_iff.mp h).1
  omega

theorem packetAt_append (h : packetAt isn stream i = some p) (more : List Packet) :
    packetAt isn (stream ++ more) i = some p := by
  have hbounds := packetAt_bounds h
  unfold packetAt at *
  rw [if_pos hbounds.1] at *
  rw [List.getElem?_append_left (by omega), h]

theorem packetAt_mem (h : packetAt isn stream i = some p) : p ∈ stream := by
  rw [packetAt, if_pos (packetAt_bounds h).1] at h
  exact List.mem_of_getElem? h

structure Reliable (p : Packet) : Prop where
  order : getMsgOrderFlag p.msgNo = true
  data : p.data ≠ []

theorem take_drop_flatMap (mss : Nat) (data : List UInt8) (n : Nat) :
    (List.range n).flatMap (fun i => (data.drop (i*mss)).take mss) = data.take (n*mss) := by
  induction n with
  | zero => simp
  | succ n ih =>
    rw [List.range_succ, List.flatMap_append, ih, List.flatMap_singleton, Nat.add_mul, Nat.one_mul,
      List.take_add]

theorem packets_spec {mss : Nat} (hmss : 0 < mss) (len : Nat) :
    len ≤ SndBuffer.packets mss len*mss ∧ ∀ i, i < SndBuffer.packets mss len → i*mss < len := by
  have hdiv := Nat.div_add_mod len mss
  have hlt := Nat.mod_lt len hmss
  unfold SndBuffer.packets
  rw [Nat.mul_comm] at hdiv
  split_ifs with hrest
  · refine ⟨by rw [Nat.add_mul]; omega, ?_⟩
    intro i hi
    have hle : i*mss ≤ len/mss*mss := Nat.mul_le_mul_right mss (by omega)
    omega
  · rw [Nat.add_zero]
    refine ⟨by omega, ?_⟩
    intro i hi
    have hle : (i + 1)*mss ≤ len/mss*mss := Nat.mul_le_mul_right mss (by omega)
    rw [Nat.add_mul] at hle
    omega

section pack
variable {mss nextMsgNo now : Nat} {data : List UInt8}

abbrev messagePackets (mss nextMsgNo : Nat) (data : List UInt8) (now : Nat) : List Packet :=
  (SndBuffer.pack mss nextMsgNo data (-1) true now).map packetOf

theorem bytes_pack (hmss : 0 < mss) : bytes (messagePackets mss nextMsgNo data now) = data := by
  have hall := (packets_spec hmss data.length).1
  rw [bytes, messagePackets, SndBuffer.pack, List.map_map, List.flatMap_map]
  exact (take_drop_flatMap mss data _).trans (List.take_of_length_le hall)

theorem isMsg_pack (hmss : 0 < mss) (hmsgNo : nextMsgNo ≤ maxMsgNo) (hdata : data ≠ []) :
    IsMsg (messagePackets mss nextMsgNo data now) := by
  have hlen := List.length_pos_iff.mpr hdata
  have hall := (packets_spec hmss data.length).1
  constructor
  · intro hnil
    have hbytes : bytes (messagePackets mss nextMsgNo data now) = data := bytes_pack hmss
    rw [hnil] at hbytes
    exact hdata hbytes.symm
  · intro k hk
    simp only [messagePackets, SndBuffer.pack, List.getElem_map, List.getElem_range,
      List.length_map, List.length_range, packetOf]
    exact getMsgBoundary_msgWord hmsgNo _ _ _

theorem reliable_pack (hmss : 0 < mss) (hmsgNo : nextMsgNo ≤ maxMsgNo) :
    ∀ p ∈ messagePackets mss nextMsgNo data now, Reliable p := by
  intro p hp
  simp only [messagePackets, SndBuffer.pack, List.map_map, List.mem_map, List.mem_range] at hp
  obtain ⟨i, hi, rfl⟩ := hp
  constructor
  · exact getMsgOrderFlag_msgWord hmsgNo _ _ _
  · have hlt := (packets_spec hmss data.length).2 i hi
    apply List.ne_nil_of_length_pos
    simp only [Function.comp_apply, packetOf, List.length_take, List.length_drop]
    omega

end pack
end NineWire.Udt
