import Miresga.Frontend.Data
import Miresga.Lib.Crc
import Miresga.Switch.Spec

/-!
# System — the hash of a client

The front-end keeps its flows in 256 tables and picks one by a CRC-8 of the client's address and
port; the switch picks the front-end by a CRC-8 of the same.  The front-end takes the bytes from
words that a little-endian host has loaded, the lowest byte first, which is the order on the wire;
and it takes eight bits at once, from a table.

What it computes is the remainder of the six bytes by `X ^ 8 + X ^ 2 + X + 1` (`crc_agreement`), and
so what the switch computes, if its CRC-8 is that remainder.
-/

namespace Miresga.System

open Frontend Switch Polynomial

/-- The remainder of a byte string, eight zeros appended, by the polynomial of CRC-8. -/
noncomputable def crc8_remainder (l : List Byte) : (ZMod 2)[X] :=
  (Crc.message l * X ^ 8) %ₘ (X ^ 8 + X ^ 2 + X + 1)

/-- The hash of the switch is that remainder. -/
def IsCrc8 (E : Externs) : Prop :=
  ∀ cip cport, Crc.poly (E.crc8 cip cport) = crc8_remainder (be32 cip ++ be16 cport)

/-! ### The table -/

theorem generator_crc8 : Crc.generator (0x07 : Byte) = X ^ 8 + X ^ 2 + X + 1 := by
  have low : Crc.poly (0x07 : Byte) = X ^ 2 + X + 1 := by
    have bits : ∀ i ∈ Finset.range 8, (0x07 : Byte).getLsbD i = decide (i < 3) := by decide
    rw [Crc.poly, Finset.sum_congr rfl fun i hi => by rw [bits i hi]]
    simp only [Finset.sum_range_succ, Finset.sum_range_zero]
    norm_num
    ring
  rw [Crc.generator, low]
  ring

/-- The register of CRC-8 divides. -/
theorem poly_crc8 (l : List Byte) : Crc.poly (Crc.remainder 0x07 l) = crc8_remainder l := by
  rw [crc8_remainder, ← generator_crc8]
  exact Crc.poly_remainder 0x07 l

/-- The loop that fills the table divides a bit at a time. -/
theorem crc8_shift_eq : crc8_shift = Crc.shift 0x07 := by
  have top : ∀ crc : Byte, crc &&& 0x80 ≠ 0 ↔ crc.msb = true := by decide
  funext crc
  simp only [crc8_shift, Crc.shift, top]

/-- The bytes of a word, lowest first. -/
def le32 (v : BitVec 32) : List Byte :=
  [v.extractLsb' 0 8, v.extractLsb' 8 8, v.extractLsb' 16 8, v.extractLsb' 24 8]

def le16 (v : BitVec 16) : List Byte := [v.extractLsb' 0 8, v.extractLsb' 8 8]

theorem calculate_crc8_eq (ip : BitVec 32) (port : BitVec 16) :
    calculate_crc8 ip port = Crc.remainder 0x07 (le32 ip ++ le16 port) := by
  have table : ∀ crc b : Byte, crc8_table (crc ^^^ b) = Crc.update 0x07 crc b := fun crc b => by
    rw [crc8_table, crc8_shift_eq, Crc.update]
  simp only [calculate_crc8, table]
  rfl

/-! ### The bytes -/

theorem le32_append (a b c d : Byte) : le32 (a ++ b ++ c ++ d) = [d, c, b, a] := by
  have h := be32_append a b c d
  simp only [be32, List.cons.injEq, and_true] at h
  simp only [le32, h]

theorem le16_append (a b : Byte) : le16 (a ++ b) = [b, a] := by
  have h := be16_append a b
  simp only [be16, List.cons.injEq, and_true] at h
  simp only [le16, h]

/-- A little-endian host loads the bytes lowest first. -/
theorem le32_ld32 (m : Mem) (o : Nat) : le32 (m.ld32 o) = m.bytes o 4 := le32_append ..

theorem le16_ld16 (m : Mem) (o : Nat) : le16 (m.ld16 o) = m.bytes o 2 := le16_append ..

/-- The number on the wire has them highest first. -/
theorem be32_ntohl (m : Mem) (o : Nat) : be32 (ntohl (m.ld32 o)) = m.bytes o 4 :=
  (congrArg be32 (Mem.bswap32_ld32 m o)).trans (be32_append ..)

theorem be16_ntohs (m : Mem) (o : Nat) : be16 (ntohs (m.ld16 o)) = m.bytes o 2 :=
  (congrArg be16 (Mem.bswap16_ld16 m o)).trans (be16_append ..)

/-! ### Agreement -/

/-- **CRC agreement.**  For every address and port in a packet, wherever they stand: what the
front-end computes of the words it has loaded is the remainder of the six bytes as they are on the
wire; and it is the hash of the switch for the same client, if the hash of the switch is that
remainder. -/
theorem crc_agreement (m : Mem) (addr port : Nat) :
    let crc := calculate_crc8 (m.ld32 addr) (m.ld16 port)
    Crc.poly crc = crc8_remainder (m.bytes addr 4 ++ m.bytes port 2) ∧
    ∀ E : Externs, IsCrc8 E → ∀ s : Ingress, s.cip = ntohl (m.ld32 addr) →
      s.cport = ntohs (m.ld16 port) → (s.calculate_crc8 E).hash_result = crc := by
  intro crc
  have divides : Crc.poly crc = crc8_remainder (m.bytes addr 4 ++ m.bytes port 2) := by
    rw [← le32_ld32, ← le16_ld16, ← poly_crc8, ← calculate_crc8_eq]
  refine ⟨divides, fun E hE s hip hport => Crc.poly_injective ?_⟩
  rw [divides, Ingress.calculate_crc8, hE, hip, hport, be32_ntohl, be16_ntohs]

/-- The standard hash is the remainder. -/
theorem standard_isCrc8 : IsCrc8 standard_externs := by
  have bit : crc8_bit = Crc.shift 0x07 := rfl
  intro cip cport
  rw [← poly_crc8, standard_externs, bit]
  rfl

/-- The client 192.168.0.2:40000. -/
theorem crc_agreement_sample :
    let m : Mem := Mem.write (fun _ => 0) 26 [192, 168, 0, 2, 0, 0, 0, 0, 156, 64]
    let s : Ingress := { Ingress.init .none_valid with cip := 0xC0A80002, cport := 40000 }
    (s.calculate_crc8 standard_externs).hash_result = calculate_crc8 (m.ld32 26) (m.ld16 34) := by
  intro m s
  exact (crc_agreement m 26 34).2 standard_externs standard_isCrc8 s (by decide) (by decide)

end Miresga.System
