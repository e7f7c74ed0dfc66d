import Mathlib.Data.ZMod.Basic
import Mathlib.Algebra.BigOperators.Intervals
import Miresga.Lib.Format

/-!
# Lib — One's-complement sums

The Internet checksum adds 16-bit words in network order and adds the carries back in (`fold16`).
Folding keeps the residue modulo `65535`, so sums are followed as elements of `Residue`; the two
encodings of zero, `0` and `0xffff`, are one residue (`fold16_eq_max`).

A store changes a sum by the difference of the words, as the host loads them, times the weight of
the place (`wordSum_st16`, `wordSum_st32`): the weight is 256 at an even distance from the start of
the summed region, where the host reads the two bytes of a word the other way round, and 1 at an odd
one.
-/

/-- Residues of one's-complement sums of 16-bit words. -/
abbrev Residue := ZMod 65535

/-! ### Folding -/

/-- The 16-bit one's-complement sum: what is carried out at the top is added at the bottom. -/
def fold16 (n : Nat) : Nat :=
  if n < 65536 then n else fold16 (n / 65536 + n % 65536)
termination_by n
decreasing_by omega

theorem fold16_lt (n : Nat) : fold16 n < 65536 := by
  induction n using Nat.strong_induction_on with
  | _ n ih =>
      rw [fold16]
      split
      next h => exact h
      · exact ih _ (by omega)

theorem fold16_mod (n : Nat) : fold16 n % 65535 = n % 65535 := by
  induction n using Nat.strong_induction_on with
  | _ n ih =>
      rw [fold16]
      split
      · rfl
      · rw [ih _ (by omega)]
        omega

theorem fold16_pos {n : Nat} (h : 0 < n) : 0 < fold16 n := by
  induction n using Nat.strong_induction_on with
  | _ n ih =>
      rw [fold16]
      split
      · exact h
      · exact ih _ (by omega) (by omega)

/-- A sum of words that are not all zero folds to `0xffff` exactly when its residue is 0. -/
theorem fold16_eq_max {n : Nat} (h : 0 < n) : fold16 n = 0xffff ↔ (n : Residue) = 0 := by
  have h₁ := fold16_lt n
  have h₂ := fold16_mod n
  have h₃ := fold16_pos h
  rw [ZMod.natCast_eq_zero_iff]
  omega

/-- The fold, as a residue from 1 to `0xffff`. -/
theorem fold16_eq (n : Nat) : fold16 n = if n = 0 then 0 else (n - 1) % 0xffff + 1 := by
  have h₁ := fold16_lt n
  have h₂ := fold16_mod n
  split
  next h =>
    rw [h, fold16]
    rfl
  next h =>
    have h₃ := fold16_pos (Nat.pos_of_ne_zero h)
    omega

/-- A sum to which the complement of its fold is added folds to `0xffff`. -/
theorem fold16_add_compl (n : Nat) : fold16 (n + (0xffff - fold16 n)) = 0xffff := by
  have h₁ := fold16_lt n
  have h₂ := fold16_mod n
  have h₃ := fold16_lt (n + (0xffff - fold16 n))
  have h₄ := fold16_mod (n + (0xffff - fold16 n))
  have hpos : 0 < n + (0xffff - fold16 n) := by
    rcases Nat.eq_zero_or_pos n with rfl | hn
    · rw [fold16, if_pos (by decide)]
      decide
    · omega
  have h₅ := fold16_pos hpos
  omega

/-! ### Residues of words -/

theorem residue_max32 : (4294967295 : Residue) = 0 := rfl

/-- A number is known by its residue modulo `2 ^ 32 - 1`. -/
theorem residue_of_modEq {a b : Nat} (h : a ≡ b [MOD 2 ^ 32 - 1]) : (a : Residue) = (b : Residue) :=
  (ZMod.natCast_eq_natCast_iff a b 65535).mpr (h.of_dvd (by norm_num))

theorem residue_not (v : BitVec 32) : ((~~~v).toNat : Residue) = -(v.toNat : Residue) := by
  have hv := v.isLt
  have h : ((~~~v).toNat : Residue) + (v.toNat : Residue) = 0 := by
    rw [BitVec.toNat_not, ← Nat.cast_add, Nat.sub_add_cancel (by omega)]
    exact residue_max32
  exact eq_neg_of_add_eq_zero_left h

theorem toNat_append_add {a b : Nat} (x : BitVec a) (y : BitVec b) :
    (x ++ y).toNat = x.toNat * 2 ^ b + y.toNat := by
  rw [BitVec.toNat_append, ← Nat.shiftLeft_add_eq_or_of_lt y.isLt, Nat.shiftLeft_eq]

namespace Mem

/-- The sum of the 16-bit words in network order of the `n` bytes from `o` on, an odd byte padded
with zeros. -/
def wordSum (m : Mem) (o : Nat) : Nat → Nat
  | 0 => 0
  | 1 => (m o).toNat * 256
  | n + 2 => (m.nb16 o).toNat + wordSum m (o + 2) n

/-- What a byte counts for at distance `j` from the start. -/
def weight (j : Nat) : Residue := if j % 2 = 0 then 256 else 1

theorem weight_succ (j : Nat) : weight (j + 1) = 256 * weight j := by
  unfold weight
  rcases Nat.mod_two_eq_zero_or_one j with h | h
  · rw [if_neg (by omega), if_pos h]
    rfl
  · rw [if_pos (by omega), if_neg (by omega)]
    rfl

theorem weight_even {j : Nat} (h : j % 2 = 0) : weight j = 256 := if_pos h

theorem weight_odd {j : Nat} (h : j % 2 = 1) : weight j = 1 := if_neg (by omega)

/-- The sum, byte by byte. -/
theorem wordSum_eq (m : Mem) (o n : Nat) : (m.wordSum o n : Residue) =
    ∑ i ∈ Finset.range n, weight i * ((m (o + i)).toNat : Residue) := by
  induction n using Nat.twoStepInduction generalizing o with
  | zero => rfl
  | one => simp [wordSum, weight, mul_comm]
  | more n ih _ =>
      have hw : ∀ i, weight (i + 1 + 1) = weight i := fun i => by
        unfold weight
        rw [show (i + 1 + 1) % 2 = i % 2 by omega]
      have ho : ∀ i, o + 2 + i = o + (i + 1 + 1) := fun i => by omega
      rw [wordSum, Finset.sum_range_succ', Finset.sum_range_succ', Nat.cast_add, ih, nb16,
        toNat_append_add]
      simp only [hw, ho, weight_succ, Nat.cast_add, Nat.cast_mul, Nat.add_zero, Nat.zero_add]
      rw [show weight 0 = 256 from rfl, show (256 : Residue) * 256 = 1 from rfl,
        show ((2 ^ 8 : Nat) : Residue) = 256 from rfl]
      ring

theorem wordSum_congr {m m' : Mem} {o n : Nat} (h : ∀ i, o ≤ i → i < o + n → m i = m' i) :
    m.wordSum o n = m'.wordSum o n := by
  induction n using Nat.twoStepInduction generalizing o with
  | zero => rfl
  | one => rw [wordSum, wordSum, h o (by omega) (by omega)]
  | more n ih _ =>
      rw [wordSum, wordSum, nb16, nb16, h o (by omega) (by omega), h (o + 1) (by omega) (by omega),
        ih fun i _ _ => h i (by omega) (by omega)]

section store

variable (m : Mem) {o n j : Nat}

/-- A byte stored at distance `j`. -/
theorem wordSum_st8 (b : Byte) (h : j < n) : ((m.st8 (o + j) b).wordSum o n : Residue) =
    m.wordSum o n + weight j * (b.toNat - (m (o + j)).toNat) := by
  have hmem : j ∈ Finset.range n := Finset.mem_range.mpr h
  rw [wordSum_eq, wordSum_eq, ← Finset.add_sum_erase _ _ hmem, ← Finset.add_sum_erase _ _ hmem]
  have hrest : ∑ i ∈ (Finset.range n).erase j, weight i * (((m.st8 (o + j) b) (o + i)).toNat : Residue)
      = ∑ i ∈ (Finset.range n).erase j, weight i * ((m (o + i)).toNat : Residue) := by
    refine Finset.sum_congr rfl fun i hi => ?_
    have hne : o + i ≠ o + j := by
      have := (Finset.mem_erase.mp hi).1
      omega
    rw [st8_apply, if_neg hne]
  rw [hrest, st8_apply, if_pos rfl]
  ring

theorem toNat_bytes16 (v : BitVec 16) :
    v.toNat = (v.extractLsb' 0 8).toNat + 256 * (v.extractLsb' 8 8).toNat := by
  have hv := v.isLt
  simp only [BitVec.extractLsb'_toNat, Nat.shiftRight_eq_div_pow]
  omega

theorem toNat_bytes32 (v : BitVec 32) : v.toNat = (v.extractLsb' 0 8).toNat +
    256 * ((v.extractLsb' 8 8).toNat + 256 * ((v.extractLsb' 16 8).toNat +
      256 * (v.extractLsb' 24 8).toNat)) := by
  have hv := v.isLt
  simp only [BitVec.extractLsb'_toNat, Nat.shiftRight_eq_div_pow]
  omega

theorem toNat_ld16 (o : Nat) : (m.ld16 o).toNat = (m o).toNat + 256 * (m (o + 1)).toNat := by
  rw [ld16, toNat_append_add]
  omega

theorem toNat_ld32 (o : Nat) : (m.ld32 o).toNat = (m o).toNat +
    256 * ((m (o + 1)).toNat + 256 * ((m (o + 2)).toNat + 256 * (m (o + 3)).toNat)) := by
  rw [ld32, toNat_append_add, toNat_append_add, toNat_append_add]
  omega

/-- A number in network order, from its bytes. -/
theorem toNat_number (o : Nat) : (bswap32 (m.ld32 o)).toNat =
    (((m o).toNat * 256 + (m (o + 1)).toNat) * 256 + (m (o + 2)).toNat) * 256 +
      (m (o + 3)).toNat := by
  rw [bswap32_ld32, toNat_append_add, toNat_append_add, toNat_append_add]
  rfl

/-- The last `r` bytes of a number in network order are its remainder. -/
theorem tail_eq_iff {m m' : Mem} (hr : j ≤ 4) :
    (∀ i, o + 4 ≤ i + j → i < o + 4 → m' i = m i) ↔
      (bswap32 (m'.ld32 o)).toNat % 2 ^ (8 * j) = (bswap32 (m.ld32 o)).toNat % 2 ^ (8 * j) := by
  have lt (m : Mem) (i : Nat) : (m i).toNat < 256 := (m i).isLt
  have h₀ := lt m o
  have h₁ := lt m (o + 1)
  have h₂ := lt m (o + 2)
  have h₃ := lt m (o + 3)
  have h₀' := lt m' o
  have h₁' := lt m' (o + 1)
  have h₂' := lt m' (o + 2)
  have h₃' := lt m' (o + 3)
  rw [toNat_number, toNat_number]
  constructor
  · intro h
    have e (i : Nat) (hi : 4 ≤ i + j ∧ i < 4) : (m' (o + i)).toNat = (m (o + i)).toNat :=
      congrArg BitVec.toNat (h (o + i) (by omega) (by omega))
    have e₀ := e 0
    have e₁ := e 1
    have e₂ := e 2
    have e₃ := e 3
    rw [Nat.add_zero] at e₀
    interval_cases j <;> omega
  · intro h i hlo hhi
    obtain ⟨k, hk, rfl⟩ : ∃ k, k < 4 ∧ i = o + k := ⟨i - o, by omega, by omega⟩
    apply BitVec.eq_of_toNat_eq
    interval_cases j <;> interval_cases k <;> first | omega | (simp only [Nat.add_zero]; omega)

/-- **Adding to a number** leaves its last `j` bytes exactly when `2 ^ (8 * j)` divides what is
added. -/
theorem tail_add_iff {m m' : Mem} {d : BitVec 32} (hr : j ≤ 4)
    (h : bswap32 (m'.ld32 o) = bswap32 (m.ld32 o) + d) :
    (∀ i, o + 4 ≤ i + j → i < o + 4 → m' i = m i) ↔ 2 ^ (8 * j) ∣ d.toNat := by
  rw [tail_eq_iff hr, h, BitVec.toNat_add, Nat.mod_mod_of_dvd _ (pow_dvd_pow 2 (by omega))]
  exact Nat.add_modEq_left_iff

/-- Swapping the bytes of a word multiplies its residue by 256. -/
theorem residue_bswap32 (v : BitVec 32) :
    ((bswap32 v).toNat : Residue) = 256 * (v.toNat : Residue) := by
  have h₁ := toNat_bytes32 v
  have h₂ : (256 : Residue) * 256 = 1 := rfl
  unfold bswap32
  rw [toNat_append_add, toNat_append_add, toNat_append_add, h₁]
  push_cast
  generalize ((v.extractLsb' 0 8).toNat : Residue) = a
  generalize ((v.extractLsb' 8 8).toNat : Residue) = b
  generalize ((v.extractLsb' 16 8).toNat : Residue) = c
  generalize ((v.extractLsb' 24 8).toNat : Residue) = e
  linear_combination (256 * a - 256 * c - e - 256 * 256 * e) * h₂

/-- **A 16-bit store** changes the sum by the difference of the words, times the weight. -/
theorem wordSum_st16 (v : BitVec 16) (h : j + 2 ≤ n) :
    ((m.st16 (o + j) v).wordSum o n : Residue) =
      m.wordSum o n + weight j * (v.toNat - (m.ld16 (o + j)).toNat) := by
  have h₁ : ((m.st8 (o + j) (v.extractLsb' 0 8)) (o + (j + 1))) = m (o + (j + 1)) := by
    rw [st8_apply, if_neg (by omega)]
  rw [st16, Nat.add_assoc o j 1, wordSum_st8 _ _ (by omega), wordSum_st8 _ _ (by omega), h₁,
    toNat_ld16, toNat_bytes16 v, weight_succ, Nat.add_assoc o j 1]
  push_cast
  ring

/-- **A 32-bit store** changes the sum by the difference of the words, times the weight. -/
theorem wordSum_st32 (v : BitVec 32) (h : j + 4 ≤ n) :
    ((m.st32 (o + j) v).wordSum o n : Residue) =
      m.wordSum o n + weight j * (v.toNat - (m.ld32 (o + j)).toNat) := by
  have step (m' : Mem) (i : Nat) (b : Byte) (hi : i < n) (hm : m' (o + i) = m (o + i)) :
      ((m'.st8 (o + i) b).wordSum o n : Residue) =
        m'.wordSum o n + weight i * (b.toNat - (m (o + i)).toNat) := by
    rw [wordSum_st8 m' b hi, hm]
  rw [st32, Nat.add_assoc o j 1, Nat.add_assoc o j 2, Nat.add_assoc o j 3,
    step _ _ _ (by omega) (by simp [st8_apply]), step _ _ _ (by omega) (by simp [st8_apply]),
    step _ _ _ (by omega) (by simp [st8_apply]), step _ _ _ (by omega) rfl, toNat_ld32,
    toNat_bytes32 v, weight_succ (j + 2), weight_succ (j + 1), weight_succ j, Nat.add_assoc o j 1,
    Nat.add_assoc o j 2, Nat.add_assoc o j 3]
  push_cast
  ring

end store

end Mem
