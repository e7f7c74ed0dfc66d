import Mathlib.Data.ZMod.Basic
import Mathlib.RingTheory.AdjoinRoot
import Mathlib.Tactic

/-!
# Lib — Cyclic redundancy checks

A word of `n` bits is a polynomial over the field of two elements (`Crc.poly`): exclusive or adds,
and a shift to the left multiplies by `X` but for the bit that falls out.  With the generator
`X ^ n + g` put in for this bit, a shift multiplies by `X` modulo the generator (`Crc.mk_shift`).
So a register that takes one word after the other, `n` shifts for each, ends with the remainder of
the message, `n` zeros appended, by the generator (`Crc.poly_remainder`).
-/

open Polynomial

namespace Crc

variable {n : Nat}

/-! ### Words as polynomials -/

/-- The polynomial whose coefficients are the bits of the word. -/
noncomputable def poly (v : BitVec n) : (ZMod 2)[X] :=
  ∑ i ∈ Finset.range n, if v.getLsbD i then X ^ i else 0

theorem coeff_poly (v : BitVec n) (i : Nat) :
    (poly v).coeff i = if v.getLsbD i then 1 else 0 := by
  have term : ∀ j, (if v.getLsbD j then X ^ j else (0 : (ZMod 2)[X])).coeff i =
      if i = j then (if v.getLsbD j then 1 else 0) else 0 := fun j => by
    split_ifs <;> simp_all [coeff_X_pow]
  rw [poly, finsetSum_coeff, Finset.sum_congr rfl fun j _ => term j, Finset.sum_ite_eq]
  split
  · rfl
  next hi =>
    rw [BitVec.getLsbD_of_ge _ _ (by simpa using hi)]
    rfl

theorem poly_injective : Function.Injective (poly (n := n)) := by
  intro v w h
  refine BitVec.eq_of_getLsbD_eq fun i _ => ?_
  have hi := congrArg (·.coeff i) h
  simp only [coeff_poly] at hi
  cases hv : v.getLsbD i <;> cases hw : w.getLsbD i <;> simp_all

@[simp] theorem poly_zero : poly (0 : BitVec n) = 0 := by
  ext i
  simp [coeff_poly]

theorem poly_xor (v w : BitVec n) : poly (v ^^^ w) = poly v + poly w := by
  ext i
  rw [coeff_add, coeff_poly, coeff_poly, coeff_poly, BitVec.getLsbD_xor]
  cases v.getLsbD i <;> cases w.getLsbD i <;> decide

theorem degree_poly_lt (v : BitVec n) : (poly v).degree < n := by
  rw [degree_lt_iff_coeff_zero]
  intro i hi
  rw [coeff_poly, BitVec.getLsbD_of_ge _ _ hi]
  rfl

/-- A shift multiplies by `X`, but for the bit that falls out. -/
theorem poly_shiftLeft (v : BitVec n) :
    X * poly v = poly (v <<< 1) + if v.msb then X ^ n else 0 := by
  ext i
  cases i with
  | zero =>
      rw [mul_coeff_zero, coeff_X_zero, zero_mul, coeff_add, coeff_poly, BitVec.getLsbD_shiftLeft]
      cases n with
      | zero => simp [BitVec.of_length_zero (x := v)]
      | succ n => cases v.msb <;> simp
  | succ i =>
      rw [coeff_X_mul, coeff_add, coeff_poly, coeff_poly, BitVec.getLsbD_shiftLeft,
        BitVec.msb_eq_getLsbD_last]
      have other (h : i + 1 ≠ n) :
          (if v.getLsbD (n - 1) then X ^ n else (0 : (ZMod 2)[X])).coeff (i + 1) = 0 := by
        split <;> simp [coeff_X_pow, h]
      rcases Nat.lt_trichotomy (i + 1) n with h | rfl | h
      · rw [other h.ne, add_zero]
        simp [h]
      · rw [Nat.add_sub_cancel]
        cases v.getLsbD i <;> simp
      · rw [other h.ne', add_zero, BitVec.getLsbD_of_ge v i (by omega)]
        simp [Nat.not_lt.mpr h.le]

/-! ### Division -/

/-- `X ^ n + g`. -/
noncomputable def generator (g : BitVec n) : (ZMod 2)[X] := X ^ n + poly g

theorem monic_generator (g : BitVec n) : (generator g).Monic := monic_X_pow_add (degree_poly_lt g)

theorem degree_generator (g : BitVec n) : (generator g).degree = n := by
  rw [generator, degree_add_eq_left_of_degree_lt] <;> rw [degree_X_pow]
  exact degree_poly_lt g

/-- A polynomial that is equal to a word modulo the generator has it as its remainder. -/
theorem eq_modByMonic {g v : BitVec n} {p : (ZMod 2)[X]}
    (h : AdjoinRoot.mk (generator g) (poly v) = AdjoinRoot.mk (generator g) p) :
    poly v = p %ₘ generator g := by
  have small : poly v %ₘ generator g = poly v :=
    (modByMonic_eq_self_iff (monic_generator g)).mpr (by
      rw [degree_generator]
      exact degree_poly_lt v)
  rw [← small]
  exact modByMonic_eq_of_dvd_sub (monic_generator g) (AdjoinRoot.mk_eq_mk.mp h)

/-- A bit of the division: a shift, and the generator where a bit falls out. -/
def shift (g v : BitVec n) : BitVec n := if v.msb then (v <<< 1) ^^^ g else v <<< 1

/-- A bit of the division multiplies by `X` modulo the generator. -/
theorem mk_shift (g v : BitVec n) :
    AdjoinRoot.mk (generator g) (poly (shift g v)) = AdjoinRoot.mk (generator g) (X * poly v) := by
  rw [AdjoinRoot.mk_eq_mk, poly_shiftLeft, shift]
  split
  · -- what was put in and the bit that fell out are the generator
    refine ⟨1, ?_⟩
    rw [poly_xor, generator, mul_one, add_sub_add_left_eq_sub, CharTwo.sub_eq_add, add_comm]
  · rw [add_zero, sub_self]
    exact dvd_zero _

theorem mk_shift_iterate (g v : BitVec n) (k : Nat) :
    AdjoinRoot.mk (generator g) (poly ((shift g)^[k] v)) =
      AdjoinRoot.mk (generator g) (X ^ k * poly v) := by
  induction k with
  | zero => rw [Function.iterate_zero_apply, pow_zero, one_mul]
  | succ k ih =>
      rw [Function.iterate_succ_apply', mk_shift, map_mul, ih, ← map_mul, ← mul_assoc, ← pow_succ']

/-! ### Messages -/

/-- The register takes a word. -/
def update (g crc w : BitVec n) : BitVec n := (shift g)^[n] (crc ^^^ w)

/-- The register after a message, from zero on. -/
def remainder (g : BitVec n) (ws : List (BitVec n)) : BitVec n := ws.foldl (update g) 0

/-- The words as one polynomial, the first word at the top. -/
noncomputable def message (ws : List (BitVec n)) : (ZMod 2)[X] :=
  ws.foldl (fun p w => p * X ^ n + poly w) 0

theorem mk_foldl_update (g : BitVec n) {c : BitVec n} {p : (ZMod 2)[X]} (ws : List (BitVec n))
    (h : AdjoinRoot.mk (generator g) (poly c) = AdjoinRoot.mk (generator g) (p * X ^ n)) :
    AdjoinRoot.mk (generator g) (poly (ws.foldl (update g) c)) =
      AdjoinRoot.mk (generator g) (ws.foldl (fun p w => p * X ^ n + poly w) p * X ^ n) := by
  induction ws generalizing c p with
  | nil => exact h
  | cons w ws ih =>
      refine ih ?_
      rw [update, mk_shift_iterate, poly_xor, map_mul, map_add, h, ← map_add, ← map_mul, mul_comm]

/-- **The register divides**: it ends with the remainder of the message and `n` zeros behind it. -/
theorem poly_remainder (g : BitVec n) (ws : List (BitVec n)) :
    poly (remainder g ws) = (message ws * X ^ n) %ₘ generator g :=
  eq_modByMonic (mk_foldl_update g ws (by rw [poly_zero, zero_mul]))

end Crc
