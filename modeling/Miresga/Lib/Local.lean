import Miresga.Lib.Mem

/-!
# Lib — Work on a copied prefix

A program copies `n` bytes to the front of a region and works on them.  `Reads n v` says that what it
computes depends on these bytes alone, `Local n f` that what it writes stays within them and depends
on nothing else.  Then the region afterwards is the work done on the source, laid over what the region
held before: `f (b.copy x n) = b.copy (f x) n`.

Loads and stores within the first `n` bytes are such work, and so is one after the other
(`Local.comp`).
-/

namespace Mem

variable {α β : Type} {n o : Nat} {f g : Mem → Mem} {v : Mem → α}

/-- `v` depends on the first `n` bytes alone. -/
def Reads (n : Nat) (v : Mem → α) : Prop := ∀ b x : Mem, v (b.copy x n) = v x

/-- `f` works on the first `n` bytes alone. -/
def Local (n : Nat) (f : Mem → Mem) : Prop := ∀ b x : Mem, f (b.copy x n) = b.copy (f x) n

theorem copy_front {b x : Mem} {i : Nat} (h : i < n) : b.copy x n i = x i := if_pos h

theorem copy_behind {b x : Mem} {i : Nat} (h : n ≤ i) : b.copy x n i = b i :=
  if_neg (Nat.not_lt.mpr h)

/-! ### Loads -/

namespace Reads

theorem const (a : α) : Reads n fun _ => a := fun _ _ => rfl

theorem map (h : α → β) (hv : Reads n v) : Reads n fun m => h (v m) := fun b x =>
  congrArg h (hv b x)

theorem byte (h : o < n) : Reads n fun m => m o := fun _ _ => copy_front h

theorem ld16 (h : o + 2 ≤ n) : Reads n fun m => m.ld16 o := fun _ x => ld16_copy x h

theorem ld32 (h : o + 4 ≤ n) : Reads n fun m => m.ld32 o := fun _ x => ld32_copy x h

theorem bytes {k : Nat} (h : o + k ≤ n) : Reads n fun m => m.bytes o k := by
  intro b x
  refine List.map_congr_left fun i hi => ?_
  have hk := List.mem_range.mp hi
  exact copy_front (by omega)

/-- What is read behind local work. -/
theorem comp (hv : Reads n v) (hf : Local n f) : Reads n fun m => v (f m) := by
  intro b x
  show v (f (b.copy x n)) = v (f x)
  rw [hf b x, hv b (f x)]

end Reads

/-! ### Stores -/

namespace Local

theorem comp (hg : Local n g) (hf : Local n f) : Local n fun m => g (f m) := by
  intro b x
  show g (f (b.copy x n)) = b.copy (g (f x)) n
  rw [hf b x, hg b (f x)]

theorem st8 {v : Mem → Byte} (hf : Local n f) (hv : Reads n v) (h : o < n) :
    Local n fun m => (f m).st8 o (v m) := by
  intro b x
  show (f (b.copy x n)).st8 o (v (b.copy x n)) = b.copy ((f x).st8 o (v x)) n
  rw [hf b x, hv b x]
  funext i
  by_cases hi : i < n
  · rw [copy_front hi, st8_apply, st8_apply, copy_front hi]
  · rw [copy_behind (Nat.not_lt.mp hi), st8_outside _ (by omega), copy_behind (Nat.not_lt.mp hi)]

theorem st16 {v : Mem → BitVec 16} (hf : Local n f) (hv : Reads n v) (h : o + 2 ≤ n) :
    Local n fun m => (f m).st16 o (v m) := by
  have h₀ : Local n fun m => (f m).st8 o ((v m).extractLsb' 0 8) :=
    hf.st8 (hv.map fun w => w.extractLsb' 0 8) (by omega)
  exact h₀.st8 (hv.map fun w => w.extractLsb' 8 8) (by omega)

theorem st32 {v : Mem → BitVec 32} (hf : Local n f) (hv : Reads n v) (h : o + 4 ≤ n) :
    Local n fun m => (f m).st32 o (v m) := by
  have h₀ : Local n fun m => (f m).st8 o ((v m).extractLsb' 0 8) :=
    hf.st8 (hv.map fun w => w.extractLsb' 0 8) (by omega)
  have h₁ := h₀.st8 (o := o + 1) (hv.map fun w => w.extractLsb' 8 8) (by omega)
  have h₂ := h₁.st8 (o := o + 2) (hv.map fun w => w.extractLsb' 16 8) (by omega)
  exact h₂.st8 (hv.map fun w => w.extractLsb' 24 8) (by omega)

theorem write {l : Mem → List Byte} (hf : Local n f) (hl : Reads n l)
    (h : ∀ m, o + (l m).length ≤ n) : Local n fun m => (f m).write o (l m) := by
  intro b x
  show (f (b.copy x n)).write o (l (b.copy x n)) = b.copy ((f x).write o (l x)) n
  rw [hf b x, hl b x]
  funext i
  by_cases hi : i < n
  · rw [copy_front hi]
    unfold Mem.write
    rw [copy_front hi]
  · have hlen := h x
    rw [copy_behind (Nat.not_lt.mp hi), write_outside _ (by omega), copy_behind (Nat.not_lt.mp hi)]

/-- Nothing done. -/
theorem refl : Local n fun m => m := fun _ _ => rfl

end Local

end Mem
