import Miresga.Lib.Mem

/-!
# Lib — Records in memory

A `Record` says how values of a type are laid out in a fixed number of bytes: a store that stays
inside them, a load that looks at nothing else, and that the load gives back what was stored.
Padding is what the store leaves alone and the load does not look at.

Arrays of records are stored and loaded one behind the other (`storeAll`, `loadAll`); loading an
array that was stored, here or in a copy elsewhere, gives its elements back (`loadAll_of_copy`).
-/

/-- A fixed layout for values of `α`. -/
structure Record (α : Type) where
  size : Nat
  store : Mem → Nat → α → Mem
  load : Mem → Nat → α
  store_outside : ∀ m o x i, i < o ∨ o + size ≤ i → store m o x i = m i
  load_congr : ∀ m n o p, (∀ i, i < size → m (o + i) = n (p + i)) → load m o = load n p
  load_store : ∀ m o x, load (store m o x) o = x

namespace Record

variable {α : Type} (R : Record α)

/-- The elements of the list, one behind the other from `o` on. -/
def storeAll (m : Mem) (o : Nat) : List α → Mem
  | [] => m
  | x :: xs => storeAll (R.store m o x) (o + R.size) xs

/-- The `n` elements that stand one behind the other from `o` on. -/
def loadAll (m : Mem) (o : Nat) : Nat → List α
  | 0 => []
  | n + 1 => R.load m o :: loadAll m (o + R.size) n

@[simp] theorem length_loadAll (m : Mem) (o n : Nat) : (R.loadAll m o n).length = n := by
  induction n generalizing o with
  | zero => rfl
  | succ n ih => rw [loadAll, List.length_cons, ih]

theorem storeAll_outside {m : Mem} {o i : Nat} (xs : List α)
    (h : i < o ∨ o + R.size * xs.length ≤ i) : R.storeAll m o xs i = m i := by
  induction xs generalizing m o with
  | nil => rfl
  | cons x xs ih =>
      rw [List.length_cons, Nat.mul_succ] at h
      rw [storeAll, ih (by omega), R.store_outside _ _ _ _ (by omega)]

theorem loadAll_congr {m n : Mem} {o p k : Nat}
    (h : ∀ i, i < R.size * k → m (o + i) = n (p + i)) : R.loadAll m o k = R.loadAll n p k := by
  induction k generalizing o p with
  | zero => rfl
  | succ k ih =>
      rw [Nat.mul_succ] at h
      rw [loadAll, loadAll, R.load_congr m n o p fun i hi => h i (by omega), ih fun i hi => ?_]
      rw [Nat.add_assoc, Nat.add_assoc]
      exact h (R.size + i) (by omega)

theorem loadAll_storeAll (m : Mem) (o : Nat) (xs : List α) :
    R.loadAll (R.storeAll m o xs) o xs.length = xs := by
  induction xs generalizing m o with
  | nil => rfl
  | cons x xs ih =>
      have first : R.load (R.storeAll (R.store m o x) (o + R.size) xs) o = x := by
        rw [R.load_congr _ (R.store m o x) o o fun i hi => R.storeAll_outside xs (by omega)]
        exact R.load_store m o x
      rw [List.length_cons, loadAll, storeAll, first, ih]

/-- Loading from a copy of an array gives its elements. -/
theorem loadAll_of_copy (m : Mem) {n : Mem} {o p : Nat} {xs : List α}
    (h : ∀ i, i < R.size * xs.length → n (p + i) = R.storeAll m o xs (o + i)) :
    R.loadAll n p xs.length = xs := by
  rw [R.loadAll_congr h, loadAll_storeAll]

/-- An array is its first elements and the others behind them. -/
theorem loadAll_add (m : Mem) (o n k : Nat) :
    R.loadAll m o (n + k) = R.loadAll m o n ++ R.loadAll m (o + R.size * n) k := by
  induction n generalizing o with
  | zero => rw [Nat.zero_add, Nat.mul_zero, Nat.add_zero, loadAll, List.nil_append]
  | succ n ih =>
      rw [Nat.succ_add, loadAll, ih, loadAll, List.cons_append, Nat.mul_succ, Nat.add_assoc,
        Nat.add_comm R.size]

theorem take_loadAll (m : Mem) (o : Nat) {n k : Nat} (h : k ≤ n) :
    (R.loadAll m o n).take k = R.loadAll m o k := by
  obtain ⟨d, rfl⟩ := Nat.exists_eq_add_of_le h
  rw [loadAll_add, List.take_left' (length_loadAll ..)]

theorem drop_loadAll (m : Mem) (o : Nat) {n k : Nat} (h : k ≤ n) :
    (R.loadAll m o n).drop k = R.loadAll m (o + R.size * k) (n - k) := by
  obtain ⟨d, rfl⟩ := Nat.exists_eq_add_of_le h
  rw [loadAll_add, List.drop_left' (length_loadAll ..), Nat.add_sub_cancel_left]

/-- Elements stored behind the first `n`. -/
theorem loadAll_storeAll_behind (m : Mem) (n : Nat) (xs : List α) :
    R.loadAll (R.storeAll m (R.size * n) xs) 0 (n + xs.length) = R.loadAll m 0 n ++ xs := by
  rw [loadAll_add, Nat.zero_add, loadAll_storeAll]
  congr 1
  exact R.loadAll_congr fun i hi => R.storeAll_outside xs (.inl (by omega))

/-- Loading from bytes that were taken from an array gives its elements. -/
theorem loadAll_of_bytes {m n : Mem} {o p k : Nat} (h : n.Holds p (m.bytes o (R.size * k))) :
    R.loadAll n p k = R.loadAll m o k :=
  R.loadAll_congr fun i hi => by
    rw [h i (by rwa [Mem.length_bytes]), Mem.getElem_bytes]

end Record
