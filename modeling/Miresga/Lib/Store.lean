import Mathlib.Tactic

/-!
# Lib — Maps and an explicit heap

`upd` overwrites a function at one argument.  It is `Function.update` for a codomain that does not
depend on the argument, written without a cast, so that tables built with it evaluate.

The heap holds blocks of one type at addresses.  `live` says which blocks are allocated and not
yet released.  The contents of a block stay after its release until the block is handed out again,
so that a program which follows a dangling pointer reads what was there.  That is an assumption on
the allocator, which promises nothing about a released block: what is proved of a program after it
has followed such a pointer holds for allocators that leave released blocks as they are.

A table that refuses a key it has is described by `foldlM_added`.

`malloc` hands out the address it is given, which an allocator may choose freely among those that
are not live; `free` of a block that is not live is recorded in `double`.
-/

/-- `f` with the value `b` at `a`. -/
def upd {α β : Type} [DecidableEq α] (f : α → β) (a : α) (b : β) : α → β :=
  fun x => if x = a then b else f x

section upd

variable {α β : Type} [DecidableEq α] (f : α → β) (a : α) (b : β)

@[simp] theorem upd_same : upd f a b a = b := if_pos rfl

theorem upd_other {x : α} (h : x ≠ a) : upd f a b x = f x := if_neg h

theorem upd_self : upd f a (f a) = f := by
  funext x
  by_cases h : x = a
  · rw [h, upd_same]
  · rw [upd_other _ _ _ h]

/-- Entries put in one after the other: the last one of a key wins. -/
theorem foldl_upd {γ : Type} (key : γ → α) (val : γ → β) (l : List γ) (m : α → Option β) (k : α) :
    l.foldl (fun m x => upd m (key x) (some (val x))) m k =
      ((l.reverse.find? (key · = k)).map val).or (m k) := by
  induction l using List.reverseRecOn generalizing m with
  | nil => rfl
  | append_singleton l x ih =>
      rw [List.foldl_append, List.foldl_cons, List.foldl_nil, List.reverse_append,
        List.reverse_singleton, List.singleton_append]
      by_cases h : key x = k
      · rw [← h, upd_same, List.find?_cons_of_pos (by simp)]
        rfl
      · rw [upd_other _ _ _ (Ne.symm h), List.find?_cons_of_neg (by simpa using h), ih]

end upd

/-! ### Tables that refuse a key twice -/

/-- If every add that succeeds puts a new entry in, a list of adds that succeeds has distinct keys,
and the table has its entries besides those it had. -/
theorem foldlM_added {K V E : Type} [DecidableEq K] {add : (K → Option V) → E → Option (K → Option V)}
    (key : E → K) (val : E → V)
    (hadd : ∀ t e t', add t e = some t' → t (key e) = none ∧ t' = upd t (key e) (some (val e)))
    {es : List E} {t₀ t : K → Option V} (h : es.foldlM add t₀ = some t) :
    (es.map key).Nodup ∧ (∀ e ∈ es, t₀ (key e) = none) ∧
      ∀ k v, t k = some v ↔ t₀ k = some v ∨ ∃ e ∈ es, key e = k ∧ val e = v := by
  induction es generalizing t₀ with
  | nil =>
      cases h
      simp
  | cons e es ih =>
      rw [List.foldlM_cons] at h
      obtain ⟨t₁, h₁, h⟩ := Option.bind_eq_some_iff.mp h
      obtain ⟨hnew, rfl⟩ := hadd _ _ _ h₁
      obtain ⟨hnodup, hfresh, hlook⟩ := ih h
      -- a later entry has another key, since its add found none
      have hne : ∀ e' ∈ es, key e' ≠ key e := fun e' he' hk => by
        have := hfresh e' he'
        rw [hk, upd_same] at this
        cases this
      refine ⟨?_, ?_, fun k v => ?_⟩
      · rw [List.map_cons, List.nodup_cons]
        refine ⟨fun hm => ?_, hnodup⟩
        obtain ⟨e', he', hk⟩ := List.mem_map.mp hm
        exact hne e' he' hk
      · intro e' he'
        rcases List.mem_cons.mp he' with rfl | he'
        · exact hnew
        · have := hfresh e' he'
          rwa [upd_other _ _ _ (hne e' he')] at this
      · rw [hlook, List.exists_mem_cons_iff]
        by_cases hk : key e = k
        · subst hk
          simp [hnew]
        · rw [upd_other _ _ _ (Ne.symm hk)]
          simp [hk]

/-- With distinct keys, it does not matter that the last entry wins. -/
theorem find?_reverse_eq_some_iff {K E : Type} [DecidableEq K] {key : E → K} {es : List E}
    (h : (es.map key).Nodup) {k : K} {e : E} :
    es.reverse.find? (fun x => decide (key x = k)) = some e ↔ e ∈ es ∧ key e = k := by
  constructor
  · intro hf
    exact ⟨List.mem_reverse.mp (List.mem_of_find?_eq_some hf), by simpa using List.find?_some hf⟩
  · rintro ⟨he, rfl⟩
    obtain ⟨e', he'⟩ : ∃ e', es.reverse.find? (fun x => decide (key x = key e)) = some e' :=
      Option.isSome_iff_exists.mp
        (List.find?_isSome.mpr ⟨e, List.mem_reverse.mpr he, decide_eq_true rfl⟩)
    have hm := List.mem_reverse.mp (List.mem_of_find?_eq_some he')
    have hk : key e' = key e := by simpa using List.find?_some he'
    rw [he', List.inj_on_of_nodup_map h hm he hk]

/-- An address of the heap. -/
abbrev Addr := Nat

/-- Blocks of `α`, with the set of live ones. -/
structure Heap (α : Type) where
  cell : Addr → α
  live : Addr → Bool
  double : Bool

namespace Heap

variable {α : Type}

/-- Nothing is allocated; the memory holds `x` everywhere. -/
def empty (x : α) : Heap α := ⟨fun _ => x, fun _ => false, false⟩

/-- Hands out `a` filled with `x`; an allocator hands out no live block. -/
def malloc (h : Heap α) (a : Addr) (x : α) : Option (Heap α) :=
  if h.live a then none
  else some { h with cell := upd h.cell a x, live := upd h.live a true }

/-- Releases `a`, whose contents are assumed to stay. -/
def free (h : Heap α) (a : Addr) : Heap α :=
  { h with live := upd h.live a false, double := h.double || !h.live a }

/-- Overwrites the contents of `a`. -/
def put (h : Heap α) (a : Addr) (x : α) : Heap α :=
  { h with cell := upd h.cell a x }

/-! ### What each operation reads back -/

@[simp] theorem free_cell (h : Heap α) (a : Addr) : (h.free a).cell = h.cell := rfl

@[simp] theorem put_live (h : Heap α) (a : Addr) (x : α) : (h.put a x).live = h.live := rfl

@[simp] theorem put_double (h : Heap α) (a : Addr) (x : α) : (h.put a x).double = h.double := rfl

@[simp] theorem put_cell_same (h : Heap α) (a : Addr) (x : α) : (h.put a x).cell a = x :=
  upd_same _ _ _

theorem put_cell_other {h : Heap α} {a b : Addr} (x : α) (hne : b ≠ a) :
    (h.put a x).cell b = h.cell b :=
  upd_other _ _ _ hne

theorem free_live_other {h : Heap α} {a b : Addr} (hne : b ≠ a) :
    (h.free a).live b = h.live b :=
  upd_other _ _ _ hne

/-- A release of a live block is no double release. -/
theorem free_double {h : Heap α} {a : Addr} (hl : h.live a = true) :
    (h.free a).double = h.double := by
  simp [free, hl]

/-- An allocation that succeeds was of a block that was not live. -/
theorem malloc_eq_some {h h' : Heap α} {a : Addr} {x : α} (hm : h.malloc a x = some h') :
    h.live a = false ∧
      h' = { h with cell := upd h.cell a x, live := upd h.live a true } := by
  unfold malloc at hm
  split at hm
  · cases hm
  · next hl => exact ⟨by simpa using hl, (Option.some.inj hm).symm⟩

end Heap
