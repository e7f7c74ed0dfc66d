import Mathlib.Data.Finset.Card
import Mathlib.Tactic
import Miresga.Lib.Store

/-!
# Lib — Maps of bounded size

A `Capped` map holds at most `cap` entries: an update of a key that is not there fails once it is
full and leaves the map as it is.  The set of keys and the bound are part of the map.
-/

/-- A map of at most `cap` entries. -/
structure Capped (K V : Type) (cap : Nat) where
  get : K → Option V
  keys : Finset K
  mem_keys : ∀ k, k ∈ keys ↔ (get k).isSome = true
  card_le : keys.card ≤ cap

namespace Capped

variable {K V : Type} {cap : Nat}

def empty : Capped K V cap :=
  ⟨fun _ => none, ∅, fun k => by simp, Nat.zero_le _⟩

/-- `k` is there, or there is room for it. -/
def Room (m : Capped K V cap) (k : K) : Prop := k ∈ m.keys ∨ m.keys.card < cap

theorem get_eq_none (m : Capped K V cap) {k : K} : m.get k = none ↔ k ∉ m.keys := by
  rw [m.mem_keys, Bool.not_eq_true, Option.isSome_eq_false_iff, Option.isNone_iff_eq_none]

/-- There is no room in a full map only. -/
theorem full_of_no_room {m : Capped K V cap} {k : K} (h : ¬ m.Room k) : m.keys.card = cap := by
  rw [Room, not_or] at h
  exact le_antisymm m.card_le (Nat.le_of_not_lt h.2)

/-- A map with all keys of a full one is full. -/
theorem full_of_subset {m m' : Capped K V cap} (h : m.keys ⊆ m'.keys) (hm : m.keys.card = cap) :
    m'.keys = m.keys :=
  (Finset.eq_of_subset_of_card_le h (hm.symm ▸ m'.card_le)).symm

variable [DecidableEq K]

instance (m : Capped K V cap) (k : K) : Decidable (m.Room k) := inferInstanceAs (Decidable (_ ∨ _))

/-- The entry of `k` is set, unless there is no room for it. -/
def update (m : Capped K V cap) (k : K) (v : V) : Capped K V cap :=
  if h : m.Room k then
    { get := upd m.get k (some v)
      keys := insert k m.keys
      mem_keys := fun k' => by
        by_cases e : k' = k
        · simp [e]
        · rw [upd_other _ _ _ e, Finset.mem_insert, m.mem_keys]
          simp [e]
      card_le := by
        rcases h with h | h
        · rw [Finset.insert_eq_of_mem h]
          exact m.card_le
        · exact (Finset.card_insert_le _ _).trans h }
  else m

/-- The entry of `k` is taken out. -/
def delete (m : Capped K V cap) (k : K) : Capped K V cap where
  get := upd m.get k none
  keys := m.keys.erase k
  mem_keys k' := by
    by_cases e : k' = k
    · simp [e]
    · rw [upd_other _ _ _ e, Finset.mem_erase, m.mem_keys]
      simp [e]
  card_le := (Finset.card_erase_le).trans m.card_le

variable {m : Capped K V cap} {k : K}

theorem update_get (h : m.Room k) (v : V) : (m.update k v).get = upd m.get k (some v) := by
  rw [update, dif_pos h]

theorem update_keys (h : m.Room k) (v : V) : (m.update k v).keys = insert k m.keys := by
  rw [update, dif_pos h]

/-- No room, no update. -/
theorem update_full (h : ¬ m.Room k) (v : V) : m.update k v = m := dif_neg h

theorem keys_subset_update (v : V) : m.keys ⊆ (m.update k v).keys := by
  by_cases h : m.Room k
  · rw [update_keys h]
    exact Finset.subset_insert _ _
  · rw [update_full h]

theorem update_keys_subset (v : V) : (m.update k v).keys ⊆ insert k m.keys := by
  by_cases h : m.Room k
  · rw [update_keys h]
  · rw [update_full h]
    exact Finset.subset_insert _ _

@[simp] theorem delete_get (m : Capped K V cap) (k : K) : (m.delete k).get = upd m.get k none := rfl

@[simp] theorem delete_keys (m : Capped K V cap) (k : K) : (m.delete k).keys = m.keys.erase k := rfl

/-- A map whose keys are among those of another map of the same size has room for each of these. -/
theorem room_of_subset {W : Type} {m' : Capped K W cap} (h : m.keys ⊆ m'.keys) (hk : k ∈ m'.keys) :
    m.Room k := by
  by_cases hm : k ∈ m.keys
  · exact .inl hm
  · have hss : m.keys ⊂ m'.keys := ⟨h, fun hs => hm (hs hk)⟩
    exact .inr ((Finset.card_lt_card hss).trans_le m'.card_le)

end Capped
