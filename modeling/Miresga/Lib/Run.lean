import Mathlib.Data.List.Forall2
import Mathlib.Tactic

/-!
# Lib — Runs

`Steps R s ls s'` is a run of a labelled transition relation `R` from `s` to `s'` with the labels
`ls`, oldest first.  A property that every step keeps holds along every run (`Steps.inv`); a
property of the state together with the labels so far is followed by `Steps.inv_trace`.  A run
whose steps another system can match one by one is matched as a whole (`Steps.simulate`).
-/

/-- A run of `R` from `s` to `s'`, with its labels in order. -/
inductive Steps {S L : Type} (R : S → L → S → Prop) (s : S) : List L → S → Prop where
  | refl : Steps R s [] s
  | more {ls : List L} {s₁ s' : S} {l : L} (t : Steps R s ls s₁) (h : R s₁ l s') :
      Steps R s (ls ++ [l]) s'

namespace Steps

variable {S L : Type} {R : S → L → S → Prop}

/-- What every step keeps, every run keeps. -/
theorem inv {I : S → Prop} (hI : ∀ s l s', I s → R s l s' → I s') {s s' : S} {ls : List L}
    (h : Steps R s ls s') (h₀ : I s) : I s' := by
  induction h with
  | refl => exact h₀
  | more _ h ih => exact hI _ _ _ ih h

/-- The same, for a property of the state and of the labels so far. -/
theorem inv_trace {I : List L → S → Prop}
    (hI : ∀ ls s l s', I ls s → R s l s' → I (ls ++ [l]) s') {s s' : S} {ls : List L}
    (h : Steps R s ls s') (h₀ : I [] s) : I ls s' := by
  induction h with
  | refl => exact h₀
  | more _ h ih => exact hI _ _ _ _ ih h

theorem one {s s' : S} {l : L} (h : R s l s') : Steps R s [l] s' :=
  .more .refl h

/-- A run of one step. -/
theorem one_inv {s s' : S} {l : L} (h : Steps R s [l] s') : R s l s' := by
  have key : ∀ {ls s'}, Steps R s ls s' → (ls = [] → s = s') ∧ ∀ l, ls = [l] → R s l s' := by
    intro ls s' h
    induction h with
    | refl => exact ⟨fun _ => rfl, fun l he => absurd he (List.cons_ne_nil _ _).symm⟩
    | more _ h ih =>
        refine ⟨fun he => absurd he (by simp), fun l he => ?_⟩
        obtain ⟨hnil, hl⟩ := List.append_inj' (he.trans (List.nil_append [l]).symm) rfl
        rw [ih.1 hnil, ← (List.cons.inj hl).1]
        exact h
  exact (key h).2 l rfl

theorem trans {s s₁ s' : S} {ls ls' : List L} (h₁ : Steps R s ls s₁) (h₂ : Steps R s₁ ls' s') :
    Steps R s (ls ++ ls') s' := by
  induction h₂ with
  | refl => simpa using h₁
  | more _ h ih => rw [← List.append_assoc]; exact .more ih h

theorem mono {R' : S → L → S → Prop} (hR : ∀ s l s', R s l s' → R' s l s') {s s' : S}
    {ls : List L} (h : Steps R s ls s') : Steps R' s ls s' := by
  induction h with
  | refl => exact .refl
  | more _ h ih => exact .more ih (hR _ _ _ h)

/-- **Forward simulation.**  If every step can be matched, from related states to related states
and with related labels, so can every run. -/
theorem simulate {S' L' : Type} {R' : S' → L' → S' → Prop} {Rel : S → S' → Prop}
    {Out : L → L' → Prop}
    (hR : ∀ s l s₁ t, Rel s t → R s l s₁ → ∃ l' t₁, R' t l' t₁ ∧ Rel s₁ t₁ ∧ Out l l')
    {s s₁ : S} {t : S'} {ls : List L} (h : Steps R s ls s₁) (h₀ : Rel s t) :
    ∃ ls' t₁, Steps R' t ls' t₁ ∧ Rel s₁ t₁ ∧ List.Forall₂ Out ls ls' := by
  induction h with
  | refl => exact ⟨[], t, .refl, h₀, .nil⟩
  | more _ h ih =>
      obtain ⟨ls', t', ht, hr, ho⟩ := ih
      obtain ⟨l', t₁, hl, hr₁, ho₁⟩ := hR _ _ _ _ hr h
      exact ⟨ls' ++ [l'], t₁, .more ht hl, hr₁, List.rel_append ho (.cons ho₁ .nil)⟩

/-- A run of an executable step function is a run. -/
theorem of_foldlM {f : S → L → Option S} (hf : ∀ s l s', f s l = some s' → R s l s') {s s' : S}
    {ls : List L} (h : ls.foldlM f s = some s') : Steps R s ls s' := by
  induction ls generalizing s with
  | nil =>
      cases h
      exact .refl
  | cons l ls ih =>
      rw [List.foldlM_cons] at h
      obtain ⟨t, ht, h⟩ := Option.bind_eq_some_iff.mp h
      exact (one (hf _ _ _ ht)).trans (ih h)

end Steps
