import Miresga.Lib.Store

/-!
# Lib — Machines, and one for each key

A machine answers an input with its next state and an output, or gets stuck.  `Machine.run` is its
run on a list of inputs, with each input next to its output.

`Product.step` is a family of machines, one for each key, of which each input moves the one that
owns it.  A run of the family is nothing but the runs of its machines: seen at a key it is the run
of that machine on the inputs it owns (`run_at`), and runs of the machines make up one of the family
(`run_of_at`).  So the order in which inputs of different keys come makes no difference
(`run_shuffle`).
-/

namespace Machine

variable {L Q Q' O : Type}

/-- The run of a machine: its last state, and the inputs with their outputs. -/
def run (f : L → Q → Option (Q × O)) : List L → Q → Option (Q × List (L × O))
  | [], q => some (q, [])
  | l :: ls, q => (f l q).bind fun r => (run f ls r.1).map fun e => (e.1, (l, r.2) :: e.2)

variable {f : L → Q → Option (Q × O)}

theorem run_cons {l : L} {ls : List L} {q q' : Q} {tr : List (L × O)} :
    run f (l :: ls) q = some (q', tr) ↔
      ∃ q₁ o tr₁, f l q = some (q₁, o) ∧ run f ls q₁ = some (q', tr₁) ∧ tr = (l, o) :: tr₁ := by
  constructor
  · intro h
    obtain ⟨⟨q₁, o⟩, hf, h⟩ := Option.bind_eq_some_iff.mp h
    obtain ⟨⟨q₂, tr₁⟩, hr, h⟩ := Option.map_eq_some_iff.mp h
    cases h
    exact ⟨q₁, o, tr₁, hf, hr, rfl⟩
  · rintro ⟨q₁, o, tr₁, hf, hr, rfl⟩
    simp only [run, hf, Option.bind_some, hr, Option.map_some]

/-- One input more. -/
theorem run_snoc {l : L} {ls : List L} {q q₁ q' : Q} {tr : List (L × O)} {o : O}
    (h : run f ls q = some (q₁, tr)) (hl : f l q₁ = some (q', o)) :
    run f (ls ++ [l]) q = some (q', tr ++ [(l, o)]) := by
  induction ls generalizing q tr with
  | nil =>
      cases h
      exact run_cons.mpr ⟨q', o, [], hl, rfl, rfl⟩
  | cons l' ls ih =>
      obtain ⟨q₂, o', tr₂, hf, hr, rfl⟩ := run_cons.mp h
      exact run_cons.mpr ⟨q₂, o', _, hf, ih hr, rfl⟩

/-- The inputs of a run. -/
theorem run_inputs {ls : List L} {q q' : Q} {tr : List (L × O)} (h : run f ls q = some (q', tr)) :
    tr.map Prod.fst = ls := by
  induction ls generalizing q tr with
  | nil =>
      cases h
      rfl
  | cons l ls ih =>
      obtain ⟨q₂, o, tr₂, -, hr, rfl⟩ := run_cons.mp h
      exact congrArg (l :: ·) (ih hr)

/-- Every input was answered in some state. -/
theorem run_mem {ls : List L} {q q' : Q} {tr : List (L × O)} (h : run f ls q = some (q', tr))
    {x : L × O} (hx : x ∈ tr) : ∃ q₁ q₂, f x.1 q₁ = some (q₂, x.2) := by
  induction ls generalizing q tr with
  | nil =>
      cases h
      cases hx
  | cons l ls ih =>
      obtain ⟨q₂, o, tr₂, hf, hr, rfl⟩ := run_cons.mp h
      rcases List.mem_cons.mp hx with rfl | hx
      · exact ⟨q, q₂, hf⟩
      · exact ih hr hx

/-- What every step keeps of the state, and what it then makes of its input. -/
theorem run_inv {I : Q → Prop} {P : L → Prop} {G : L → O → Prop}
    (hI : ∀ l q q' o, I q → P l → f l q = some (q', o) → I q' ∧ G l o) {ls : List L}
    (hP : ∀ l ∈ ls, P l) {q q' : Q} {tr : List (L × O)} (h : run f ls q = some (q', tr))
    (h₀ : I q) : I q' ∧ ∀ x ∈ tr, G x.1 x.2 := by
  induction ls generalizing q tr with
  | nil =>
      cases h
      exact ⟨h₀, fun x hx => absurd hx List.not_mem_nil⟩
  | cons l ls ih =>
      obtain ⟨q₂, o, tr₂, hf, hr, rfl⟩ := run_cons.mp h
      obtain ⟨h₂, hG⟩ := hI l q q₂ o h₀ (hP l List.mem_cons_self) hf
      obtain ⟨h', hG'⟩ := ih (fun l' hl => hP l' (List.mem_cons_of_mem _ hl)) hr h₂
      exact ⟨h', List.forall_mem_cons.mpr ⟨hG, hG'⟩⟩

/-- A run that gets through answers the input behind each of its beginnings. -/
theorem run_next {ls ls' : List L} {l : L} {q q₁ q' : Q} {tr tr₁ : List (L × O)}
    (h : run f (ls ++ l :: ls') q = some (q', tr)) (h₁ : run f ls q = some (q₁, tr₁)) :
    f l q₁ ≠ none := by
  induction ls generalizing q tr tr₁ with
  | nil =>
      cases h₁
      obtain ⟨q₂, o, -, hf, -⟩ := run_cons.mp h
      rw [hf]
      exact Option.some_ne_none _
  | cons l' ls ih =>
      obtain ⟨q₂, o, tr₂, hf, hr, -⟩ := run_cons.mp h
      obtain ⟨q₃, o', tr₃, hf', hr', -⟩ := run_cons.mp h₁
      cases hf.symm.trans hf'
      exact ih hr hr'

/-- A machine that takes the same steps as long as `I` holds of its states and `P` of its inputs. -/
theorem run_congr {g : L → Q → Option (Q × O)} {I : Q → Prop} {P : L → Prop}
    (hI : ∀ l q q' o, I q → P l → f l q = some (q', o) → I q')
    (hg : ∀ l q, I q → P l → f l q = g l q) {ls : List L} (hP : ∀ l ∈ ls, P l) {q : Q}
    (h₀ : I q) : run f ls q = run g ls q := by
  induction ls generalizing q with
  | nil => rfl
  | cons l ls ih =>
      have hl := hP l List.mem_cons_self
      simp only [run, hg l q h₀ hl]
      cases hf : g l q with
      | none => rfl
      | some r =>
          have hr := hI l q r.1 r.2 h₀ hl ((hg l q h₀ hl).trans hf)
          simp only [Option.bind_some, ih (fun l' h' => hP l' (List.mem_cons_of_mem _ h')) hr]

end Machine

namespace Product

open Machine

variable {K L Q O : Type} [DecidableEq K]

/-- The machine that owns the input takes it; the others stay as they are. -/
def step (own : L → K) (f : K → L → Q → Option (Q × O)) (l : L) (m : K → Q) :
    Option ((K → Q) × O) :=
  (f (own l) l (m (own l))).map fun r => (upd m (own l) r.1, r.2)

variable {own : L → K} {f : K → L → Q → Option (Q × O)}

theorem step_eq_some {l : L} {m m' : K → Q} {o : O} :
    step own f l m = some (m', o) ↔
      ∃ q, f (own l) l (m (own l)) = some (q, o) ∧ m' = upd m (own l) q := by
  constructor
  · intro h
    obtain ⟨⟨q, o⟩, hf, h⟩ := Option.map_eq_some_iff.mp h
    cases h
    exact ⟨q, hf, rfl⟩
  · rintro ⟨q, hf, rfl⟩
    simp only [step, hf, Option.map_some]

/-- **A run seen at a key** is the run of that key's machine on its inputs. -/
theorem run_at {ls : List L} {m m' : K → Q} {tr : List (L × O)}
    (h : run (step own f) ls m = some (m', tr)) (k : K) :
    run (f k) (ls.filter (own · = k)) (m k) = some (m' k, tr.filter (own ·.1 = k)) := by
  induction ls generalizing m tr with
  | nil =>
      cases h
      rfl
  | cons l ls ih =>
      obtain ⟨m₁, o, tr₁, hs, hr, rfl⟩ := run_cons.mp h
      obtain ⟨q, hf, rfl⟩ := step_eq_some.mp hs
      have hk := ih hr
      by_cases e : own l = k
      · subst e
        rw [upd_same] at hk
        rw [List.filter_cons_of_pos (by simp), List.filter_cons_of_pos (by simp)]
        exact run_cons.mpr ⟨q, o, _, hf, hk, rfl⟩
      · rw [upd_other _ _ _ (Ne.symm e)] at hk
        rw [List.filter_cons_of_neg (by simpa using e), List.filter_cons_of_neg (by simpa using e)]
        exact hk

/-- **Runs of all machines** make up a run of the family. -/
theorem run_of_at {ls : List L} {m m' : K → Q} {tr : List (L × O)} (ht : tr.map Prod.fst = ls)
    (h : ∀ k, run (f k) (ls.filter (own · = k)) (m k) = some (m' k, tr.filter (own ·.1 = k))) :
    run (step own f) ls m = some (m', tr) := by
  induction tr generalizing ls m with
  | nil =>
      subst ht
      have hm : m = m' := by
        funext k
        have hk := h k
        simp only [List.map_nil, List.filter_nil, run, Option.some.injEq, Prod.mk.injEq] at hk
        exact hk.1
      rw [hm]
      rfl
  | cons x tr ih =>
      obtain ⟨l, o⟩ := x
      subst ht
      -- the owner's run starts with this input
      have hl := h (own l)
      rw [List.map_cons, List.filter_cons_of_pos (by simp), List.filter_cons_of_pos (by simp)] at hl
      obtain ⟨q, o', tr', hf, hr, he⟩ := run_cons.mp hl
      cases he
      refine run_cons.mpr ⟨upd m (own l) q, o, tr, step_eq_some.mpr ⟨q, hf, rfl⟩, ?_, rfl⟩
      refine ih rfl fun k => ?_
      by_cases e : own l = k
      · subst e
        rwa [upd_same]
      · have hk := h k
        rw [List.map_cons, List.filter_cons_of_neg (by simpa using e),
          List.filter_cons_of_neg (by simpa using e)] at hk
        rwa [upd_other _ _ _ (Ne.symm e)]

/-- Outputs given for each key come in the order of the inputs. -/
theorem exists_merge (own : L → K) (ls : List L) {t : K → List (L × O)}
    (h : ∀ k, (t k).map Prod.fst = ls.filter (own · = k)) :
    ∃ tr : List (L × O), tr.map Prod.fst = ls ∧ ∀ k, tr.filter (own ·.1 = k) = t k := by
  induction ls generalizing t with
  | nil => exact ⟨[], rfl, fun k => (List.map_eq_nil_iff.mp (h k)).symm⟩
  | cons l ls ih =>
      have hl := h (own l)
      rw [List.filter_cons_of_pos (by simp)] at hl
      obtain ⟨x, rest, hx, rfl, hrest⟩ := List.map_eq_cons_iff.mp hl
      obtain ⟨tr, htr, hk⟩ := ih (t := upd t (own x.1) rest) fun k => by
        by_cases e : own x.1 = k
        · subst e
          rwa [upd_same]
        · rw [upd_other _ _ _ (Ne.symm e), h k, List.filter_cons_of_neg (by simpa using e)]
      refine ⟨x :: tr, by rw [List.map_cons, htr], fun k => ?_⟩
      by_cases e : own x.1 = k
      · subst e
        rw [List.filter_cons_of_pos (by simp), hk, upd_same, hx]
      · rw [List.filter_cons_of_neg (by simpa using e), hk, upd_other _ _ _ (Ne.symm e)]

/-- **The order between keys makes no difference.**  Where each key meets the same inputs in the same
order, the family gets through, ends in the same states and gives each key the same outputs. -/
theorem run_shuffle {ls ls' : List L} {m m' : K → Q} {tr : List (L × O)}
    (hls : ∀ k, ls.filter (own · = k) = ls'.filter (own · = k))
    (h : run (step own f) ls m = some (m', tr)) :
    ∃ tr', run (step own f) ls' m = some (m', tr') ∧
      ∀ k, tr'.filter (own ·.1 = k) = tr.filter (own ·.1 = k) := by
  obtain ⟨tr', ht, hk⟩ := exists_merge (O := O) own ls' (t := fun k => tr.filter (own ·.1 = k))
    fun k => by rw [← hls k, run_inputs (run_at h k)]
  refine ⟨tr', run_of_at ht fun k => ?_, hk⟩
  rw [hk, ← hls]
  exact run_at h k

end Product
