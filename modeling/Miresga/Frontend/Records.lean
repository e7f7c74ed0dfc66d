import Miresga.Frontend.Run

/-!
# Frontend — what holds of every record in the table

`Records P s` says that `P` holds of every record the flow table leads to.  A property that a flow
keeps when its backend answers (`Lasting`) holds along a run if it holds of the records the run makes
(`Records.transition`).  Nothing is assumed of the allocator: a record that was released while still
in the table either keeps its contents or becomes a new record.
-/

namespace Miresga.Frontend

/-- `P` holds of every record in the table. -/
def Records (P : FlowData → Prop) (s : Shared) : Prop :=
  ∀ k a, s.flow_hash_map k = some a → P (s.flow a)

/-- A record keeps `P` when its backend answers. -/
def Lasting (P : FlowData → Prop) : Prop :=
  ∀ f st, st = .OFFLOAD ∨ st = .COMPLETE → P f → P { f with state := st }

namespace Records

variable {P : FlowData → Prop} {rc : RuleController} {mem : Alloc} {p : Mbuf} {s s' : Shared}
  {a : Addr} {c : Client} {data : MyData} {cs : List Call}

theorem initial (h : Initial s) : Records P s := fun k a e => by
  rw [h.table] at e
  cases e

/-- The table loses entries at most, and a record that changes gets `P` anew. -/
theorem mono (h : Records P s)
    (ht : ∀ k b, s'.flow_hash_map k = some b → s.flow_hash_map k = some b)
    (hf : ∀ b, s'.flow b = s.flow b ∨ (P (s.flow b) → P (s'.flow b))) : Records P s' := by
  intro k b e
  have hb := h k b (ht k b e)
  rcases hf b with hf | hf
  · rw [hf]
    exact hb
  · exact hf hb

theorem set_state (hP : Lasting P) (h : Records P s) (a : Addr) {st : FlowState}
    (hst : st = .OFFLOAD ∨ st = .COMPLETE) : Records P (s.set_state a st) := by
  refine h.mono (fun _ _ e => e) fun b => ?_
  by_cases hb : b = a
  · subst hb
    right
    rw [set_state_flow_same]
    exact hP _ st hst
  · left
    exact set_state_flow_other _ _ _ hb

theorem close (h : Records P s) (c : Client) (a : Addr) : Records P (s.close c a) := by
  refine h.mono (fun k b e => ?_) fun b => .inl ?_
  · by_cases hk : k = c.slot
    · subst hk
      rw [Shared.close, release_table, erase_same] at e
      cases e
    · rwa [Shared.close, release_table, erase_other _ _ hk, unoffload_table] at e
  · rw [Shared.close, release_flow]
    exact unoffload_flow ..

theorem move {q : Addr} (h : Records P s) (hnew : P (Shared.await data q p))
    (hm : s.move a data q p = some s') : Records P s' := by
  obtain ⟨-, ht, -, hfl, -⟩ := move_eq_some hm
  refine h.mono (fun k b e => by rwa [ht] at e) fun b => ?_
  by_cases hb : b = a
  · right
    rw [hb, Shared.flow, Shared.flow, hfl, Heap.put_cell_same]
    exact fun _ => hnew
  · left
    rw [Shared.flow, hfl, Heap.put_cell_other _ hb, Shared.flow]

/-- What `create` does, whether the client has an entry or not. -/
theorem create_cases (hc : s.create c data mem p = some s') :
    s'.flows.cell = upd s.flows.cell mem.flow_data (Shared.await data mem.recv_pkt p) ∧
      (s'.flow_hash_map = s.flow_hash_map ∨
        s'.flow_hash_map = upd s.flow_hash_map c.slot (some mem.flow_data)) := by
  unfold Shared.create Shared.cache at hc
  split at hc
  · cases hc
  next f hf =>
    obtain ⟨-, rfl⟩ := Heap.malloc_eq_some hf
    split at hc
    · cases hc
    next t ht =>
      split at ht
      · cases ht
      · cases ht
        cases hc
        unfold Shared.insert
        split
        · exact ⟨rfl, .inl rfl⟩
        · exact ⟨rfl, .inr rfl⟩

theorem create (h : Records P s) (hnew : P (Shared.await data mem.recv_pkt p))
    (hc : s.create c data mem p = some s') : Records P s' := by
  obtain ⟨hcell, ht⟩ := create_cases hc
  intro k b e
  by_cases hb : b = mem.flow_data
  · rw [hb, Shared.flow, hcell, upd_same]
    exact hnew
  · rw [Shared.flow, hcell, upd_other _ _ _ hb]
    rcases ht with ht | ht
    · rw [ht] at e
      exact h k b e
    · by_cases hk : k = c.slot
      · rw [ht, hk, upd_same] at e
        exact absurd (Option.some.inj e).symm hb
      · rw [ht, upd_other _ _ _ hk] at e
        exact h k b e

/-- **Every transition keeps a lasting property of the records**, if the record it makes has it. -/
theorem transition (hP : Lasting P) (h : Records P s)
    (hnew : ∀ data, rule rc p = some data → P (Shared.await data mem.recv_pkt p))
    (ht : Transition rc mem p s s' cs) : Records P s' := by
  cases ht with
  | ignored | fin_unsent | forward | serve | resyn | reply => exact h
  | @offload a => exact set_state hP h a (.inl rfl)
  | @unoffload a => exact set_state hP h a (.inr rfl)
  | @move a _ _ _ _ hr hm =>
      have h' : Records P (s.unoffload (srcClient p.data) a) :=
        h.mono (fun k b e => by rwa [unoffload_table] at e) fun b => .inl (unoffload_flow ..)
      exact h'.move (hnew _ hr) hm
  | @close_client a => exact h.close _ a
  | @close_backend a => exact h.close _ a
  | @abandon a =>
      exact h.mono (fun k b e => by rwa [release_table] at e) fun b => .inl (release_flow ..)
  | @syn_ack a =>
      unfold Shared.establish
      dsimp only
      split
      · exact set_state hP h a (.inl rfl)
      · exact set_state hP h a (.inr rfl)
  | create _ hr hc => exact h.create (hnew _ hr) hc

end Records

/-- A step puts one new key into the table at most: the sender's, for a URL that has a rule. -/
theorem Transition.keys {rc : RuleController} {mem : Alloc} {p : Mbuf} {s s' : Shared}
    {cs : List Call} (hs : Sound s) (h : Transition rc mem p s s' cs) {k : Slot}
    (hk : s'.flow_hash_map k ≠ none) :
    (k = (srcClient p.data).slot ∧ rule rc p ≠ none) ∨ s.flow_hash_map k ≠ none := by
  have erased : ∀ {c : Client} {a : Addr}, (s.close c a).flow_hash_map k ≠ none →
      s.flow_hash_map k ≠ none := fun {c a} hk => by
    rw [Shared.close, release_table] at hk
    by_cases hc : k = c.slot
    · subst hc
      rw [erase_same] at hk
      exact absurd rfl hk
    · rwa [erase_other _ _ hc, unoffload_table] at hk
  cases h with
  | ignored | fin_unsent | forward | serve | resyn | reply => exact .inr hk
  | offload | unoffload => exact .inr hk
  | move _ _ _ hm =>
      obtain ⟨-, ht, -⟩ := move_eq_some hm
      rw [ht, unoffload_table] at hk
      exact .inr hk
  | close_client | close_backend => exact .inr (erased hk)
  | abandon =>
      rw [release_table] at hk
      exact .inr hk
  | syn_ack =>
      unfold Shared.establish at hk
      dsimp only at hk
      split at hk <;> exact .inr hk
  | create hn hr hc =>
      obtain ⟨-, -, ht, -⟩ := create_eq_some hc (hs.find_none hn)
      by_cases hc : k = (srcClient p.data).slot
      · exact .inl ⟨hc, by rw [hr]; simp⟩
      · rw [ht, upd_other _ _ _ hc] at hk
        exact .inr hk

end Miresga.Frontend
