import Miresga.Frontend.Ownership

/-!
# Frontend — offload accounting

Which switch entries does the front-end want?  `Shared.target` reads it off the flow table: a
client's flow in state OFFLOAD wants an entry with the flow's `d_index`, any other wants none.

Every step moves this table by at most one request (`Request`): an add for a client that had no
entry, or a delete for one that had one.  The forwarding, the error paths and the flows of other
clients do not show.  So what is enqueued for one client is a sequence of toggles (`Toggles`), and
alternation, balance and the index of the latest add are read off it.
-/

namespace Miresga.Frontend

/-- The switch entry that `c`'s flow wants. -/
def Shared.target (s : Shared) (c : Client) : Option Byte :=
  match s.find c with
  | none => none
  | some a =>
    if (s.flow a).state = .OFFLOAD then some (s.flow a).entry_data.d_index else none

/-! ### Requests -/

/-- One change of the wanted entries, with what is enqueued for it. -/
inductive Request : (Client → Option Byte) → List Enq → (Client → Option Byte) → Prop where
  | keep {T : Client → Option Byte} : Request T [] T
  | add {T : Client → Option Byte} {c : Client} {data : MyData} (h : T c = none) :
      Request T [.add ⟨c.my_key, data⟩] (upd T c (some data.d_index))
  | del {T : Client → Option Byte} {c : Client} {d : Byte} (h : T c = some d) :
      Request T [.del c.my_key] (upd T c none)

section target

variable {s s' : Shared} {c : Client} {a : Addr}

theorem target_none (h : s.find c = none) : s.target c = none := by
  simp only [Shared.target, h]

theorem target_found (h : s.find c = some a) :
    s.target c =
      if (s.flow a).state = .OFFLOAD then some (s.flow a).entry_data.d_index else none := by
  simp only [Shared.target, h]

/-- A change at one client's entry or record changes that client's target only. -/
theorem target_upd {d : Option Byte} (hfind : ∀ c', c' ≠ c → s'.find c' = s.find c')
    (hflow : ∀ c' b, c' ≠ c → s.find c' = some b → s'.flow b = s.flow b)
    (hd : s'.target c = d) : s'.target = upd s.target c d := by
  funext c'
  by_cases hc : c' = c
  · rw [hc, upd_same, hd]
  · rw [upd_other _ _ _ hc]
    cases hf : s.find c' with
    | none => rw [target_none hf, target_none ((hfind c' hc).trans hf)]
    | some b =>
        rw [target_found hf, target_found ((hfind c' hc).trans hf), hflow c' b hc hf]

/-- The records of other clients are other records. -/
theorem Sound.other (h : Sound s) (hf : s.find c = some a) {c' : Client} {b : Addr}
    (hc : c' ≠ c) (hf' : s.find c' = some b) : b ≠ a := fun e => by
  subst e
  exact hc (Client.slot_inj.mp (h.inj hf' hf))

@[simp] theorem target_unoffload : (s.unoffload c a).target = s.target := by
  unfold Shared.unoffload; split <;> rfl

@[simp] theorem target_release : (s.release a).target = s.target := by
  funext c'
  simp only [Shared.target, Shared.find, release_table, release_flow]

theorem target_set_state (h : Sound s) (hf : s.find c = some a) (st : FlowState) :
    (s.set_state a st).target =
      upd s.target c (if st = .OFFLOAD then some (s.flow a).entry_data.d_index else none) := by
  have hf' : (s.set_state a st).find c = some a := hf
  refine target_upd (fun _ _ => rfl) (fun c' b hc hb => ?_) ?_
  · exact set_state_flow_other _ _ _ (h.other hf hc hb)
  · rw [target_found hf', set_state_flow_same]

theorem target_erase : (s.erase c).target = upd s.target c none := by
  refine target_upd (fun c' hc => ?_) (fun _ _ _ _ => rfl) (target_none ?_)
  · exact erase_other _ _ fun e => hc (Client.slot_inj.mp e)
  · exact erase_same _ _

theorem target_close : (s.close c a).target = upd s.target c none := by
  rw [Shared.close, target_release, target_erase, target_unoffload]

theorem target_move (h : Sound s) (hf : s.find c = some a) {data : MyData} {q : Addr} {p : Mbuf}
    (hm : s.move a data q p = some s') : s'.target = upd s.target c none := by
  obtain ⟨-, ht, -, hfl, -⟩ := move_eq_some hm
  have find : ∀ c', s'.find c' = s.find c' := fun c' => by rw [Shared.find, ht]; rfl
  refine target_upd (fun c' _ => find c') (fun c' b hc hb => ?_) ?_
  · rw [Shared.flow, hfl, Heap.put_cell_other _ (h.other hf hc hb), Shared.flow]
  · rw [target_found ((find c).trans hf), Shared.flow, hfl, Heap.put_cell_same]
    rfl

theorem target_create {data : MyData} {mem : Alloc} {p : Mbuf} (hk : Keeps s mem)
    (hn : s.find c = none) (hc : s.create c data mem p = some s') : s'.target = s.target := by
  obtain ⟨hlf, -, ht, -, -, -, -, hcell, -⟩ := create_eq_some hc hn
  have hf : s'.find c = some mem.flow_data := by rw [Shared.find, ht, upd_same]
  rw [← upd_self s.target c]
  refine target_upd (fun c' hne => ?_) (fun c' b _ hb => ?_) ?_
  · rw [Shared.find, ht, upd_other _ _ _ fun e => hne (Client.slot_inj.mp e), Shared.find]
  · rw [Shared.flow, hcell, upd_other _ _ _ (hk.flow_fresh hlf hb), Shared.flow]
  · rw [target_found hf, target_none hn, Shared.flow, hcell, upd_same]
    rfl

/-- Where the entry is given up, the delete is enqueued exactly if there was one. -/
theorem unoffload_request (hf : s.find c = some a) :
    ∃ new, (s.unoffload c a).enqueued = s.enqueued ++ new ∧
      Request s.target new (upd s.target c none) := by
  unfold Shared.unoffload
  split
  next h =>
    refine ⟨_, rfl, .del (d := (s.flow a).entry_data.d_index) ?_⟩
    rw [target_found hf, if_pos h]
  next h =>
    refine ⟨[], by simp, ?_⟩
    have hT : s.target c = none := by rw [target_found hf, if_neg h]
    rw [← hT, upd_self]
    exact .keep

end target

/-! ### Steps make requests -/

variable {s s' : Shared} {c : Client} {a : Addr}

theorem syn_ack_request (h : Sound s) (hf : s.find c = some a)
    (hs : (s.flow a).state = .BACKEND_SYN) :
    ∃ new, (s.establish c a).enqueued = s.enqueued ++ new ∧
      Request s.target new (s.establish c a).target := by
  have hT : s.target c = none := by rw [target_found hf, hs]; rfl
  unfold Shared.establish
  dsimp only
  split
  · refine ⟨_, rfl, ?_⟩
    change Request _ _ (s.set_state a .OFFLOAD).target
    rw [target_set_state h hf]
    exact .add hT
  · refine ⟨[], by simp, ?_⟩
    rw [target_set_state h hf, if_neg nofun, ← hT, upd_self]
    exact .keep

/-- **Every transition makes at most one request**, and it is the change of the wanted entries. -/
theorem transition_request {rc : RuleController} {mem : Alloc} {p : Mbuf} {cs : List Call}
    (h : Sound s) (hk : Keeps s mem) (ht : Transition rc mem p s s' cs) :
    ∃ new, s'.enqueued = s.enqueued ++ new ∧ Request s.target new s'.target := by
  cases ht with
  | ignored | fin_unsent | forward | serve | resyn | reply =>
      exact ⟨[], by simp, .keep⟩
  | @offload a _ hf hs =>
      refine ⟨_, rfl, ?_⟩
      change Request _ _ (s.set_state a .OFFLOAD).target
      rw [target_set_state h hf, if_pos rfl]
      exact .add (by rw [target_found hf, hs]; rfl)
  | @unoffload a _ hf hs =>
      refine ⟨_, rfl, ?_⟩
      change Request _ _ (s.set_state a .COMPLETE).target
      rw [target_set_state h hf, if_neg nofun]
      exact .del (by rw [target_found hf, if_pos hs])
  | @move a data _ hf _ _ hm =>
      obtain ⟨new, he, hr⟩ := unoffload_request hf
      have hf' := (unoffload_find s (srcClient p.data) a (srcClient p.data)).trans hf
      refine ⟨new, (move_eq_some hm).2.2.1.trans he, ?_⟩
      rw [target_move (h.unoffload _ _) hf' hm, target_unoffload]
      exact hr
  | close_client hf | close_backend _ hf =>
      obtain ⟨new, he, hr⟩ := unoffload_request hf
      rw [target_close]
      exact ⟨new, by rw [Shared.close, release_enqueued]; exact he, hr⟩
  | abandon =>
      refine ⟨[], by simp, ?_⟩
      rw [target_release]
      exact .keep
  | syn_ack _ hf hs => exact syn_ack_request h hf hs
  | create hn _ hc =>
      refine ⟨[], ?_, ?_⟩
      · rw [(create_eq_some hc (h.find_none hn)).2.2.2.1, List.append_nil]
      · rw [target_create hk (h.find_none hn) hc]
        exact .keep

theorem step_request {l : Recv} (h : Sound s) (hs : KeptStep s l s') :
    ∃ new, s'.enqueued = s.enqueued ++ new ∧ Request s.target new s'.target := by
  obtain ⟨hk, cs, hs⟩ := hs
  exact transition_request h hk hs.transition

/-! ### The requests of one client -/

/-- A request, as one client sees it. -/
inductive Op where
  | add (data : MyData)
  | del
  deriving DecidableEq, Repr

/-- The request as an operation on `k`, if it is one. -/
def Enq.op (k : MyKey) : Enq → Option Op
  | .add pair => if pair.key = k then some (.add pair.data) else none
  | .del key => if key = k then some .del else none

/-- What is enqueued for `c` on the two queues, in order. -/
def ops (c : Client) (es : List Enq) : List Op := es.filterMap (Enq.op c.my_key)

section ops

variable {c c' : Client} (es es' : List Enq) (data : MyData)

@[simp] theorem ops_append : ops c (es ++ es') = ops c es ++ ops c es' := List.filterMap_append

@[simp] theorem ops_add : ops c [.add ⟨c.my_key, data⟩] = [.add data] := by simp [ops, Enq.op]

@[simp] theorem ops_del : ops c [.del c.my_key] = [.del] := by simp [ops, Enq.op]

theorem ops_add_other (h : c' ≠ c) : ops c [.add ⟨c'.my_key, data⟩] = [] := by
  simp [ops, Enq.op, Client.my_key_inj, h]

theorem ops_del_other (h : c' ≠ c) : ops c [.del c'.my_key] = [] := by
  simp [ops, Enq.op, Client.my_key_inj, h]

end ops

/-- The data of the latest add. -/
def latestAdd (os : List Op) : Option MyData :=
  (os.filterMap fun | .add data => some data | .del => none).getLast?

/-- Adds and deletes in turn, with the entry they leave. -/
inductive Toggles : List Op → Option Byte → Prop where
  | start : Toggles [] none
  | add {os : List Op} (t : Toggles os none) (data : MyData) :
      Toggles (os ++ [.add data]) (some data.d_index)
  | del {os : List Op} {d : Byte} (t : Toggles os (some d)) : Toggles (os ++ [.del]) none

namespace Toggles

variable {os : List Op} {d : Option Byte}

/-- An odd number of operations leaves an entry. -/
theorem length_odd (t : Toggles os d) : os.length % 2 = if d.isSome then 1 else 0 := by
  induction t with
  | start => rfl
  | add _ _ ih | del _ ih =>
      simp at ih ⊢
      omega

/-- The operation that comes next is the one its place asks for. -/
theorem alternate_snoc {o : Op} (ih : ∀ i e, os[i]? = some e → (e = .del ↔ i % 2 = 1))
    (ho : o = .del ↔ os.length % 2 = 1) :
    ∀ i e, (os ++ [o])[i]? = some e → (e = .del ↔ i % 2 = 1) := by
  intro i e h
  rcases Nat.lt_trichotomy i os.length with hi | rfl | hi
  · rw [List.getElem?_append_left hi] at h
    exact ih i e h
  · rw [List.getElem?_concat_length] at h
    cases h
    exact ho
  · rw [List.getElem?_eq_none (by simp; omega)] at h
    cases h

/-- **Alternation**: the operations at even places are the adds. -/
theorem alternate (t : Toggles os d) : ∀ i o, os[i]? = some o → (o = .del ↔ i % 2 = 1) := by
  induction t with
  | start => exact fun i o h => by simp at h
  | add t data ih =>
      have hl : _ % 2 = 0 := t.length_odd
      exact alternate_snoc ih (by simp [hl])
  | del t ih =>
      have hl : _ % 2 = 1 := t.length_odd
      exact alternate_snoc ih (by simp [hl])

/-- **Balance**: the adds are the deletes and one more where there is an entry. -/
theorem balance (t : Toggles os d) :
    os.countP (· ≠ .del) = os.countP (· = .del) + if d.isSome then 1 else 0 := by
  induction t with
  | start => rfl
  | add _ _ ih | del _ ih => simp at ih ⊢; omega

/-- The entry left is the latest add's. -/
theorem latest {e : Byte} (t : Toggles os d) (he : d = some e) :
    ∃ data, latestAdd os = some data ∧ data.d_index = e := by
  cases t with
  | start | del => cases he
  | add t data =>
      cases he
      exact ⟨data, by simp [latestAdd], rfl⟩

/-- What a request does for each client is at most one toggle. -/
theorem request {T T' : Client → Option Byte} {es new : List Enq} {c : Client}
    (h : Request T new T') (t : Toggles (ops c es) (T c)) : Toggles (ops c (es ++ new)) (T' c) := by
  rw [ops_append]
  cases h with
  | keep => simpa [ops] using t
  | @add c' data h =>
      by_cases hc : c' = c
      · subst hc
        rw [h] at t
        rw [ops_add, upd_same]
        exact t.add data
      · rw [ops_add_other _ hc, List.append_nil, upd_other _ _ _ (Ne.symm hc)]
        exact t
  | @del c' d h =>
      by_cases hc : c' = c
      · subst hc
        rw [h] at t
        rw [ops_del, upd_same]
        exact t.del
      · rw [ops_del_other hc, List.append_nil, upd_other _ _ _ (Ne.symm hc)]
        exact t

end Toggles

/-! ### Runs -/

/-- Along a run the enqueues of every client toggle its switch entry. -/
theorem toggles_run {s₀ s : Shared} {ls : List Recv} (h₀ : Initial s₀)
    (hr : Steps KeptStep s₀ ls s) : Sound s ∧ ∀ c, Toggles (ops c s.enqueued) (s.target c) := by
  refine hr.inv (I := fun s => Sound s ∧ ∀ c, Toggles (ops c s.enqueued) (s.target c)) ?_ ?_
  · rintro s l s' ⟨h, ht⟩ hs
    obtain ⟨new, he, hq⟩ := step_request h hs
    refine ⟨h.step hs, fun c => ?_⟩
    rw [he]
    exact (ht c).request hq
  · refine ⟨.initial h₀, fun c => ?_⟩
    rw [h₀.enqueued, target_none (h₀.table c.slot)]
    exact .start

/-- `c`'s flow is in state OFFLOAD. -/
def Shared.Offloaded (s : Shared) (c : Client) : Prop :=
  ∃ a, s.find c = some a ∧ (s.flow a).state = .OFFLOAD

theorem target_eq_some {c : Client} {d : Byte} :
    s.target c = some d ↔
      ∃ a, s.find c = some a ∧ (s.flow a).state = .OFFLOAD ∧ (s.flow a).entry_data.d_index = d := by
  cases hf : s.find c with
  | none => simp [target_none hf]
  | some a => simp [target_found hf]

theorem target_isSome {c : Client} : (s.target c).isSome = true ↔ s.Offloaded c := by
  rw [Option.isSome_iff_exists, Shared.Offloaded]
  simp only [target_eq_some]
  exact ⟨fun ⟨d, a, hf, hs, _⟩ => ⟨a, hf, hs⟩, fun ⟨a, hf, hs⟩ => ⟨_, a, hf, hs, rfl⟩⟩

/-- **Offload accounting.**  In every state of every run, for every client: its enqueues alternate,
starting with an add; there is one add more than deletes if its flow is in state OFFLOAD, and as
many otherwise; and in state OFFLOAD the latest add carries the flow's own index. -/
theorem offload_accounting {s₀ s : Shared} {ls : List Recv} (h₀ : Initial s₀)
    (hr : Steps KeptStep s₀ ls s) (c : Client) :
    (∀ i o, (ops c s.enqueued)[i]? = some o → (o = .del ↔ i % 2 = 1)) ∧
    (s.Offloaded c →
      (ops c s.enqueued).countP (· ≠ .del) = (ops c s.enqueued).countP (· = .del) + 1) ∧
    (¬ s.Offloaded c →
      (ops c s.enqueued).countP (· ≠ .del) = (ops c s.enqueued).countP (· = .del)) ∧
    (∀ a, s.find c = some a → (s.flow a).state = .OFFLOAD →
      ∃ data, latestAdd (ops c s.enqueued) = some data ∧
        data.d_index = (s.flow a).entry_data.d_index) := by
  have ht := (toggles_run h₀ hr).2 c
  refine ⟨ht.alternate, fun ho => ?_, fun ho => ?_, fun a hf hs => ?_⟩
  · rw [ht.balance, if_pos (target_isSome.mpr ho)]
  · rw [ht.balance, if_neg fun h => ho (target_isSome.mp h), Nat.add_zero]
  · exact ht.latest (target_eq_some.mpr ⟨a, hf, hs, rfl⟩)

/-- A flow that is offloaded, moved to the other server, and answered there. -/
theorem offload_accounting_sample :
    ∃ s, Steps KeptStep sampleStart sampleMoves s ∧
      ops sampleClient s.enqueued = [.add ⟨1, 1⟩, .del] ∧ ¬ s.Offloaded sampleClient ∧
      (ops sampleClient s.enqueued).countP (· ≠ .del) =
        (ops sampleClient s.enqueued).countP (· = .del) := by
  have hr : ((sampleMoves.foldlM handleTidy sampleStart).map fun s =>
      (ops sampleClient s.enqueued, s.target sampleClient)) = some ([.add ⟨1, 1⟩, .del], none) := by
    decide +kernel
  obtain ⟨s, hs, he⟩ := Option.map_eq_some_iff.mp hr
  have hr := (Tidy.kept_run sampleStart_initial
    (.of_foldlM (R := TidyStep) (fun _ _ _ => handleTidy_step) hs)).2
  rw [Prod.mk.injEq] at he
  have ho : ¬ s.Offloaded sampleClient := fun h => by
    have := target_isSome.mpr h
    rw [he.2] at this
    cases this
  exact ⟨s, hr, he.1, ho, (offload_accounting sampleStart_initial hr sampleClient).2.2.1 ho⟩

end Miresga.Frontend
