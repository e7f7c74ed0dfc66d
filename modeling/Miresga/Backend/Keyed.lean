import Miresga.Lib.Product
import Miresga.Backend.OwnConnections

/-!
# Backend — one connection does not disturb another

Both programs look up and write the two maps at the key of the frame only.  What they do with a frame
is therefore decided by that key's entries (`agentAt`, which is the agent on maps that hold the same
entries everywhere), and the agent is one machine for each key (`agent_product`).  Frames of different
keys may come in any order, from any number of queues, without a difference to either
(`agent_isolated`).
-/

namespace Miresga.Backend

/-- A key's entries in `seq_map` and `flow_map`. -/
abbrev Entries := Option (BitVec 32) × Option (BitVec 32)

/-- The entries of a key. -/
def Maps.at (m : Maps) (k : Key) : Entries := (m.seq_map k, m.flow_map k)

/-- The same entries for every key. -/
def Maps.const (q : Entries) : Maps := ⟨fun _ => q.1, fun _ => q.2⟩

/-- The key a program looks up for the frame. -/
def Event.key : Event → Key
  | .ingress f => ingressKey f.data
  | .egress f => egressKey f.data

/-- What a key's machine does with a frame. -/
def agentAt (K : Helpers) (e : Event) (q : Entries) : Entries × Out :=
  ((agent K (.const q) e).1.at e.key, (agent K (.const q) e).2)

/-- The frames of a run with what becomes of them. -/
def agentOuts (K : Helpers) (m : Maps) : List Event → List (Event × Out)
  | [] => []
  | e :: es => (e, (agent K m e).2) :: agentOuts K (agent K m e).1 es

variable (K : Helpers) {m m' : Maps} {k : Key}

/-! ### The frame's key decides -/

theorem ingress_local {f : Frame} (h : m.at (ingressKey f.data) = m'.at (ingressKey f.data)) :
    (ingress_xdp_prog K m f).action = (ingress_xdp_prog K m' f).action ∧
    (ingress_xdp_prog K m f).frame = (ingress_xdp_prog K m' f).frame ∧
    (ingress_xdp_prog K m f).maps.at (ingressKey f.data) =
      (ingress_xdp_prog K m' f).maps.at (ingressKey f.data) := by
  have hflow : m.flow_map (ingressKey f.data) = m'.flow_map (ingressKey f.data) := congrArg Prod.snd h
  unfold ingress_xdp_prog
  split_ifs
  · exact ⟨rfl, rfl, h⟩
  · exact ⟨rfl, rfl, h⟩
  · exact ⟨rfl, rfl, h⟩
  · exact ⟨rfl, rfl, h⟩
  · exact ⟨rfl, rfl, h⟩
  unfold ingress_tcp
  dsimp only
  rw [hflow]
  cases m'.flow_map (ingressKey f.data) with
  | some diff =>
      dsimp only
      cases hj : option_chain (f.data.st32 42 (htonl (ntohl (recv_ack f.data) + diff))) f.data_end with
      | drop | out => exact ⟨rfl, rfl, h⟩
      | sack_out opt =>
          dsimp only
          split_ifs
          · exact ⟨rfl, rfl, h⟩
          · split
            · exact ⟨rfl, rfl, h⟩
            · exact ⟨rfl, rfl, h⟩
      | next => exact absurd hj (option_chain_ne_next _ _)
  | none =>
      dsimp only
      split_ifs
      · exact ⟨rfl, rfl, h⟩
      · refine ⟨rfl, rfl, ?_⟩
        simp only [Maps.at, ingress_out, upd_same, hflow]

theorem egress_local {f : Frame} (h : m.at (egressKey f.data) = m'.at (egressKey f.data)) :
    (egress_tc_prog K m f).action = (egress_tc_prog K m' f).action ∧
    (egress_tc_prog K m f).frame = (egress_tc_prog K m' f).frame ∧
    (egress_tc_prog K m f).maps.at (egressKey f.data) =
      (egress_tc_prog K m' f).maps.at (egressKey f.data) := by
  have hflow : m.flow_map (egressKey f.data) = m'.flow_map (egressKey f.data) := congrArg Prod.snd h
  have hseq : m.seq_map (egressKey f.data) = m'.seq_map (egressKey f.data) := congrArg Prod.fst h
  unfold egress_tc_prog
  split_ifs
  · exact ⟨rfl, rfl, h⟩
  · exact ⟨rfl, rfl, h⟩
  · exact ⟨rfl, rfl, h⟩
  · exact ⟨rfl, rfl, h⟩
  · exact ⟨rfl, rfl, h⟩
  unfold egress_tcp
  dsimp only
  rw [hflow]
  cases m'.flow_map (egressKey f.data) with
  | some diff =>
      refine ⟨rfl, rfl, ?_⟩
      dsimp only
      split_ifs
      · simp only [Maps.at, upd_same]
      · exact h
  | none =>
      dsimp only
      split_ifs
      · exact ⟨rfl, rfl, h⟩
      · rw [hseq]
        cases m'.seq_map (egressKey f.data) with
        | none => exact ⟨rfl, rfl, h⟩
        | some f_seq =>
            refine ⟨rfl, rfl, ?_⟩
            simp only [Maps.at, upd_same, hseq]

/-- **The entries of the frame's key decide** what becomes of the frame and of these entries. -/
theorem agent_local {e : Event} (h : m.at e.key = m'.at e.key) :
    (agent K m e).2 = (agent K m' e).2 ∧
      (agent K m e).1.at e.key = (agent K m' e).1.at e.key := by
  cases e with
  | ingress f =>
      obtain ⟨ha, hf, hm⟩ := ingress_local K h
      exact ⟨by simp only [agent, ha, hf], hm⟩
  | egress f =>
      obtain ⟨ha, hf, hm⟩ := egress_local K h
      exact ⟨by simp only [agent, ha, hf], hm⟩

/-- Another key's entries stay. -/
theorem agent_at_other {e : Event} (h : e.key ≠ k) : (agent K m e).1.at k = m.at k := by
  have hne : ¬ e.Of k := by
    cases e with
    | ingress f => exact fun hf => h hf.2
    | egress f => exact fun hf => h hf.2
  obtain ⟨h₁, h₂⟩ := agent_other K (m := m) hne
  exact Prod.ext h₁ h₂

/-! ### One machine for each key -/

/-- The family of the keys' machines. -/
def agentMachines : Event → (Key → Entries) → Option ((Key → Entries) × Out) :=
  Product.step Event.key fun _ e q => some (agentAt K e q)

/-- **The agent is one machine for each key.** -/
theorem agent_product (e : Event) :
    agentMachines K e m.at = some ((agent K m e).1.at, (agent K m e).2) := by
  have hloc : (agent K m e).2 = (agent K (.const (m.at e.key)) e).2 ∧
      (agent K m e).1.at e.key = (agent K (.const (m.at e.key)) e).1.at e.key := agent_local K rfl
  refine congrArg some (Prod.ext ?_ hloc.1.symm)
  funext k
  by_cases hk : k = e.key
  · subst hk
    exact (upd_same ..).trans hloc.2.symm
  · exact (upd_other _ _ _ hk).trans (agent_at_other K (Ne.symm hk)).symm

theorem agent_run (es : List Event) :
    Machine.run (agentMachines K) es m.at = some ((agentRun K m es).at, agentOuts K m es) := by
  induction es generalizing m with
  | nil => rfl
  | cons e es ih => exact Machine.run_cons.mpr ⟨_, _, _, agent_product K e, ih, rfl⟩

/-- **Isolation.**  Two runs in which a key starts with the same entries and meets the same frames in
the same order, whatever the frames of other keys between and whatever their entries, treat the key's
frames alike and leave it the same entries. -/
theorem agent_isolated {es es' : List Event} (hm : m.at k = m'.at k)
    (hk : es.filter (·.key = k) = es'.filter (·.key = k)) :
    (agentRun K m es).at k = (agentRun K m' es').at k ∧
      (agentOuts K m es).filter (·.1.key = k) = (agentOuts K m' es').filter (·.1.key = k) := by
  have h := agent_run K (m := m) es
  have h' := agent_run K (m := m') es'
  rw [agentMachines] at h h'
  replace h := Product.run_at h k
  replace h' := Product.run_at h' k
  rw [hm, hk, h'] at h
  simp only [Option.some.injEq, Prod.mk.injEq] at h
  exact ⟨h.1.symm, h.2.symm⟩

/-- Maps that know the backend's own connection. -/
def sampleOthers : Maps := ⟨upd (fun _ => none) sampleRemoteKey (some 7), fun _ => none⟩

/-- A SYN and its answer, with the frames of the backend's own connection between. -/
def sampleInterleaved : List Event :=
  [.ingress sampleSyn, .egress sampleOwnSyn, .egress sampleSynAck, .ingress sampleOwnSynAck]

/-- The SYN and its answer alone. -/
def sampleAlone : List Event := [.ingress sampleSyn, .egress sampleSynAck]

theorem agent_isolated_sample :
    (agentRun .kernel .empty sampleInterleaved).at sampleKey =
        (agentRun .kernel sampleOthers sampleAlone).at sampleKey ∧
      (agentOuts .kernel .empty sampleInterleaved).filter (·.1.key = sampleKey) =
        (agentOuts .kernel sampleOthers sampleAlone).filter (·.1.key = sampleKey) := by
  refine agent_isolated .kernel (by decide +kernel) ?_
  have h₁ : (Event.ingress sampleSyn).key = sampleKey := by decide +kernel
  have h₂ : (Event.egress sampleSynAck).key = sampleKey := by decide +kernel
  have h₃ : (Event.egress sampleOwnSyn).key ≠ sampleKey := by decide +kernel
  have h₄ : (Event.ingress sampleOwnSynAck).key ≠ sampleKey := by decide +kernel
  simp only [sampleInterleaved, sampleAlone, List.filter_cons, List.filter_nil, h₁, h₂, h₃, h₄,
    decide_true, decide_false, if_true, Bool.false_eq_true, if_false]

end Miresga.Backend
