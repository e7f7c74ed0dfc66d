import Miresga.Lib.Capped
import Miresga.Backend.OwnConnections

/-!
# Backend — maps of bounded size

The two maps have room for 102400 entries each, and neither program looks at the result of an update:
a SYN that comes when `seq_map` is full is not recorded, and the frame passes as if it were.
`Event.calls` are the helper calls a program makes for a frame, in order; `Pinned` are the two maps
with a bound, and carry out the same calls as far as there is room.

* `pinned_capacity`: the keys of `flow_map` are keys of `seq_map` in every reachable state, so an
  update of `flow_map` never fails; and as long as SYNs came from at most as many keys as there is
  room for, nothing is lost, and the agent is the one with maps of any size.
* `pinned_starved`: an entry goes only with an RST that leaves.  In a run without one, a key whose SYN
  found no room finds `seq_map` full, and no segment of it is ever translated.
-/

namespace Miresga.Backend

/-! ### The calls of a program -/

/-- A call of `bpf_map_update_elem` or `bpf_map_delete_elem`. -/
inductive MapCall where
  | update_seq (k : Key) (v : BitVec 32)
  | update_flow (k : Key) (v : BitVec 32)
  | delete_flow (k : Key)
  | delete_seq (k : Key)

/-- The call on maps of any size. -/
def Maps.call (m : Maps) : MapCall → Maps
  | .update_seq k v => { m with seq_map := upd m.seq_map k (some v) }
  | .update_flow k v => { m with flow_map := upd m.flow_map k (some v) }
  | .delete_flow k => { m with flow_map := upd m.flow_map k none }
  | .delete_seq k => { m with seq_map := upd m.seq_map k none }

/-- The calls `ingress_xdp_prog` makes: it records a SYN of a key without offset. -/
def ingress_calls (m : Maps) (f : Frame) : List MapCall :=
  if f.Segment ∧ (m.flow_map (ingressKey f.data)).isNone ∧ syn f.data then
    [.update_seq (ingressKey f.data) (recv_ack f.data)]
  else []

/-- The calls `egress_tc_prog` makes: an RST of a key with an offset deletes, and a SYN-ACK of a
recorded key without offset records one. -/
def egress_calls (m : Maps) (f : Frame) : List MapCall :=
  if f.Segment then
    match m.flow_map (egressKey f.data), m.seq_map (egressKey f.data) with
    | some _, _ =>
      if rst f.data then [.delete_flow (egressKey f.data), .delete_seq (egressKey f.data)] else []
    | none, some f_seq =>
      if syn f.data && ack f.data then
        [.update_flow (egressKey f.data) (ntohl (sent_seq f.data) - ntohl f_seq)]
      else []
    | none, none => []
  else []

def Event.calls (m : Maps) : Event → List MapCall
  | .ingress f => ingress_calls m f
  | .egress f => egress_calls m f

/-- **The calls are all a program does to the maps.** -/
theorem agent_calls (K : Helpers) (m : Maps) (e : Event) :
    (agent K m e).1 = (e.calls m).foldl Maps.call m := by
  cases e with
  | ingress f =>
      simp only [agent, Event.calls, ingress_calls]
      by_cases hs : f.Segment
      · cases hd : m.flow_map (ingressKey f.data) with
        | some d => simp [(ingress_known K hs hd).1]
        | none =>
            cases hy : syn f.data with
            | false => simp [ingress_quiet K hs hd hy]
            | true => simp [(ingress_new K hs hd hy).2.2.2.2, hs, Maps.call]
      · simp [ingress_other K hs, hs]
  | egress f =>
      simp only [agent, Event.calls, egress_calls]
      by_cases hs : f.Segment
      · rw [if_pos hs]
        cases hd : m.flow_map (egressKey f.data) with
        | some d =>
            rw [(egress_known K hs hd).2.2.2.2]
            cases rst f.data <;> simp [Maps.call]
        | none =>
            cases hq : m.seq_map (egressKey f.data) with
            | none => simp [egress_quiet K hs hd (.inr hq)]
            | some a =>
                by_cases hsa : (syn f.data && ack f.data) = true
                · have h := Bool.and_eq_true_iff.mp hsa
                  rw [(egress_new K hs hd h.1 h.2 hq).2.2.2]
                  simp [h, Maps.call, seqNo]
                · rw [egress_quiet K hs hd (.inl (Bool.eq_false_of_not_eq_true hsa))]
                  simp [hsa]
      · simp [egress_other K hs, hs]

/-! ### The pinned maps -/

/-- The two maps with their bound. -/
structure Pinned (cap : Nat) where
  seq_map : Capped Key (BitVec 32) cap
  flow_map : Capped Key (BitVec 32) cap

namespace Pinned

variable {n : Nat}

def empty : Pinned n := ⟨.empty, .empty⟩

/-- What lookups find. -/
def maps (m : Pinned n) : Maps := ⟨m.seq_map.get, m.flow_map.get⟩

/-- The call, as far as there is room; its result is dropped. -/
def call (m : Pinned n) : MapCall → Pinned n
  | .update_seq k v => { m with seq_map := m.seq_map.update k v }
  | .update_flow k v => { m with flow_map := m.flow_map.update k v }
  | .delete_flow k => { m with flow_map := m.flow_map.delete k }
  | .delete_seq k => { m with seq_map := m.seq_map.delete k }

/-- One frame through its program.  The calls come after all lookups, and what becomes of the frame
does not depend on their results. -/
def agent (K : Helpers) (m : Pinned n) (e : Event) : Pinned n × Out :=
  ((e.calls m.maps).foldl call m, (Backend.agent K m.maps e).2)

def run (K : Helpers) (m : Pinned n) (es : List Event) : Pinned n :=
  es.foldl (fun m e => (m.agent K e).1) m

/-- The keys with an offset are recorded. -/
def Nested (m : Pinned n) : Prop := m.flow_map.keys ⊆ m.seq_map.keys

end Pinned

/-- What a frame does to the maps: nothing, a recorded SYN, a recorded offset, or a teardown. -/
theorem calls_cases (m : Maps) (e : Event) :
    e.calls m = [] ∨
    (∃ f, e = .ingress f ∧ Inbound (ingressKey f.data) f ∧ syn f.data = true ∧
      m.flow_map (ingressKey f.data) = none ∧
      e.calls m = [.update_seq (ingressKey f.data) (recv_ack f.data)]) ∨
    (∃ k v a, m.seq_map k = some a ∧ e.calls m = [.update_flow k v]) ∨
    (∃ f, e = .egress f ∧ Outbound (egressKey f.data) f ∧ rst f.data = true ∧
      e.calls m = [.delete_flow (egressKey f.data), .delete_seq (egressKey f.data)]) := by
  cases e with
  | ingress f =>
      simp only [Event.calls, ingress_calls]
      split_ifs with h
      · exact .inr (.inl ⟨f, rfl, ⟨h.1, rfl⟩, h.2.2, Option.isNone_iff_eq_none.mp h.2.1, rfl⟩)
      · exact .inl rfl
  | egress f =>
      simp only [Event.calls, egress_calls]
      by_cases hs : f.Segment
      · rw [if_pos hs]
        cases hd : m.flow_map (egressKey f.data) with
        | some d =>
            dsimp only
            split_ifs with hr
            · exact .inr (.inr (.inr ⟨f, rfl, ⟨hs, rfl⟩, hr, rfl⟩))
            · exact .inl rfl
        | none =>
            cases hq : m.seq_map (egressKey f.data) with
            | none => exact .inl rfl
            | some a =>
                dsimp only
                split_ifs
                · exact .inr (.inr (.inl ⟨_, _, a, hq, rfl⟩))
                · exact .inl rfl
      · rw [if_neg hs]
        exact .inl rfl

/-! ### Every run -/

/-- The key of a SYN that comes in. -/
def Event.synKey : Event → Option Key
  | .ingress f => if f.Segment ∧ syn f.data = true then some (ingressKey f.data) else none
  | .egress _ => none

/-- The keys SYNs came from. -/
def synKeys (es : List Event) : Finset Key := (es.filterMap Event.synKey).toFinset

section runs

variable (K : Helpers) {n : Nat} {m : Pinned n} {es : List Event} {e : Event} {k : Key}

theorem synKeys_snoc : synKeys es ⊆ synKeys (es ++ [e]) := by
  intro k hk
  simp only [synKeys, List.mem_toFinset, List.filterMap_append, List.mem_append] at hk ⊢
  exact .inl hk

theorem synKey_of_inbound {f : Frame} (hf : Inbound (ingressKey f.data) f) (hs : syn f.data = true) :
    (Event.ingress f).synKey = some (ingressKey f.data) := if_pos ⟨hf.1, hs⟩

theorem mem_synKeys_snoc (h : e.synKey = some k) : k ∈ synKeys (es ++ [e]) := by
  simp [synKeys, h]

theorem run_snoc : Pinned.run K m (es ++ [e]) = ((Pinned.run K m es).agent K e).1 := by
  simp [Pinned.run]

namespace Pinned

/-- An offset that is looked up, or a recorded SYN, is one of the keys. -/
theorem mem_of_seq {a : BitVec 32} (h : m.maps.seq_map k = some a) : k ∈ m.seq_map.keys := by
  rw [m.seq_map.mem_keys]
  exact Option.isSome_iff_exists.mpr ⟨a, h⟩

/-- **One frame keeps the maps nested.** -/
theorem Nested.step (h : m.Nested) (e : Event) : (m.agent K e).1.Nested := by
  show ((e.calls m.maps).foldl call m).Nested
  rcases calls_cases m.maps e with hc | ⟨f, -, -, -, -, hc⟩ | ⟨k, v, a, ha, hc⟩ | ⟨f, -, -, -, hc⟩ <;>
    rw [hc]
  · exact h
  · exact h.trans (Capped.keys_subset_update _)
  · exact (Capped.update_keys_subset v).trans (Finset.insert_subset (mem_of_seq ha) h)
  · exact Finset.erase_subset_erase _ h

theorem Nested.run (h : m.Nested) (es : List Event) : (Pinned.run K m es).Nested := by
  induction es generalizing m with
  | nil => exact h
  | cons e es ih => exact ih (h.step K e)

theorem empty_nested : (empty : Pinned n).Nested := Finset.Subset.refl _

/-- An update of `flow_map` finds room. -/
theorem Nested.room (h : m.Nested) {v : BitVec 32} (hc : .update_flow k v ∈ e.calls m.maps) :
    m.flow_map.Room k := by
  rcases calls_cases m.maps e with he | ⟨f, -, -, -, -, he⟩ | ⟨k', v', a, ha, he⟩ | ⟨f, -, -, -, he⟩ <;>
    rw [he] at hc
  · cases hc
  · simp at hc
  · simp only [List.mem_singleton, MapCall.update_flow.injEq] at hc
    rw [hc.1]
    exact Capped.room_of_subset h (mem_of_seq ha)
  · simp at hc

/-- The recorded keys are keys SYNs came from. -/
theorem keys_subset (es : List Event) :
    (Pinned.run K (empty : Pinned n) es).seq_map.keys ⊆ synKeys es := by
  induction es using List.reverseRecOn with
  | nil => exact Finset.empty_subset _
  | append_singleton es e ih =>
      rw [run_snoc]
      show ((e.calls _).foldl call _).seq_map.keys ⊆ _
      have ih' := ih.trans (synKeys_snoc (e := e))
      rcases calls_cases (Pinned.run K (empty : Pinned n) es).maps e with
        hc | ⟨f, rfl, hf, hs, -, hc⟩ | ⟨k, v, a, -, hc⟩ | ⟨f, -, -, -, hc⟩ <;> rw [hc]
      · exact ih'
      · have hk : ingressKey f.data ∈ synKeys (es ++ [.ingress f]) :=
          mem_synKeys_snoc (synKey_of_inbound hf hs)
        exact (Capped.update_keys_subset _).trans (Finset.insert_subset hk ih')
      · exact ih'
      · exact (Finset.erase_subset _ _).trans ih'

/-- **With room for every key, nothing is lost.** -/
theorem run_unbounded (es : List Event) (h : (synKeys es).card ≤ n) :
    (Pinned.run K (empty : Pinned n) es).maps = agentRun K .empty es := by
  induction es using List.reverseRecOn with
  | nil => rfl
  | append_singleton es e ih =>
      have ih := ih ((Finset.card_le_card synKeys_snoc).trans h)
      rw [run_snoc, agentRun_snoc, ← ih, agent_calls]
      have hnest := empty_nested.run K (n := n) es
      have hkeys := (keys_subset K (n := n) es).trans (synKeys_snoc (e := e))
      show ((e.calls _).foldl call _).maps = _
      revert hnest hkeys
      generalize Pinned.run K empty es = m
      intro hnest hkeys
      rcases calls_cases m.maps e with hc | ⟨f, rfl, hf, hs, -, hc⟩ | ⟨k, v, a, ha, hc⟩ |
        ⟨f, -, -, -, hc⟩ <;> rw [hc]
      · rfl
      · -- the key is there, or it is one of the keys that there is room for
        have hroom : m.seq_map.Room (ingressKey f.data) := by
          by_cases hk : ingressKey f.data ∈ m.seq_map.keys
          · exact .inl hk
          · refine .inr (lt_of_lt_of_le (Finset.card_lt_card ?_) h)
            exact ⟨hkeys, fun hs' => hk (hs' (mem_synKeys_snoc (synKey_of_inbound hf hs)))⟩
        simp only [List.foldl_cons, List.foldl_nil, call, Maps.call, maps, Capped.update_get hroom]
      · have hroom : m.flow_map.Room k := Capped.room_of_subset hnest (mem_of_seq ha)
        simp only [List.foldl_cons, List.foldl_nil, call, Maps.call, maps, Capped.update_get hroom]
      · rfl

end Pinned

/-- **Capacity.**  In every run from empty maps: the keys with an offset are recorded, so that an
update of `flow_map` always finds room; and as long as SYNs came from no more keys than there is room
for, lookups find what maps of any size would hold. -/
theorem pinned_capacity (es : List Event) :
    (Pinned.run K (Pinned.empty : Pinned n) es).Nested ∧
    (∀ (e : Event) (k : Key) (v : BitVec 32),
      .update_flow k v ∈ e.calls (Pinned.run K (Pinned.empty : Pinned n) es).maps →
      (Pinned.run K (Pinned.empty : Pinned n) es).flow_map.Room k) ∧
    ((synKeys es).card ≤ n →
      (Pinned.run K (Pinned.empty : Pinned n) es).maps = agentRun K .empty es) := by
  have hnest := Pinned.empty_nested.run K (n := n) es
  exact ⟨hnest, fun _ _ _ hc => hnest.room hc, Pinned.run_unbounded K es⟩

/-! ### A run without teardown -/

/-- No RST leaves. -/
def Unreset (es : List Event) : Prop := ∀ e ∈ es, ∀ k, ¬ e.Resets k

namespace Pinned

/-- Without an RST that leaves, every key stays. -/
theorem keys_step (he : ∀ k, ¬ e.Resets k) : m.seq_map.keys ⊆ (m.agent K e).1.seq_map.keys := by
  show _ ⊆ ((e.calls m.maps).foldl call m).seq_map.keys
  rcases calls_cases m.maps e with hc | ⟨f, -, -, -, -, hc⟩ | ⟨k, v, a, -, hc⟩ | ⟨f, rfl, hf, hr, -⟩
  · rw [hc]
    exact Finset.Subset.refl _
  · rw [hc]
    exact Capped.keys_subset_update _
  · rw [hc]
    exact Finset.Subset.refl _
  · exact absurd ⟨hf, hr⟩ (he _)

theorem keys_run (hes : Unreset es) (m : Pinned n) :
    m.seq_map.keys ⊆ (Pinned.run K m es).seq_map.keys := by
  induction es generalizing m with
  | nil => exact Finset.Subset.refl _
  | cons e es ih =>
      exact (keys_step K (hes e List.mem_cons_self)).trans
        (ih (fun e' he' => hes e' (List.mem_cons_of_mem _ he')) _)

/-- A SYN is recorded, or finds the map full. -/
theorem recorded_step (hm : m.Nested) (hk : e.synKey = some k) :
    k ∈ (m.agent K e).1.seq_map.keys ∨ m.seq_map.keys.card = n := by
  cases e with
  | egress f => cases hk
  | ingress f =>
      simp only [Event.synKey, Option.ite_none_right_eq_some, Option.some.injEq] at hk
      obtain ⟨⟨hseg, hs⟩, rfl⟩ := hk
      show _ ∈ (((Event.ingress f).calls m.maps).foldl call m).seq_map.keys ∨ _
      cases hd : m.maps.flow_map (ingressKey f.data) with
      | some d =>
          -- the key has an offset, so it is recorded
          left
          have hc : (Event.ingress f).calls m.maps = [] := by
            simp [Event.calls, ingress_calls, hd]
          rw [hc]
          refine hm ?_
          rw [m.flow_map.mem_keys]
          exact Option.isSome_iff_exists.mpr ⟨d, hd⟩
      | none =>
          have hc : (Event.ingress f).calls m.maps =
              [.update_seq (ingressKey f.data) (recv_ack f.data)] := by
            simp [Event.calls, ingress_calls, hseg, hd, hs]
          rw [hc]
          by_cases hroom : m.seq_map.Room (ingressKey f.data)
          · left
            simp only [List.foldl_cons, List.foldl_nil, call, Capped.update_keys hroom]
            exact Finset.mem_insert_self _ _
          · exact .inr (Capped.full_of_no_room hroom)

/-- Without teardown, every key a SYN came from is recorded, or the map is full. -/
theorem recorded_run (hes : Unreset es) :
    synKeys es ⊆ (Pinned.run K (empty : Pinned n) es).seq_map.keys ∨
      (Pinned.run K (empty : Pinned n) es).seq_map.keys.card = n := by
  induction es using List.reverseRecOn with
  | nil => exact .inl (Finset.empty_subset _)
  | append_singleton es e ih =>
      have hstep : ∀ k, ¬ e.Resets k := hes e (by simp)
      have hgrow := keys_step K (m := Pinned.run K (empty : Pinned n) es) hstep
      have hfull : (Pinned.run K (empty : Pinned n) es).seq_map.keys.card = n →
          (((Pinned.run K (empty : Pinned n) es).agent K e).1).seq_map.keys.card = n :=
        fun h => by rw [Capped.full_of_subset hgrow h, h]
      rw [run_snoc]
      rcases ih fun e' he' => hes e' (List.mem_append_left _ he') with ih | ih
      · cases hk : e.synKey with
        | none =>
            left
            have hsame : synKeys (es ++ [e]) = synKeys es := by simp [synKeys, hk]
            rw [hsame]
            exact ih.trans hgrow
        | some k =>
            rcases recorded_step K (empty_nested.run K (n := n) es) hk with hmem | h
            · left
              have hsame : synKeys (es ++ [e]) = insert k (synKeys es) := by
                ext k'
                simp [synKeys, hk, eq_comm]
              rw [hsame]
              exact Finset.insert_subset hmem (ih.trans hgrow)
            · exact .inr (hfull h)
      · exact .inr (hfull ih)

/-- A segment of a key that is not recorded leaves as it is; a SYN loses its acknowledgement number. -/
theorem agent_unrecorded (hm : m.Nested) (hk : k ∉ m.seq_map.keys) (he : e.Of k) :
    (m.agent K e).2.passed = true ∧ (e.synKey = none → (m.agent K e).2.frame = e.frame) ∧
      (e.synKey ≠ none → Unacknowledged e.frame (m.agent K e).2.frame) := by
  have hseq : m.maps.seq_map k = none := m.seq_map.get_eq_none.mpr hk
  have hflow : m.maps.flow_map k = none := m.flow_map.get_eq_none.mpr fun h => hk (hm h)
  show (Backend.agent K m.maps e).2.passed = true ∧ _
  cases e with
  | egress f =>
      obtain ⟨hs, rfl⟩ := he
      have hq := egress_quiet K hs hflow (.inr hseq)
      simp only [Pinned.agent, Backend.agent, hq, Event.synKey, Event.frame, beq_self_eq_true,
        ne_eq, not_true_eq_false, false_imp_iff, and_true, imp_self]
  | ingress f =>
      obtain ⟨hs, rfl⟩ := he
      cases hy : syn f.data with
      | false =>
          have hq := ingress_quiet K hs hflow hy
          simp [Pinned.agent, Backend.agent, hq, Event.synKey, Event.frame, hy]
      | true =>
          obtain ⟨hp, -, -, -, -⟩ := ingress_new K hs hflow hy
          have hun := ingress_new_unacknowledged K hs hflow hy
          simp [Pinned.agent, Backend.agent, Event.synKey, Event.frame, hy, hs, hp, hun]

end Pinned

/-- **Starvation.**  In a run from empty maps in which no RST leaves, `seq_map` holds as many of the
keys SYNs came from as there is room for.  Once they are as many as that, a key that was not recorded
never is: whatever follows, as long as no RST leaves, its segments pass in both directions as if there
was no agent, but for its SYNs, which lose their acknowledgement number and nothing else but the
checksum. -/
theorem pinned_starved (hes : Unreset es) :
    (Pinned.run K (Pinned.empty : Pinned n) es).seq_map.keys.card = min n (synKeys es).card ∧
    ∀ k, n ≤ (synKeys es).card →
      k ∉ (Pinned.run K (Pinned.empty : Pinned n) es).seq_map.keys →
      ∀ es' e, Unreset es' → e.Of k →
        let o := ((Pinned.run K (Pinned.empty : Pinned n) (es ++ es')).agent K e).2
        o.passed = true ∧ (e.synKey = none → o.frame = e.frame) ∧
          (e.synKey ≠ none → Unacknowledged e.frame o.frame) := by
  have hsub := Pinned.keys_subset K (n := n) es
  have hcard : (Pinned.run K (Pinned.empty : Pinned n) es).seq_map.keys.card =
      min n (synKeys es).card := by
    rcases Pinned.recorded_run K (n := n) hes with h | h
    · have he := Finset.Subset.antisymm hsub h
      have hle := (Pinned.run K (Pinned.empty : Pinned n) es).seq_map.card_le
      rw [he] at hle ⊢
      exact (min_eq_right hle).symm
    · have hle := Finset.card_le_card hsub
      rw [h] at hle ⊢
      exact (min_eq_left hle).symm
  refine ⟨hcard, fun k hfull hk es' e hes' he => ?_⟩
  rw [min_eq_left hfull] at hcard
  have hrun : Pinned.run K (Pinned.empty : Pinned n) (es ++ es') =
      Pinned.run K (Pinned.run K Pinned.empty es) es' := List.foldl_append
  refine Pinned.agent_unrecorded K (Pinned.empty_nested.run K _) ?_ he
  -- a full map that loses no key gets no key
  rw [hrun, Capped.full_of_subset (Pinned.keys_run K hes' _) hcard]
  exact hk

end runs

/-! ### A map of one entry -/

/-- The SYN of a second client. -/
def sampleLateSyn : Frame :=
  .ofBytes (headers (0xC0A80003, 40001) sampleServer 499 2999 TCP_SYN_FLAG 40)

/-- Its answer. -/
def sampleLateSynAck : Frame :=
  .ofBytes (headers sampleServer (0xC0A80003, 40001) 80000 500 (TCP_SYN_FLAG ||| TCP_ACK_FLAG) 40)

/-- With room for one entry, the second client's SYN-ACK leaves with the numbers of the backend. -/
theorem pinned_starved_sample :
    (Pinned.run .kernel (Pinned.empty : Pinned 1) [.ingress sampleSyn]).seq_map.keys.card = 1 ∧
      ((Pinned.run .kernel (Pinned.empty : Pinned 1) [.ingress sampleSyn, .ingress sampleLateSyn]).agent
        .kernel (.egress sampleLateSynAck)).2.frame = sampleLateSynAck := by
  have hes : Unreset [.ingress sampleSyn] := fun e he k => by
    cases List.mem_singleton.mp he
    exact id
  have hes' : Unreset [.ingress sampleLateSyn] := fun e he k => by
    cases List.mem_singleton.mp he
    exact id
  have hcard : (synKeys [.ingress sampleSyn]).card = 1 := by decide +kernel
  have hk : (Pinned.run .kernel (Pinned.empty : Pinned 1) [.ingress sampleSyn]).seq_map.get
      (egressKey sampleLateSynAck.data) = none := by decide +kernel
  have hof : (Event.egress sampleLateSynAck).Of (egressKey sampleLateSynAck.data) :=
    ⟨by decide +kernel, rfl⟩
  have h := pinned_starved (n := 1) .kernel hes
  refine ⟨h.1.trans (by rw [hcard]; rfl), ?_⟩
  exact (h.2 _ hcard.ge ((Capped.get_eq_none _).mp hk) _ _ hes' hof).2.1 rfl

end Miresga.Backend
