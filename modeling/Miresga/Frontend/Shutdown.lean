import Miresga.Frontend.Ownership
import Miresga.Frontend.Records

/-!
# Frontend — nothing leaks, and what the teardown releases

`Accounted` is the other half of ownership: a record that is allocated is in the flow table, and an
allocated packet is the cached packet of a record in the table.  Every step keeps it, also the one
that leaves a released record in the table, so that no run loses a block (`nothing_leaks`).  It takes
that the released record keeps its contents: cleared, it would be replaced by a new record that never
gets into the table.

`destroy_static_variable` walks over the 256 tables, releases every record with its packet and
clears each table.  The iterator's order within a table is libcuckoo's and stays a parameter
(`Iterates`); every table a run reaches has one (`reachable_iterates`).  After any run the teardown
leaves nothing allocated, and it releases a block twice exactly when the table holds an entry of a
client that gave up a flow which waited for its backend (`destroy_releases`).
-/

namespace Miresga.Frontend

/-! ### Nothing leaks -/

/-- What is allocated can be reached from the flow table. -/
structure Accounted (s : Shared) : Prop where
  record : ∀ {a}, s.flows.live a = true → ∃ k, s.flow_hash_map k = some a
  packet : ∀ {q}, s.cached.live q = true →
    ∃ k a, s.flow_hash_map k = some a ∧ (s.flow a).recv_pkt = some q

/-- The start of a process: an empty table and empty heaps. -/
structure Fresh (s : Shared) : Prop extends Initial s where
  no_flows : ∀ a, s.flows.live a = false
  no_cached : ∀ q, s.cached.live q = false

namespace Accounted

variable {s s' : Shared} {c : Client} {a : Addr}

theorem initial (h : Fresh s) : Accounted s where
  record {a} hl := by rw [h.no_flows a] at hl; cases hl
  packet {q} hl := by rw [h.no_cached q] at hl; cases hl

theorem set_state (h : Accounted s) (a : Addr) (st : FlowState) :
    Accounted (s.set_state a st) where
  record hl := h.record hl
  packet {q} hl := by
    obtain ⟨k, b, e, hq⟩ := h.packet hl
    refine ⟨k, b, e, ?_⟩
    by_cases hb : b = a
    · subst hb
      rw [set_state_flow_same]
      exact hq
    · rw [set_state_flow_other _ _ _ hb]
      exact hq

theorem enqueue (h : Accounted s) (e : Enq) : Accounted (s.enqueue e) :=
  ⟨h.record, h.packet⟩

theorem unoffload (h : Accounted s) (c : Client) (a : Addr) : Accounted (s.unoffload c a) where
  record hl := by
    rw [unoffload_flows] at hl
    rw [unoffload_table]
    exact h.record hl
  packet hl := by
    rw [unoffload_cached] at hl
    simpa only [unoffload_table, unoffload_flow] using h.packet hl

/-- A release leaves no more to account for. -/
theorem release (h : Accounted s) (a : Addr) : Accounted (s.release a) where
  record {b} hl := by
    rw [release_table]
    rw [release_flows] at hl
    by_cases hb : b = a
    · subst hb
      simp [Heap.free] at hl
    · rw [Heap.free_live_other hb] at hl
      exact h.record hl
  packet {q} hl := by
    simp only [release_table, release_flow]
    exact h.packet (free_pkt_live.mp hl).1

/-- What the erased entry accounted for is what is released. -/
theorem close (h : Accounted s) (hf : s.find c = some a) : Accounted (s.close c a) where
  record {b} hl := by
    rw [Shared.close, release_flows, erase_flows, unoffload_flows] at hl
    have hb : b ≠ a := fun hb => by
      subst hb
      simp [Heap.free] at hl
    rw [Heap.free_live_other hb] at hl
    obtain ⟨k, e⟩ := h.record hl
    refine ⟨k, ?_⟩
    have hk : k ≠ c.slot := fun hk => by
      subst hk
      exact hb (Option.some.inj (e.symm.trans hf))
    rw [Shared.close, release_table, erase_other _ _ hk, unoffload_table]
    exact e
  packet {q} hl := by
    rw [Shared.close, release_cached, erase_free_pkt_cached] at hl
    obtain ⟨hl, hq⟩ := free_pkt_live.mp hl
    rw [unoffload_cached] at hl
    rw [unoffload_flow] at hq
    obtain ⟨k, b, e, hp⟩ := h.packet hl
    have hk : k ≠ c.slot := fun hk => by
      subst hk
      cases Option.some.inj (e.symm.trans hf)
      exact hq hp
    refine ⟨k, b, ?_, ?_⟩
    · rw [Shared.close, release_table, erase_other _ _ hk, unoffload_table]
      exact e
    · rw [Shared.close, release_flow, Shared.flow, erase_flows, unoffload_flows]
      exact hp

theorem move (h : Accounted s) {data : MyData} {q : Addr} {p : Mbuf} (hf : s.find c = some a)
    (hm : s.move a data q p = some s') : Accounted s' := by
  obtain ⟨-, ht, -, hfl, -, hc, -⟩ := move_eq_some hm
  refine ⟨fun {b} hl => ?_, fun {o} hl => ?_⟩
  · rw [hfl, Heap.put_live] at hl
    rw [ht]
    exact h.record hl
  · rw [ht]
    by_cases ho : o = q
    · refine ⟨c.slot, a, hf, ?_⟩
      rw [Shared.flow, hfl, Heap.put_cell_same, ho]
      rfl
    · rw [hc, upd_other _ _ _ ho] at hl
      obtain ⟨hl, hq⟩ := free_pkt_live.mp hl
      obtain ⟨k, b, e, hp⟩ := h.packet hl
      have hb : b ≠ a := fun hb => hq (hb ▸ hp)
      refine ⟨k, b, e, ?_⟩
      rw [Shared.flow, hfl, Heap.put_cell_other _ hb]
      exact hp

theorem create (h : Accounted s) {data : MyData} {mem : Alloc} {p : Mbuf} (hk : Keeps s mem)
    (hn : s.find c = none) (hc : s.create c data mem p = some s') : Accounted s' := by
  obtain ⟨hlf, -, ht, -, -, -, hfl, hcell, hql, -⟩ := create_eq_some hc hn
  have own : s'.flow_hash_map c.slot = some mem.flow_data := by rw [ht, upd_same]
  -- the new entry replaces none
  have kept : ∀ {k b}, s.flow_hash_map k = some b → s'.flow_hash_map k = some b := fun {k b} e => by
    rw [ht, upd_other _ _ _ fun hk => ?_]
    · exact e
    · subst hk
      cases hn.symm.trans e
  refine ⟨fun {b} hl => ?_, fun {o} hl => ?_⟩
  · by_cases hb : b = mem.flow_data
    · exact ⟨c.slot, hb ▸ own⟩
    · rw [hfl, upd_other _ _ _ hb] at hl
      obtain ⟨k, e⟩ := h.record hl
      exact ⟨k, kept e⟩
  · by_cases ho : o = mem.recv_pkt
    · refine ⟨c.slot, mem.flow_data, own, ?_⟩
      rw [Shared.flow, hcell, upd_same, ho]
      rfl
    · rw [hql, upd_other _ _ _ ho] at hl
      obtain ⟨k, b, e, hp⟩ := h.packet hl
      refine ⟨k, b, kept e, ?_⟩
      rw [Shared.flow, hcell, upd_other _ _ _ (hk.flow_fresh hlf e)]
      exact hp

theorem transition (h : Accounted s) (hs : Sound s) {rc : RuleController} {mem : Alloc} {p : Mbuf}
    {cs : List Call} (hk : Keeps s mem) (ht : Transition rc mem p s s' cs) : Accounted s' := by
  cases ht with
  | ignored | fin_unsent | forward | serve | resyn | reply => exact h
  | @offload a => exact (h.set_state a .OFFLOAD).enqueue _
  | @unoffload a => exact (h.set_state a .COMPLETE).enqueue _
  | @move a _ _ hf _ _ hm =>
      exact (h.unoffload (srcClient p.data) a).move ((unoffload_find ..).trans hf) hm
  | close_client hf | close_backend _ hf => exact h.close hf
  | @abandon a => exact h.release a
  | @syn_ack a =>
      unfold Shared.establish
      dsimp only
      split
      · exact (h.set_state a .OFFLOAD).enqueue _
      · exact h.set_state a .COMPLETE
  | create hn _ hc => exact h.create hk (hs.find_none hn) hc

end Accounted

theorem KeptStep.accounted {s s' : Shared} {l : Recv} (h : Sound s ∧ Accounted s)
    (hs : KeptStep s l s') : Sound s' ∧ Accounted s' := by
  obtain ⟨hk, cs, hf⟩ := id hs
  exact ⟨h.1.step hs, h.2.transition h.1 hk hf.transition⟩

/-- **Nothing leaks.**  After every run from empty heaps in which a record released while still in the
table keeps its contents, each allocated record is in the flow table under one key, and each allocated
packet is the cached packet of one entry. -/
theorem nothing_leaks {s₀ s : Shared} {ls : List Recv} (h₀ : Fresh s₀)
    (hr : Steps KeptStep s₀ ls s) :
    (∀ a, s.flows.live a = true → ∃! k, s.flow_hash_map k = some a) ∧
    ∀ q, s.cached.live q = true →
      ∃! k, ∃ a, s.flow_hash_map k = some a ∧ (s.flow a).recv_pkt = some q := by
  obtain ⟨hs, ha⟩ := hr.inv (fun _ _ _ h hs => hs.accounted h)
    ⟨.initial h₀.toInitial, .initial h₀⟩
  refine ⟨fun a hl => ?_, fun q hl => ?_⟩
  · obtain ⟨k, e⟩ := ha.record hl
    exact ⟨k, e, fun k' e' => hs.inj e' e⟩
  · obtain ⟨k, a, e, hq⟩ := ha.packet hl
    refine ⟨k, ⟨a, e, hq⟩, fun k' h' => ?_⟩
    obtain ⟨a', e', hq'⟩ := h'
    exact hs.pkt_inj e' e hq' hq

/-! ### The teardown -/

/-- The entries of one of the 256 tables, in the order its iterator meets them. -/
abbrev Entries := List (BitVec 64 × Addr)

/-- The numbers of the tables. -/
def tables : List Byte := (List.range 256).map (BitVec.ofNat 8)

namespace Shared

/-- `flow_hash_map[i].clear()`. -/
def clear (s : Shared) (i : Byte) : Shared :=
  { s with flow_hash_map := fun k => if k.1 = i then none else s.flow_hash_map k }

/-- One table: the records its iterator meets are released, and it is cleared. -/
def drain (s : Shared) (i : Byte) (es : Entries) : Shared :=
  (es.foldl (fun s e => s.release e.2) s).clear i

/-- `destroy_static_variable`, as far as the flow table goes. -/
def destroy (s : Shared) (order : Byte → Entries) : Shared :=
  tables.foldl (fun s i => s.drain i (order i)) s

end Shared

/-- The iterators meet every entry of their tables once. -/
structure Iterates (s : Shared) (order : Byte → Entries) : Prop where
  nodup : ∀ i, (order i).Nodup
  mem : ∀ i e, e ∈ order i ↔ s.flow_hash_map (i, e.1) = some e.2

/-- The releases of a list of records. -/
def Shared.releases (s : Shared) (as : List Addr) : Shared := as.foldl Shared.release s

section releases

variable (s : Shared) (as : List Addr)

@[simp] theorem releases_table : (s.releases as).flow_hash_map = s.flow_hash_map := by
  induction as generalizing s with
  | nil => rfl
  | cons a as ih => exact (ih _).trans (release_table s a)

@[simp] theorem releases_flow (b : Addr) : (s.releases as).flow b = s.flow b := by
  induction as generalizing s with
  | nil => rfl
  | cons a as ih => exact (ih _).trans (release_flow s a b)

theorem releases_live (b : Addr) :
    (s.releases as).flows.live b = true ↔ s.flows.live b = true ∧ b ∉ as := by
  induction as generalizing s with
  | nil => simp [Shared.releases]
  | cons a as ih =>
      rw [Shared.releases, List.foldl_cons, ← Shared.releases, ih, release_flows]
      by_cases hb : b = a
      · subst hb; simp [Heap.free]
      · rw [Heap.free_live_other hb]; simp [hb]

theorem releases_cached (q : Addr) :
    (s.releases as).cached.live q = true ↔
      s.cached.live q = true ∧ ∀ a ∈ as, (s.flow a).recv_pkt ≠ some q := by
  induction as generalizing s with
  | nil => simp [Shared.releases]
  | cons a as ih =>
      rw [Shared.releases, List.foldl_cons, ← Shared.releases, ih, release_cached, free_pkt_live]
      simp [and_assoc]

/-- A record is released twice if and only if one was not live. -/
theorem releases_double (hn : as.Nodup) :
    (s.releases as).flows.double = true ↔
      s.flows.double = true ∨ ∃ a ∈ as, s.flows.live a = false := by
  induction as generalizing s with
  | nil => simp [Shared.releases]
  | cons a as ih =>
      obtain ⟨hna, hn⟩ := List.nodup_cons.mp hn
      rw [Shared.releases, List.foldl_cons, ← Shared.releases, ih _ hn, release_flows]
      have hb : ∀ b ∈ as, (s.flows.free a).live b = s.flows.live b := fun b hb =>
        Heap.free_live_other fun e => hna (e ▸ hb)
      have he : (∃ b ∈ as, (s.flows.free a).live b = false) ↔
          ∃ b ∈ as, s.flows.live b = false := by
        constructor <;> rintro ⟨b, hm, hl⟩ <;> refine ⟨b, hm, ?_⟩
        · rwa [hb b hm] at hl
        · rwa [hb b hm]
      rw [he]
      simp [Heap.free, or_assoc]

end releases

/-- The packets of live records that share none are released once. -/
theorem releases_cached_double {s : Shared} {as : List Addr} (hn : as.Nodup)
    (hl : ∀ a ∈ as, ∀ q, (s.flow a).recv_pkt = some q → s.cached.live q = true)
    (hi : ∀ a ∈ as, ∀ b ∈ as, ∀ q, (s.flow a).recv_pkt = some q → (s.flow b).recv_pkt = some q →
      a = b) : (s.releases as).cached.double = s.cached.double := by
  induction as generalizing s with
  | nil => rfl
  | cons a as ih =>
      obtain ⟨hna, hn⟩ := List.nodup_cons.mp hn
      have hd : (s.release a).cached.double = s.cached.double := by
        rw [release_cached]
        unfold Shared.free_pkt
        split
        · rfl
        next q hq => exact Heap.free_double (hl a List.mem_cons_self q hq)
      rw [Shared.releases, List.foldl_cons, ← Shared.releases, ih hn, hd]
      · intro b hb q hq
        rw [release_flow] at hq
        rw [release_cached, free_pkt_live]
        refine ⟨hl b (List.mem_cons_of_mem _ hb) q hq, fun hq' => hna ?_⟩
        rw [hi a List.mem_cons_self b (List.mem_cons_of_mem _ hb) q hq' hq]
        exact hb
      · intro b hb b' hb' q
        simp only [release_flow]
        exact hi b (List.mem_cons_of_mem _ hb) b' (List.mem_cons_of_mem _ hb') q

/-! ### All 256 tables -/

/-- The records the iterators of the tables `is` meet. -/
def swept (order : Byte → Entries) (is : List Byte) : List Addr :=
  is.flatMap fun i => (order i).map Prod.snd

section destroy

variable (s : Shared) (order : Byte → Entries)

theorem release_clear (i : Byte) (a : Addr) : (s.clear i).release a = (s.release a).clear i := by
  unfold Shared.release Shared.free_pkt Shared.clear Shared.flow
  dsimp only
  split <;> rfl

theorem releases_clear (i : Byte) (as : List Addr) :
    (s.clear i).releases as = (s.releases as).clear i := by
  induction as generalizing s with
  | nil => rfl
  | cons a as ih => rw [Shared.releases, List.foldl_cons, release_clear]; exact ih _

theorem drain_eq (i : Byte) (es : Entries) :
    s.drain i es = (s.releases (es.map Prod.snd)).clear i := by
  rw [Shared.drain, Shared.releases, List.foldl_map]

/-- Table after table is drained: their records are released, and they are empty. -/
theorem drains_eq (is : List Byte) :
    is.foldl (fun s i => s.drain i (order i)) s =
      is.foldl Shared.clear (s.releases (swept order is)) := by
  induction is generalizing s with
  | nil => rfl
  | cons i is ih =>
      rw [List.foldl_cons, ih, drain_eq, releases_clear, List.foldl_cons, swept, swept,
        List.flatMap_cons]
      simp only [Shared.releases, List.foldl_append]

theorem clears_table (is : List Byte) (k : Slot) :
    (is.foldl Shared.clear s).flow_hash_map k = if k.1 ∈ is then none else s.flow_hash_map k := by
  induction is generalizing s with
  | nil => simp
  | cons i is ih =>
      rw [List.foldl_cons, ih]
      by_cases hi : k.1 = i <;> simp [Shared.clear, hi]

theorem clears_flows (is : List Byte) : (is.foldl Shared.clear s).flows = s.flows := by
  induction is generalizing s with
  | nil => rfl
  | cons i is ih => exact ih _

theorem clears_cached (is : List Byte) : (is.foldl Shared.clear s).cached = s.cached := by
  induction is generalizing s with
  | nil => rfl
  | cons i is ih => exact ih _

end destroy

theorem mem_tables (i : Byte) : i ∈ tables := by
  refine List.mem_map.mpr ⟨i.toNat, List.mem_range.mpr i.isLt, ?_⟩
  simp

theorem tables_nodup : tables.Nodup := by
  refine List.Nodup.map_on (fun m hm n hn e => ?_) List.nodup_range
  have := congrArg BitVec.toNat e
  rw [List.mem_range] at hm hn
  simpa [Nat.mod_eq_of_lt hm, Nat.mod_eq_of_lt hn] using this

namespace Iterates

variable {s : Shared} {order : Byte → Entries}

/-- The iterators meet the records of the table and no others. -/
theorem mem_swept (h : Iterates s order) (a : Addr) :
    a ∈ swept order tables ↔ ∃ k, s.flow_hash_map k = some a := by
  simp only [swept, List.mem_flatMap, List.mem_map]
  constructor
  · rintro ⟨i, -, e, hm, rfl⟩
    exact ⟨(i, e.1), (h.mem i e).mp hm⟩
  · rintro ⟨k, hk⟩
    exact ⟨k.1, mem_tables _, (k.2, a), (h.mem k.1 (k.2, a)).mpr hk, rfl⟩

/-- With one key for each record, the iterators meet none twice. -/
theorem swept_nodup (h : Iterates s order)
    (hi : ∀ {k k' a}, s.flow_hash_map k = some a → s.flow_hash_map k' = some a → k = k') :
    (swept order tables).Nodup := by
  refine List.nodup_flatMap.mpr ⟨fun i _ => ?_, ?_⟩
  · refine List.Nodup.map_on (fun e he e' he' ha => ?_) (h.nodup i)
    have hk := hi ((h.mem i e).mp he) (ha ▸ (h.mem i e').mp he')
    exact Prod.ext (Prod.mk.inj hk).2 ha
  · refine tables_nodup.imp fun {i j} hne => ?_
    intro a ha hb
    obtain ⟨e, he, rfl⟩ := List.mem_map.mp ha
    obtain ⟨e', he', ha⟩ := List.mem_map.mp hb
    exact hne (Prod.mk.inj (hi ((h.mem i e).mp he) (ha ▸ (h.mem j e').mp he'))).1

end Iterates

/-! ### The table is finite -/

/-- A table a run reaches has iterators. -/
theorem reachable_iterates {s₀ s : Shared} {ls : List Recv} (h₀ : Initial s₀)
    (hr : Steps KeptStep s₀ ls s) : ∃ order, Iterates s order := by
  have hf : Sound s ∧ {k | s.flow_hash_map k ≠ none}.Finite := by
    refine hr.inv (I := fun s => Sound s ∧ {k | s.flow_hash_map k ≠ none}.Finite)
      (fun s l s' h hs => ⟨h.1.step hs, ?_⟩) ⟨.initial h₀, ?_⟩
    · obtain ⟨-, cs, hs⟩ := hs
      exact (h.2.insert (srcClient l.pkt.data).slot).subset fun k hk =>
        (hs.transition.keys h.1 hk).imp And.left id
    · convert Set.finite_empty
      ext k
      simp [h₀.table k]
  have entries : ∀ i, {e : BitVec 64 × Addr | s.flow_hash_map (i, e.1) = some e.2}.Finite :=
    fun i => by
      refine (hf.2.image fun k => (k.2, (s.flow_hash_map k).getD 0)).subset fun e he => ?_
      have he : s.flow_hash_map (i, e.1) = some e.2 := he
      exact ⟨(i, e.1), by simp [he], by simp [he]⟩
  exact ⟨fun i => (entries i).toFinset.toList, fun i => Finset.nodup_toList _, fun i e => by simp⟩

/-! ### What the teardown leaves -/

/-- A double release stays on record. -/
theorem releases_cached_double_mono (s : Shared) (as : List Addr) (h : s.cached.double = true) :
    (s.releases as).cached.double = true := by
  induction as generalizing s with
  | nil => exact h
  | cons a as ih =>
      refine ih _ ?_
      rw [release_cached]
      unfold Shared.free_pkt
      split
      · exact h
      · simp [Heap.free, h]

/-- **The teardown.**  After every such run from empty heaps, whatever the order of the iterators,
`destroy_static_variable` empties the tables and leaves no record and no packet allocated.  It
releases no block twice if and only if the run did not and every entry leads to a live record. -/
theorem destroy_releases {s₀ s : Shared} {ls : List Recv} (h₀ : Fresh s₀)
    (hr : Steps KeptStep s₀ ls s) :
    (∃ order, Iterates s order) ∧ ∀ order, Iterates s order →
      (∀ k, (s.destroy order).flow_hash_map k = none) ∧
      (∀ a, (s.destroy order).flows.live a = false) ∧
      (∀ q, (s.destroy order).cached.live q = false) ∧
      ((s.destroy order).flows.double = false ∧ (s.destroy order).cached.double = false ↔
        (s.flows.double = false ∧ s.cached.double = false) ∧
          ∀ k a, s.flow_hash_map k = some a → s.flows.live a = true) := by
  obtain ⟨hs, ha⟩ := hr.inv (fun _ _ _ h hs => hs.accounted h)
    ⟨.initial h₀.toInitial, .initial h₀⟩
  refine ⟨reachable_iterates h₀.toInitial hr, fun order ho => ?_⟩
  have hd : s.destroy order = tables.foldl Shared.clear (s.releases (swept order tables)) :=
    drains_eq s order tables
  have hn : (swept order tables).Nodup := ho.swept_nodup hs.inj
  rw [hd, clears_flows, clears_cached]
  refine ⟨fun k => ?_, fun a => ?_, fun q => ?_, ⟨fun h => ?_, fun h => ?_⟩⟩
  · rw [clears_table, if_pos (mem_tables _)]
  · rw [← Bool.not_eq_true, releases_live]
    rintro ⟨hl, hm⟩
    exact hm ((ho.mem_swept a).mpr (ha.record hl))
  · rw [← Bool.not_eq_true, releases_cached]
    rintro ⟨hl, hm⟩
    obtain ⟨k, a, e, hq⟩ := ha.packet hl
    exact hm a ((ho.mem_swept a).mpr ⟨k, e⟩) hq
  · obtain ⟨hf, hc⟩ := h
    rw [← Bool.not_eq_true, releases_double _ _ hn, not_or] at hf
    refine ⟨⟨by simpa using hf.1, ?_⟩, fun k a e => ?_⟩
    · by_contra hd
      exact Bool.false_ne_true (hc.symm.trans (releases_cached_double_mono s _ (by simpa using hd)))
    · by_contra hl
      exact hf.2 ⟨a, (ho.mem_swept a).mpr ⟨k, e⟩, by simpa using hl⟩
  · obtain ⟨⟨hf, hc⟩, hl⟩ := h
    refine ⟨?_, ?_⟩
    · rw [← Bool.not_eq_true, releases_double _ _ hn, not_or]
      refine ⟨by simp [hf], fun hm => ?_⟩
      obtain ⟨a, hm, hd⟩ := hm
      obtain ⟨k, e⟩ := (ho.mem_swept a).mp hm
      exact Bool.false_ne_true (hd.symm.trans (hl k a e))
    · rw [releases_cached_double hn, hc]
      · intro a hm q hq
        obtain ⟨k, e⟩ := (ho.mem_swept a).mp hm
        exact hs.pkt_live e (hl k a e) hq
      · intro a hm b hm' q hq hq'
        obtain ⟨k, e⟩ := (ho.mem_swept a).mp hm
        obtain ⟨k', e'⟩ := (ho.mem_swept b).mp hm'
        cases hs.pkt_inj e e' hq hq'
        exact Option.some.inj (e.symm.trans e')

/-! ### The sample runs -/

theorem sampleStart_fresh : Fresh sampleStart :=
  { toInitial := sampleStart_initial, no_flows := fun _ => rfl, no_cached := fun _ => rfl }

/-- A request, and the client's RST while the flow waits. -/
theorem sampleAbandoned_kept :
    ∃ s, Steps KeptStep sampleStart (sampleAbandoned.take 2) s ∧
      s.find sampleClient = some 0 ∧ s.flows.live 0 = false := by
  have hr : (handleTidy sampleStart (sampleRecv (sampleRequest 0x61) 0)).bind (fun s =>
      (handle s (sampleRecv (sampleIn TCP_RST_FLAG []) 1)).map fun s =>
        (s.find sampleClient, s.flows.live 0)) = some (some 0, false) := by decide +kernel
  obtain ⟨s₁, h₁, hr⟩ := Option.bind_eq_some_iff.mp hr
  obtain ⟨s₂, h₂, he⟩ := Option.map_eq_some_iff.mp hr
  rw [Prod.mk.injEq] at he
  obtain ⟨ht, hk⟩ := Tidy.kept_run sampleStart_initial (Steps.one (handleTidy_step h₁))
  exact ⟨s₂, hk.more ⟨ht.keeps _, handle_step h₂⟩, he⟩

theorem nothing_leaks_sample :
    ∃ s, Steps KeptStep sampleStart sampleMoves s ∧ s.cached.live 1 = true ∧
      ∃! k, ∃ a, s.flow_hash_map k = some a ∧ (s.flow a).recv_pkt = some 1 := by
  have hr : ((sampleMoves.foldlM handleTidy sampleStart).map fun s => s.cached.live 1) =
      some true := by decide +kernel
  obtain ⟨s, hs, he⟩ := Option.map_eq_some_iff.mp hr
  have hr := (Tidy.kept_run sampleStart_initial
    (Steps.of_foldlM (fun _ _ _ => handleTidy_step) hs)).2
  exact ⟨s, hr, he, (nothing_leaks sampleStart_fresh hr).2 1 he⟩

/-- The record the client gave up is released again. -/
theorem destroy_releases_sample :
    ∃ s order, Steps KeptStep sampleStart (sampleAbandoned.take 2) s ∧ Iterates s order ∧
      (∀ q, (s.destroy order).cached.live q = false) ∧
      ¬ ((s.destroy order).flows.double = false ∧ (s.destroy order).cached.double = false) := by
  obtain ⟨s, hr, he, hl⟩ := sampleAbandoned_kept
  obtain ⟨⟨order, ho⟩, h⟩ := destroy_releases sampleStart_fresh hr
  obtain ⟨-, -, hq, hd⟩ := h order ho
  refine ⟨s, order, hr, ho, hq, fun h => ?_⟩
  have := (hd.mp h).2 _ _ he
  rw [hl] at this
  cases this

end Miresga.Frontend
