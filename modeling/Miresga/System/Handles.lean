import Miresga.System.Decoding

/-!
# System — the handles of a round

`offload_connection_table_info` holds 256 key handles and 256 data handles.  `run_controller` takes
the next one for every entry it performs and starts over at the first one only when it calls
`epoll_wait` again.  So the entries of all the connections that are ready in one round share them:
the bound holds if and only if what the round performs, left-overs included, comes to at most 256
entries (`demand`).

An entry has 12 bytes at least, so three connections are never too many if nothing is left over
(`three_in_range`).  Four connections with two messages of 40 deletes each are (`four_overflow`).
-/

namespace Miresga.System

open Frontend Switch

/-- A round: `entry_index` goes on from descriptor to descriptor. -/
def round (recv_buffer : Mem) (entry_index : Nat) : List Descriptor → List (Nat × TableOp)
  | [] => []
  | r :: rs =>
    r.ops recv_buffer entry_index ++
      round (r.buffer recv_buffer) (entry_index + (r.ops recv_buffer entry_index).length) rs

/-- A ready descriptor between the front-ends and the switch: a new connection, or a connection with
the messages that have come in on it. -/
inductive Delivery where
  | accept
  | recv (msgs : List OffloadMessage) (begin_batch : Bool) (behind : Mem)

namespace Delivery

/-- The entries a message announces. -/
def size (o : OffloadMessage) : Nat := o.add_size.toNat + o.del_size.toNat

/-- The bytes of the messages. -/
def data (msgs : List OffloadMessage) : List Byte := msgs.flatMap OffloadMessage.bytes

/-- What `run_controller` sees of it. -/
def descriptor : Delivery → Descriptor
  | accept => .accept
  | recv msgs begin_batch behind => .recv (data msgs) begin_batch behind

/-- The counts of the message at `n`, if one starts there. -/
def counts (m : Mem) (n : Nat) : Nat :=
  if m n = OFFLOAD_ENTRIES then (m (n + 1)).toNat + (m (n + 2)).toNat else 0

/-- The entries of the messages, and those the bytes behind them announce. -/
def entries (recv_buffer : Mem) : Delivery → Nat
  | accept => 0
  | recv msgs begin_batch behind =>
    if begin_batch ∧ msgs ≠ [] then
      (msgs.map size).sum +
        counts (Descriptor.memory recv_buffer behind) (data msgs).length
    else 0

end Delivery

/-- The entries of a round. -/
def demand (recv_buffer : Mem) : List Delivery → Nat
  | [] => 0
  | d :: ds => d.entries recv_buffer + demand (d.descriptor.buffer recv_buffer) ds

/-! ### Every entry takes a handle -/

theorem length_offloads (msgs : List OffloadMessage) :
    (msgs.flatMap offloadOps).length = (msgs.map Delivery.size).sum := by
  rw [List.length_flatMap]
  exact congrArg List.sum (List.map_congr_left fun o _ => length_offloadOps o)

/-- A descriptor takes as many handles as it has entries. -/
theorem Delivery.length_ops (d : Delivery) (m : Mem) (idx : Nat) :
    (d.descriptor.ops m idx).length = d.entries m := by
  cases d with
  | accept => rfl
  | recv msgs begin_batch behind =>
      rw [Delivery.descriptor, Delivery.entries]
      by_cases hne : msgs = []
      · subst hne
        rw [if_neg (fun h => h.2 rfl)]
        rfl
      cases begin_batch with
      | false =>
          rw [if_neg (fun h => Bool.noConfusion h.1), Descriptor.ops]
          split
          · rfl
          · rfl
      | true =>
          rw [if_pos ⟨rfl, hne⟩, ← List.length_map Prod.snd, Delivery.data,
            Descriptor.ops_messages behind idx hne, List.length_append, length_offloads,
            length_leftOver, Delivery.counts]

theorem length_round (ds : List Delivery) (m : Mem) (idx : Nat) :
    (round m idx (ds.map Delivery.descriptor)).length = demand m ds := by
  induction ds generalizing m idx with
  | nil => rfl
  | cons d ds ih => rw [List.map_cons, round, List.length_append, ih, Delivery.length_ops, demand]

/-- The handles of a round are used one after the other. -/
theorem round_indices (rs : List Descriptor) (m : Mem) (idx : Nat) :
    (round m idx rs).map Prod.fst = List.range' idx (round m idx rs).length := by
  induction rs generalizing m idx with
  | nil => rfl
  | cons r rs ih =>
      rw [round, List.map_append, r.ops_indices, ih, List.range'_append_1, List.length_append]

/-- The handles a round uses are those below its number of entries. -/
theorem used_iff (ds : List Delivery) (m : Mem) (i : Nat) :
    (∃ use ∈ round m 0 (ds.map Delivery.descriptor), use.1 = i) ↔ i < demand m ds := by
  rw [← length_round ds m 0, ← List.mem_map (f := Prod.fst), round_indices, List.mem_range'_1]
  omega

/-- **The handles stay in range** if and only if the entries of all connections of the round, and
those left over behind them, are at most 256. -/
theorem handles_in_range_iff (m : Mem) (ds : List Delivery) :
    (∀ use ∈ round m 0 (ds.map Delivery.descriptor), use.1 < HANDLES) ↔ demand m ds ≤ HANDLES := by
  constructor
  · intro h
    by_contra hlt
    obtain ⟨use, huse, heq⟩ := (used_iff ds m HANDLES).mpr (by omega)
    exact absurd (h use huse) (by omega)
  · intro h use huse
    have used := (used_iff ds m use.1).mp ⟨use, huse, rfl⟩
    omega

/-- Forty deletes. -/
def fortyDels : Message where
  adds := []
  dels := (List.range 40).map fun i => ⟨7, 0xC0A80002, BitVec.ofNat 16 (40000 + i)⟩
  send_buffer := fun _ => 0
  adds_le := Nat.zero_le _
  dels_le := by decide

/-- Four connections that deliver two messages of forty deletes each take 320 handles. -/
theorem four_overflow :
    let d := Delivery.recv [fortyDels.offload, fortyDels.offload] true (fun _ => 0)
    (Delivery.data [fortyDels.offload, fortyDels.offload]).length ≤ 1024 ∧
    demand (fun _ => 0) [d, d, d, d] = 320 ∧
    ¬ ∀ use ∈ round (fun _ => 0) 0 ([d, d, d, d].map Delivery.descriptor), use.1 < HANDLES := by
  intro d
  have total : demand (fun _ => 0) [d, d, d, d] = 320 := by decide +kernel
  refine ⟨by decide +kernel, total, fun h => ?_⟩
  obtain ⟨use, huse, heq⟩ := (used_iff [d, d, d, d] (fun _ => 0) HANDLES).mpr
    (total ▸ by decide)
  exact absurd (h use huse) (by omega)

/-! ### Short receives -/

/-- Every receive has at most 1024 bytes and nothing left over behind them. -/
def Short (m : Mem) : List Delivery → Prop
  | [] => True
  | d :: ds =>
    (match d with
      | .accept => True
      | .recv msgs _ behind => (Delivery.data msgs).length ≤ RECV_BUFFER ∧
          CleanTail (Descriptor.memory m behind) (Delivery.data msgs).length) ∧
      Short (d.descriptor.buffer m) ds

theorem counts_eq_zero {m : Mem} {n : Nat} : Delivery.counts m n = 0 ↔ CleanTail m n := by
  rw [Delivery.counts, ← length_leftOver, List.length_eq_zero_iff, leftOver_eq_nil_iff]

/-- Twelve bytes for an entry, three for a message. -/
theorem size_le_data (msgs : List OffloadMessage) :
    12 * (msgs.map Delivery.size).sum + 3 * msgs.length ≤ (Delivery.data msgs).length := by
  induction msgs with
  | nil => exact Nat.le_refl 0
  | cons o msgs ih =>
      rw [Delivery.data, List.flatMap_cons, List.length_append, OffloadMessage.length_bytes,
        List.map_cons, List.sum_cons, List.length_cons, Delivery.size]
      rw [Delivery.data] at ih
      omega

/-- A short receive has at most 85 entries. -/
theorem demand_le {m : Mem} {ds : List Delivery} (h : Short m ds) :
    demand m ds ≤ 85 * ds.length := by
  induction ds generalizing m with
  | nil => exact Nat.le_refl 0
  | cons d ds ih =>
      obtain ⟨first, rest⟩ := h
      have := ih rest
      have : d.entries m ≤ 85 := by
        cases d with
        | accept => exact Nat.zero_le _
        | recv msgs begin_batch behind =>
            obtain ⟨hlen, hclean⟩ := first
            rw [Delivery.entries, counts_eq_zero.mpr hclean]
            have bytes := size_le_data msgs
            simp only [RECV_BUFFER] at hlen
            split
            · rename_i hne
              have := List.length_pos_of_ne_nil hne.2
              omega
            · exact Nat.zero_le _
      rw [demand, List.length_cons]
      omega

/-- **Three connections** in a round never run out of handles. -/
theorem three_in_range {m : Mem} {ds : List Delivery} (h : Short m ds) (hn : ds.length ≤ 3) :
    ∀ i, (∃ use ∈ round m 0 (ds.map Delivery.descriptor), use.1 = i) → i < HANDLES := by
  intro i hi
  have := (used_iff ds m i).mp hi
  have := demand_le h
  simp only [HANDLES]
  omega

end Miresga.System
