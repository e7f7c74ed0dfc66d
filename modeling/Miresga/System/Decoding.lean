import Miresga.Frontend.MessageBytes
import Miresga.System.Framing

/-!
# System — what one receive decodes

`run_controller` decodes from the first received byte on and stops at a byte that starts no message,
or behind the received bytes.  The loop runs while `now_bytes <= recv_size`, so it also looks at the
byte behind the received ones.  Behind complete messages it therefore performs what the buffer holds
there from earlier receives, if that looks like a message: `leftOver`.

* `Descriptor.ops_messages`: a receive of complete messages performs their entries in order, and
  then the left-over ones.
* `leftOver_eq_nil_iff`: there are none exactly if the tail is clean (`CleanTail`).

The decoder also reads behind the end of `recv_buffer`.  What stands there is no matter of the
buffer's earlier content and may change between two receives; every receive brings it along.
-/

namespace Miresga.System

open Frontend Switch

/-- The size of `recv_buffer`. -/
def RECV_BUFFER : Nat := 1024

/-- A ready descriptor: the listening socket, or a connection with what `recv` returns, whether
`bf_rt_begin_batch` succeeds, and what stands behind the end of `recv_buffer`. -/
inductive Descriptor where
  | accept
  | recv (data : List Byte) (begin_batch : Bool) (behind : Mem)

namespace Descriptor

/-- `recv_buffer` and what stands behind it. -/
def memory (recv_buffer behind : Mem) : Mem := behind.copy recv_buffer RECV_BUFFER

/-- The buffer after the descriptor has been served. -/
def buffer (recv_buffer : Mem) : Descriptor → Mem
  | accept => recv_buffer
  | recv data _ behind => (memory recv_buffer behind).write 0 data

/-- The table operations of a descriptor, from `entry_index` on.  A new connection has none, nor has
one that is closed. -/
def ops (recv_buffer : Mem) (entry_index : Nat) : Descriptor → List (Nat × TableOp)
  | accept => []
  | recv data begin_batch behind =>
    if data = [] then []
    else RecvEvent.ops ⟨data, begin_batch, entry_index⟩ (memory recv_buffer behind)

end Descriptor

/-- The operations of a message: its adds, then its deletes. -/
def offloadOps (o : OffloadMessage) : List TableOp := o.adds.map .ofAdd ++ o.dels.map .ofDel

@[simp] theorem offloadOps_offload (msg : Message) : offloadOps msg.offload = messageOps msg := by
  rw [offloadOps, Message.offload_adds, Message.offload_dels, messageOps]

@[simp] theorem length_offloadOps (o : OffloadMessage) :
    (offloadOps o).length = o.add_size.toNat + o.del_size.toNat := by
  simp [offloadOps]

theorem offloadOps_eq_nil {o : OffloadMessage} :
    offloadOps o = [] ↔ o.add_size = 0 ∧ o.del_size = 0 := by
  rw [← List.length_eq_zero_iff, length_offloadOps, Nat.add_eq_zero_iff]
  exact and_congr (BitVec.toNat_eq (y := 0)).symm (BitVec.toNat_eq (y := 0)).symm

/-! ### What stands behind the received bytes -/

/-- What the decoder performs if it looks for a message at `n` and stops behind it. -/
def leftOver (m : Mem) (n : Nat) : List TableOp :=
  if m n = OFFLOAD_ENTRIES then
    (my_pair_t.loadAll m (n + 3) (m (n + 1)).toNat).map .ofAdd ++
      (my_key_t.loadAll m (n + 3 + 16 * (m (n + 1)).toNat) (m (n + 2)).toNat).map .ofDel
  else []

theorem length_leftOver (m : Mem) (n : Nat) :
    (leftOver m n).length =
      if m n = OFFLOAD_ENTRIES then (m (n + 1)).toNat + (m (n + 2)).toNat else 0 := by
  unfold leftOver
  split
  · simp
  · rfl

/-- Nothing is left over exactly if no message with entries starts there. -/
theorem leftOver_eq_nil_iff {m : Mem} {n : Nat} : leftOver m n = [] ↔ CleanTail m n := by
  rw [← List.length_eq_zero_iff, length_leftOver, CleanTail]
  split
  · rename_i ht
    rw [Nat.add_eq_zero_iff]
    exact ⟨fun h _ => ⟨BitVec.eq_of_toNat_eq h.1, BitVec.eq_of_toNat_eq h.2⟩, fun h =>
      ⟨congrArg BitVec.toNat (h ht).1, congrArg BitVec.toNat (h ht).2⟩⟩
  · rename_i ht
    exact ⟨fun _ h => absurd h ht, fun _ => rfl⟩

/-- Bytes in front do not matter. -/
theorem leftOver_congr {m m' : Mem} {n : Nat} (h : ∀ i, n ≤ i → m i = m' i) :
    leftOver m n = leftOver m' n := by
  have shifted : ∀ {o i : Nat}, n ≤ o → m (o + i) = m' (o + i) := fun ho => h _ (by omega)
  unfold leftOver
  rw [h n (by omega), h (n + 1) (by omega), h (n + 2) (by omega),
    my_pair_t.loadAll_congr (n := m') fun i _ => shifted (by omega),
    my_key_t.loadAll_congr (n := m') fun i _ => shifted (by omega)]

/-- Behind the received bytes the loop looks once. -/
theorem decode_behind (m : Mem) (n idx : Nat) :
    (decode m n n idx).map Prod.snd = leftOver m n := by
  unfold leftOver
  split
  · rename_i ht
    rw [decode_round_ops idx (Nat.le_refl n) ht, decode_end (.inl (by omega)), List.map_nil,
      List.append_nil]
  · rename_i ht
    rw [decode_end (.inr ht)]
    rfl

/-! ### Handles -/

/-- The handles of a descriptor are used one after the other. -/
theorem Descriptor.ops_indices (r : Descriptor) (m : Mem) (idx : Nat) :
    (r.ops m idx).map Prod.fst = List.range' idx (r.ops m idx).length := by
  cases r with
  | accept => rfl
  | recv data begin_batch behind =>
      rw [ops]
      split
      · rfl
      · exact RecvEvent.ops_indices _ _

/-- The same operations from the same handle on are the same with their handles. -/
theorem Descriptor.ops_ext {r r' : Descriptor} {m m' : Mem} {idx : Nat}
    (h : (r.ops m idx).map Prod.snd = (r'.ops m' idx).map Prod.snd) :
    r.ops m idx = r'.ops m' idx := by
  have hlen : (r.ops m idx).length = (r'.ops m' idx).length := by
    simpa only [List.length_map] using congrArg List.length h
  have numbered : (r.ops m idx).unzip = (r'.ops m' idx).unzip := by
    rw [List.unzip_eq_map, List.unzip_eq_map, Descriptor.ops_indices,
      Descriptor.ops_indices, hlen, h]
  rw [← List.zip_unzip (r.ops m idx), numbered, List.zip_unzip]

/-! ### Complete messages -/

/-- A complete message in the buffer is performed, and the loop goes on behind it. -/
theorem decode_offload {m : Mem} {n now : Nat} {o : OffloadMessage} (idx : Nat) (hle : now ≤ n)
    (h : o.At m now) :
    (decode m n now idx).map Prod.snd =
      offloadOps o ++ (decode m n (now + o.bytes.length)
        (idx + o.add_size.toNat + o.del_size.toNat)).map Prod.snd := by
  rw [decode_round_ops idx hle h.type, h.add_size, h.del_size, h.load_adds, h.load_dels,
    offloadOps, List.append_assoc, OffloadMessage.length_bytes,
    show now + (3 + 16 * o.add_size.toNat + 12 * o.del_size.toNat) =
      now + 3 + 16 * o.add_size.toNat + 12 * o.del_size.toNat by omega]

/-- Complete messages from `l.length` on are performed in order, and then what is left over. -/
theorem decode_offloads {m : Mem} (msgs : List OffloadMessage) (l : List Byte) (idx : Nat) :
    let received := l ++ msgs.flatMap OffloadMessage.bytes
    (decode (m.write 0 received) received.length l.length idx).map Prod.snd =
      msgs.flatMap offloadOps ++ leftOver m received.length := by
  induction msgs generalizing l idx with
  | nil =>
      dsimp only
      rw [List.flatMap_nil, List.append_nil, decode_behind, List.flatMap_nil, List.nil_append]
      exact leftOver_congr fun i hi => Mem.write_outside _ (by omega)
  | cons o msgs ih =>
      dsimp only at ih ⊢
      have here : o.At (m.write 0 (l ++ (o.bytes ++ msgs.flatMap OffloadMessage.bytes)))
          l.length := by
        have h := (Mem.holds_write m 0 (l ++ (o.bytes ++ msgs.flatMap OffloadMessage.bytes))).right
        rw [Nat.zero_add] at h
        exact h.left
      rw [List.flatMap_cons, decode_offload idx (by simp) here, ← List.length_append,
        ← List.append_assoc, ih (l ++ o.bytes), List.flatMap_cons, List.append_assoc (offloadOps o)]

/-- **A receive of complete messages** performs their entries in order, and then the left-over
ones. -/
theorem Descriptor.ops_messages {m : Mem} {msgs : List OffloadMessage} (behind : Mem) (idx : Nat)
    (hne : msgs ≠ []) :
    ((Descriptor.recv (msgs.flatMap OffloadMessage.bytes) true behind).ops m idx).map Prod.snd =
      msgs.flatMap offloadOps ++
        leftOver (memory m behind) (msgs.flatMap OffloadMessage.bytes).length := by
  have hdata : msgs.flatMap OffloadMessage.bytes ≠ [] := by
    obtain ⟨o, rest, rfl⟩ := List.exists_cons_of_ne_nil hne
    simp [OffloadMessage.bytes]
  rw [ops, if_neg hdata]
  exact decode_offloads msgs [] idx

/-- The receive is decoded as it was meant: the driver begins the batch and the buffer holds no
left-over message, or the driver does not and there is nothing to perform. -/
def Clean (msgs : List OffloadMessage) (begin_batch : Bool) (m behind : Mem) : Prop :=
  if begin_batch then
    msgs ≠ [] → CleanTail (Descriptor.memory m behind) (msgs.flatMap OffloadMessage.bytes).length
  else ∀ o ∈ msgs, o.add_size = 0 ∧ o.del_size = 0

theorem Descriptor.exact_iff (msgs : List OffloadMessage) (begin_batch : Bool) (m behind : Mem)
    (idx : Nat) :
    ((Descriptor.recv (msgs.flatMap OffloadMessage.bytes) begin_batch behind).ops m idx).map
          Prod.snd =
        msgs.flatMap offloadOps ↔
      Clean msgs begin_batch m behind := by
  cases begin_batch with
  | false =>
      have none :
          (Descriptor.recv (msgs.flatMap OffloadMessage.bytes) false behind).ops m idx = [] := by
        rw [ops]
        split
        · rfl
        · rfl
      rw [none, List.map_nil, eq_comm, List.flatMap_eq_nil_iff]
      exact forall₂_congr fun o _ => offloadOps_eq_nil
  | true =>
      rw [Clean, if_pos rfl]
      by_cases hne : msgs = []
      · subst hne
        exact ⟨fun _ h => absurd rfl h, fun _ => rfl⟩
      · rw [ops_messages behind idx hne, List.append_right_eq_self, leftOver_eq_nil_iff]
        exact ⟨fun h _ => h, fun h => h hne⟩

/-- There are handles for the entries of the messages, from `idx` on. -/
def HandlesFor (msgs : List OffloadMessage) (idx : Nat) : Prop :=
  msgs.flatMap offloadOps = [] ∨ idx + (msgs.flatMap offloadOps).length ≤ HANDLES

theorem Descriptor.in_range_iff {r : Descriptor} {m : Mem} {idx : Nat} {msgs : List OffloadMessage}
    (h : (r.ops m idx).map Prod.snd = msgs.flatMap offloadOps) :
    (∀ use ∈ r.ops m idx, use.1 < HANDLES) ↔ HandlesFor msgs idx := by
  have hlen := congrArg List.length h
  rw [List.length_map] at hlen
  rw [HandlesFor, ← List.length_eq_zero_iff, ← hlen, ← range'_lt_iff, ← Descriptor.ops_indices,
    List.forall_mem_map]

/-- **Decoding.**  A receive of complete messages performs exactly their entries, and the same for
two earlier contents of the buffer, if and only if for neither of them a message with entries stands
behind the received bytes.  It does so on handles that there are if and only if, besides, there are
handles for the entries of the messages. -/
theorem decode_ignores_leftOver_iff (msgs : List OffloadMessage) (begin_batch : Bool)
    (m m' behind behind' : Mem) (idx : Nat) :
    let r := Descriptor.recv (msgs.flatMap OffloadMessage.bytes) begin_batch behind
    let r' := Descriptor.recv (msgs.flatMap OffloadMessage.bytes) begin_batch behind'
    let performs := (r.ops m idx).map Prod.snd = msgs.flatMap offloadOps ∧
      r'.ops m' idx = r.ops m idx
    let clean := Clean msgs begin_batch m behind ∧ Clean msgs begin_batch m' behind'
    (performs ↔ clean) ∧
      (performs ∧ (∀ use ∈ r.ops m idx, use.1 < HANDLES) ↔ clean ∧ HandlesFor msgs idx) := by
  intro r r' performs clean
  have hiff : performs ↔ clean := by
    dsimp only [performs, clean, r, r']
    rw [← Descriptor.exact_iff msgs begin_batch m behind idx,
      ← Descriptor.exact_iff msgs begin_batch m' behind' idx]
    refine and_congr_right fun first => ⟨fun h => by rw [h, first], fun second => ?_⟩
    exact Descriptor.ops_ext (second.trans first.symm)
  refine ⟨hiff, ?_⟩
  rw [← hiff]
  exact and_congr_right fun h => Descriptor.in_range_iff h.1

/-- One connection delivered an add and a delete for a client; another delivers the add again.  The
delete is still in the buffer behind it and is performed once more. -/
theorem leftOver_performed :
    let r := Descriptor.recv ([sampleAdd.offload].flatMap OffloadMessage.bytes) true (fun _ => 0)
    let m := Mem.write (fun _ => 0) 0 (sampleAdd.bytes ++ sampleDel.bytes)
    ([sampleAdd.offload].flatMap OffloadMessage.bytes).length ≤ 1023 ∧
    (r.ops m 0).map Prod.snd = [.add ⟨0xC0A80002, 40000⟩ 1, .del ⟨0xC0A80002, 40000⟩] ∧
    ¬ ((r.ops m 0).map Prod.snd = [sampleAdd.offload].flatMap offloadOps ∧
      r.ops (fun _ => 0) 0 = r.ops m 0) := by
  decide +kernel

end Miresga.System
