import Miresga.Frontend.EntryController

/-!
# Switch — the receive path of the controller

`run_controller` waits for its sockets in rounds.  A round begins with `entry_index` 0; for every
readable connection it receives up to 1024 bytes into `recv_buffer` and decodes what is there as
offload messages.  Nothing is kept of a connection between two receives but the buffer itself, whose
bytes behind those received are left over from earlier ones.

The decoder goes on while `now_bytes <= recv_size`, so it also looks at the byte behind what it
received.  It takes counts and entries from the buffer without a look at `recv_size`.

The offload table is matched on address and port; the entry's `crc` is not part of the key.  The
calls of the table API are what the decoder performs (`TableOp`), with the handle each one uses.
-/

namespace Miresga.Switch

open Frontend

/-- The key of `offload_connection_table`. -/
structure ClientKey where
  cip : BitVec 32
  cport : BitVec 16
  deriving DecidableEq, Repr

/-- A call of `bf_rt_table_entry_add` or `bf_rt_table_entry_del`. -/
inductive TableOp where
  | add (key : ClientKey) (d_index : Byte)
  | del (key : ClientKey)
  deriving DecidableEq, Repr

/-- The fields of the key that are set from a `my_key_t`. -/
def ClientKey.ofMyKey (k : MyKey) : ClientKey := ⟨k.client_ip, k.client_port⟩

def TableOp.ofAdd (x : MyPair) : TableOp := .add (.ofMyKey x.key) x.data.d_index
def TableOp.ofDel (k : MyKey) : TableOp := .del (.ofMyKey k)

/-! ### The decoder -/

/-- The `add_size` pairs at `now_bytes`, with `entry_index` counting up. -/
def recv_adds (m : Mem) : Nat → Nat → Nat → List (Nat × TableOp)
  | 0, _, _ => []
  | add_size + 1, now_bytes, entry_index =>
    (entry_index, .ofAdd (my_pair_t.load m now_bytes)) ::
      recv_adds m add_size (now_bytes + 16) (entry_index + 1)

/-- The `del_size` keys at `now_bytes`, with `entry_index` counting up. -/
def recv_dels (m : Mem) : Nat → Nat → Nat → List (Nat × TableOp)
  | 0, _, _ => []
  | del_size + 1, now_bytes, entry_index =>
    (entry_index, .ofDel (my_key_t.load m now_bytes)) ::
      recv_dels m del_size (now_bytes + 12) (entry_index + 1)

/-- The `while` loop, for as many rounds as `fuel` says. -/
def recv_loop (recv_buffer : Mem) (recv_size : Nat) : Nat → Nat → Nat → List (Nat × TableOp)
  | 0, _, _ => []
  | fuel + 1, now_bytes, entry_index =>
    if now_bytes ≤ recv_size then
      if recv_buffer now_bytes = OFFLOAD_ENTRIES then
        let add_size := (recv_buffer (now_bytes + 1)).toNat
        let del_size := (recv_buffer (now_bytes + 2)).toNat
        recv_adds recv_buffer add_size (now_bytes + 3) entry_index ++
          (recv_dels recv_buffer del_size (now_bytes + 3 + 16 * add_size) (entry_index + add_size) ++
            recv_loop recv_buffer recv_size fuel (now_bytes + 3 + 16 * add_size + 12 * del_size)
              (entry_index + add_size + del_size))
      else []
    else []

/-- The loop until it ends; every round but the last moves on by three bytes at least. -/
def decode (recv_buffer : Mem) (recv_size now_bytes entry_index : Nat) : List (Nat × TableOp) :=
  recv_loop recv_buffer recv_size (recv_size + 1 - now_bytes) now_bytes entry_index

/-- A readable connection: what `recv` returns (at most 1024 bytes, and not none), whether
`bf_rt_begin_batch` succeeds, and the `entry_index` the round has got to. -/
structure RecvEvent where
  data : List Byte
  begin_batch : Bool
  entry_index : Nat

/-- The buffer after a receive. -/
def RecvEvent.buffer (e : RecvEvent) (recv_buffer : Mem) : Mem := recv_buffer.write 0 e.data

/-- The table operations of a receive; `entry_index` moves on by their number. -/
def RecvEvent.ops (e : RecvEvent) (recv_buffer : Mem) : List (Nat × TableOp) :=
  if e.begin_batch then decode (e.buffer recv_buffer) e.data.length 0 e.entry_index else []

/-- The table operations of a run of receives, in order. -/
def performed (recv_buffer : Mem) : List RecvEvent → List (Nat × TableOp)
  | [] => []
  | e :: es => e.ops recv_buffer ++ performed (e.buffer recv_buffer) es

/-! ### What the loop does in a round -/

theorem recv_adds_ops (m : Mem) (k now idx : Nat) :
    (recv_adds m k now idx).map Prod.snd = (my_pair_t.loadAll m now k).map .ofAdd := by
  induction k generalizing now idx with
  | zero => rfl
  | succ k ih =>
      rw [recv_adds, List.map_cons, ih]
      rfl

theorem recv_dels_ops (m : Mem) (k now idx : Nat) :
    (recv_dels m k now idx).map Prod.snd = (my_key_t.loadAll m now k).map .ofDel := by
  induction k generalizing now idx with
  | zero => rfl
  | succ k ih =>
      rw [recv_dels, List.map_cons, ih]
      rfl

/-- Fuel for the remaining bytes is enough. -/
theorem recv_loop_fuel (m : Mem) (n : Nat) {f g now : Nat} (idx : Nat) (hf : n + 1 - now ≤ f)
    (hg : n + 1 - now ≤ g) : recv_loop m n f now idx = recv_loop m n g now idx := by
  induction f generalizing g now idx with
  | zero =>
      cases g with
      | zero => rfl
      | succ g => rw [recv_loop, recv_loop, if_neg (by omega)]
  | succ f ih =>
      cases g with
      | zero => rw [recv_loop, recv_loop, if_neg (by omega)]
      | succ g =>
          -- the two loops go on from the same place, with less than `n + 1 - now` bytes left
          simp only [recv_loop]
          split_ifs
          · rw [ih (g := g) _ (by omega) (by omega)]
          · rfl
          · rfl

/-- A byte that starts no message ends the loop, as does the end of the bytes. -/
theorem decode_end {m : Mem} {n now idx : Nat} (h : n < now ∨ m now ≠ OFFLOAD_ENTRIES) :
    decode m n now idx = [] := by
  rw [decode, recv_loop_fuel m n (g := n + 2 - now) idx (by omega) (by omega)]
  cases hf : n + 2 - now with
  | zero => rfl
  | succ f =>
      rw [recv_loop]
      by_cases hle : now ≤ n
      · rw [if_pos hle, if_neg (h.resolve_left (by omega))]
      · rw [if_neg hle]

/-- A round of the loop. -/
theorem decode_round {m : Mem} {n now : Nat} (idx : Nat) (hle : now ≤ n)
    (ht : m now = OFFLOAD_ENTRIES) :
    decode m n now idx =
      recv_adds m (m (now + 1)).toNat (now + 3) idx ++
        (recv_dels m (m (now + 2)).toNat (now + 3 + 16 * (m (now + 1)).toNat)
            (idx + (m (now + 1)).toNat) ++
          decode m n (now + 3 + 16 * (m (now + 1)).toNat + 12 * (m (now + 2)).toNat)
            (idx + (m (now + 1)).toNat + (m (now + 2)).toNat)) := by
  rw [decode, decode]
  rw [show n + 1 - now = (n - now) + 1 by omega, recv_loop, if_pos hle, if_pos ht]
  dsimp only
  rw [recv_loop_fuel m n (f := n - now) _ (by omega) (Nat.le_refl _)]

/-- Its operations: the adds it finds behind the counts, then the deletes. -/
theorem decode_round_ops {m : Mem} {n now : Nat} (idx : Nat) (hle : now ≤ n)
    (ht : m now = OFFLOAD_ENTRIES) :
    (decode m n now idx).map Prod.snd =
      (my_pair_t.loadAll m (now + 3) (m (now + 1)).toNat).map .ofAdd ++
        ((my_key_t.loadAll m (now + 3 + 16 * (m (now + 1)).toNat) (m (now + 2)).toNat).map .ofDel ++
          (decode m n (now + 3 + 16 * (m (now + 1)).toNat + 12 * (m (now + 2)).toNat)
            (idx + (m (now + 1)).toNat + (m (now + 2)).toNat)).map Prod.snd) := by
  rw [decode_round idx hle ht, List.map_append, List.map_append, recv_adds_ops, recv_dels_ops]

/-! ### Handles -/

/-- The number of `key_hdl`s, and of `data_hdl`s. -/
def HANDLES : Nat := 256

theorem recv_adds_indices (m : Mem) (k now idx : Nat) :
    (recv_adds m k now idx).map Prod.fst = List.range' idx k := by
  induction k generalizing now idx with
  | zero => rfl
  | succ k ih => rw [recv_adds, List.map_cons, ih, List.range'_succ]

theorem recv_dels_indices (m : Mem) (k now idx : Nat) :
    (recv_dels m k now idx).map Prod.fst = List.range' idx k := by
  induction k generalizing now idx with
  | zero => rfl
  | succ k ih => rw [recv_dels, List.map_cons, ih, List.range'_succ]

theorem recv_loop_indices (m : Mem) (n fuel now idx : Nat) :
    ∃ k, (recv_loop m n fuel now idx).map Prod.fst = List.range' idx k := by
  induction fuel generalizing now idx with
  | zero => exact ⟨0, rfl⟩
  | succ fuel ih =>
      rw [recv_loop]
      split_ifs
      · obtain ⟨k, hk⟩ := ih (now + 3 + 16 * (m (now + 1)).toNat + 12 * (m (now + 2)).toNat)
          (idx + (m (now + 1)).toNat + (m (now + 2)).toNat)
        refine ⟨(m (now + 1)).toNat + ((m (now + 2)).toNat + k), ?_⟩
        rw [List.map_append, List.map_append, recv_adds_indices, recv_dels_indices, hk,
          List.range'_append_1, List.range'_append_1]
      · exact ⟨0, rfl⟩
      · exact ⟨0, rfl⟩

/-- The handles of a receive are used one after the other. -/
theorem RecvEvent.ops_indices (e : RecvEvent) (m : Mem) :
    (e.ops m).map Prod.fst = List.range' e.entry_index (e.ops m).length := by
  obtain ⟨k, hk⟩ : ∃ k, (e.ops m).map Prod.fst = List.range' e.entry_index k := by
    rw [RecvEvent.ops]
    split
    · exact recv_loop_indices ..
    · exact ⟨0, rfl⟩
  have hlen := congrArg List.length hk
  rw [List.length_map, List.length_range'] at hlen
  rw [hk, hlen]

/-- Numbers in a row are all below a bound exactly when there are none or the last of them is. -/
theorem range'_lt_iff {idx n bound : Nat} :
    (∀ i ∈ List.range' idx n, i < bound) ↔ n = 0 ∨ idx + n ≤ bound := by
  constructor
  · intro h
    by_contra hno
    have := h (idx + (n - 1)) (List.mem_range'_1.mpr (by omega))
    omega
  · intro h i hi
    have := List.mem_range'_1.mp hi
    omega

/-! ### Messages -/

/-- The operations of a message: its adds, then its deletes. -/
def messageOps (msg : Message) : List TableOp := msg.adds.map .ofAdd ++ msg.dels.map .ofDel

/-- A message that is in the buffer is performed, and the loop goes on behind it. -/
theorem decode_message {m : Mem} {n now : Nat} {msg : Message} (idx : Nat) (hle : now ≤ n)
    (h : msg.At m now) :
    (decode m n now idx).map Prod.snd =
      messageOps msg ++ (decode m n (now + msg.size)
        (idx + msg.adds.length + msg.dels.length)).map Prod.snd := by
  rw [decode_round_ops idx hle h.type, h.count_adds, h.count_dels, h.load_adds, h.load_dels,
    messageOps, List.append_assoc,
    show now + msg.size = now + 3 + 16 * msg.adds.length + 12 * msg.dels.length by
      simp only [Message.size]; omega]

end Miresga.Switch
