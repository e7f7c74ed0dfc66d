import Miresga.Lib.Record
import Miresga.Frontend.Data

/-!
# Frontend — the entry controller

`entry_controller_t` moves what was enqueued on `add_queue` and `del_queue` into messages for the
switch.  On every tick of its timer `get_offloaded_entries` takes what the two queues give, up to 40
elements each, behind what was left over, and writes one message with up to 40 adds and 40 deletes:

    type 3 | number of adds | number of deletes | adds, 16 bytes each | deletes, 12 bytes each

`my_pair_t` and `my_key_t` are written as they lie in memory, padding included.  The padding bytes
are not determined by the source; here they are what the send buffer held before.

The two arrays are lists, their `remain_` sizes the lengths.
-/

namespace Miresga.Frontend

def BATCH_SIZE : Nat := 40
def THRESHOLD : Nat := 20

/-- The size of the buffers for the switch. -/
def ETH_FRAME_LEN : Nat := 1514

/-- `OFFLOAD_ENTRIES`. -/
def OFFLOAD_ENTRIES : Byte := 3

/-! ### The two records -/

/-- `my_key_t`: 12 bytes, with `crc` at 0, `client_ip` at 4 and `client_port` at 8. -/
def my_key_t : Record MyKey where
  size := 12
  store m o k := ((m.st8 o k.crc).st32 (o + 4) k.client_ip).st16 (o + 8) k.client_port
  load m o := ⟨m o, m.ld32 (o + 4), m.ld16 (o + 8)⟩
  store_outside m o k i h := by
    rw [Mem.st16_outside _ (by omega), Mem.st32_outside _ (by omega), Mem.st8_apply,
      if_neg (by omega)]
  load_congr m n o p h := by
    rw [Mem.ld32_shift fun i hi => ?_, Mem.ld16_shift fun i hi => ?_]
    · rw [show m o = n p from h 0 (by omega)]
    · rw [Nat.add_assoc, Nat.add_assoc]
      exact h (8 + i) (by omega)
    · rw [Nat.add_assoc, Nat.add_assoc]
      exact h (4 + i) (by omega)
  load_store m o k := by
    rw [Mem.ld16_st16, Mem.ld32_st16_ne _ (by omega), Mem.ld32_st32, Mem.st16_outside _ (by omega),
      Mem.st32_outside _ (by omega), Mem.st8_apply, if_pos rfl]

/-- `my_pair_t`: 16 bytes, with the key at 0, `offload_flag` at 12 and `d_index` at 13. -/
def my_pair_t : Record MyPair where
  size := 16
  store m o x :=
    ((my_key_t.store m o x.key).st8 (o + 12) x.data.offload_flag).st8 (o + 13) x.data.d_index
  load m o := ⟨my_key_t.load m o, ⟨m (o + 12), m (o + 13)⟩⟩
  store_outside m o x i h := by
    rw [Mem.st8_apply, if_neg (by omega), Mem.st8_apply, if_neg (by omega)]
    exact my_key_t.store_outside _ _ _ _ (h.imp_right fun h => Nat.le_trans (by simp [my_key_t]) h)
  load_congr m n o p h := by
    rw [my_key_t.load_congr m n o p fun i hi => h i (Nat.lt_trans hi (by simp [my_key_t])),
      h 12 (by omega), h 13 (by omega)]
  load_store m o x := by
    rw [my_key_t.load_congr _ (my_key_t.store m o x.key) o o fun i hi => ?_, my_key_t.load_store]
    · simp [Mem.st8_apply]
    · have hi : i < 12 := hi
      rw [Mem.st8_apply, if_neg (by omega), Mem.st8_apply, if_neg (by omega)]

/-! ### Messages -/

/-- A message: its entries, at most a batch of each, and the buffer it is written into. -/
structure Message where
  adds : List MyPair
  dels : List MyKey
  send_buffer : Mem
  adds_le : adds.length ≤ BATCH_SIZE
  dels_le : dels.length ≤ BATCH_SIZE

namespace Message

variable (msg : Message)

def size : Nat := 3 + 16 * msg.adds.length + 12 * msg.dels.length

/-- The send buffer with the message's type and counts. -/
def header : Mem :=
  let m := msg.send_buffer.st8 0 OFFLOAD_ENTRIES
  let m := m.st8 1 (BitVec.ofNat 8 msg.adds.length)
  m.st8 2 (BitVec.ofNat 8 msg.dels.length)

/-- The send buffer with the message in it. -/
def image : Mem :=
  let m := my_pair_t.storeAll msg.header 3 msg.adds
  my_key_t.storeAll m (3 + 16 * msg.adds.length) msg.dels

/-- The bytes that are sent. -/
def bytes : List Byte := msg.image.bytes 0 msg.size

@[simp] theorem length_bytes : msg.bytes.length = msg.size := Mem.length_bytes ..

theorem image_header {i : Nat} (h : i < 3) : msg.image i = msg.header i := by
  simp only [image]
  rw [Record.storeAll_outside _ _ (by omega), Record.storeAll_outside _ _ (by omega)]

theorem image_type : msg.image 0 = OFFLOAD_ENTRIES := msg.image_header (by omega)

/-- The counts are bytes, and no count wraps. -/
theorem image_adds : (msg.image 1).toNat = msg.adds.length := by
  have := msg.adds_le
  rw [image_header _ (by omega)]
  simp only [BATCH_SIZE] at this
  simp [header, Mem.st8_apply]
  omega

theorem image_dels : (msg.image 2).toNat = msg.dels.length := by
  have := msg.dels_le
  rw [image_header _ (by omega)]
  simp only [BATCH_SIZE] at this
  simp [header, Mem.st8_apply]
  omega

end Message

/-- `m` holds the message from `o` on. -/
def Message.At (msg : Message) (m : Mem) (o : Nat) : Prop :=
  ∀ i, i < msg.size → m (o + i) = msg.image i

namespace Message.At

variable {msg : Message} {m : Mem} {o : Nat} (h : msg.At m o)

include h

theorem type : m o = OFFLOAD_ENTRIES :=
  (h 0 (by simp only [Message.size]; omega)).trans msg.image_type

theorem count_adds : (m (o + 1)).toNat = msg.adds.length := by
  rw [h 1 (by simp only [Message.size]; omega), msg.image_adds]

theorem count_dels : (m (o + 2)).toNat = msg.dels.length := by
  rw [h 2 (by simp only [Message.size]; omega), msg.image_dels]

theorem load_adds : my_pair_t.loadAll m (o + 3) msg.adds.length = msg.adds := by
  refine Record.loadAll_of_copy _ msg.header (o := 3) fun i (hi : i < 16 * msg.adds.length) => ?_
  rw [Nat.add_assoc, h (3 + i) (by simp only [Message.size]; omega), Message.image]
  exact Record.storeAll_outside _ _ (by omega)

theorem load_dels :
    my_key_t.loadAll m (o + 3 + 16 * msg.adds.length) msg.dels.length = msg.dels := by
  refine Record.loadAll_of_copy _ (my_pair_t.storeAll msg.header 3 msg.adds)
    (o := 3 + 16 * msg.adds.length)
    fun i (hi : i < 12 * msg.dels.length) => ?_
  rw [Nat.add_assoc, Nat.add_assoc o, ← Nat.add_assoc 3, h _ (by simp only [Message.size]; omega)]
  rfl

end Message.At

/-! ### `get_offloaded_entries` -/

/-- `add_pairs` and `del_keys`, as far as they are in use. -/
structure EntryController where
  add_pairs : List MyPair
  del_keys : List MyKey

namespace EntryController

variable (e : EntryController)

/-- Little is left over: the queues are looked at. -/
def has_room : Prop := e.add_pairs.length ≤ THRESHOLD ∧ e.del_keys.length ≤ THRESHOLD

instance : Decidable e.has_room := inferInstanceAs (Decidable (_ ∧ _))

/-- The first `try_dequeue_bulk` gave `got`. -/
def dequeue_adds (got : List MyPair) : EntryController := { e with add_pairs := e.add_pairs ++ got }

/-- The second `try_dequeue_bulk` gave `got`. -/
def dequeue_dels (got : List MyKey) : EntryController := { e with del_keys := e.del_keys ++ got }

/-- The message for the entries in front. -/
def message (send_buffer : Mem) : Message where
  adds := e.add_pairs.take BATCH_SIZE
  dels := e.del_keys.take BATCH_SIZE
  send_buffer := send_buffer
  adds_le := List.length_take_le ..
  dels_le := List.length_take_le ..

/-- The entries behind the message move to the front. -/
def rest : EntryController :=
  { add_pairs := e.add_pairs.drop BATCH_SIZE, del_keys := e.del_keys.drop BATCH_SIZE }

/-- The second half of `get_offloaded_entries`: a message, unless there is nothing to send. -/
def flush (send_buffer : Mem) : Option Message × EntryController :=
  if e.add_pairs = [] ∧ e.del_keys = [] then (none, e) else (some (e.message send_buffer), e.rest)

/-- `adds` and `dels` are what the two queues give, if they are asked. -/
def get_offloaded_entries (adds : List MyPair) (dels : List MyKey) (send_buffer : Mem) :
    Option Message × EntryController :=
  if e.has_room then ((e.dequeue_adds adds).dequeue_dels dels).flush send_buffer
  else e.flush send_buffer

end EntryController

end Miresga.Frontend
