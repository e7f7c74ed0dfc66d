import Miresga.Frontend.EntryController

/-!
# Frontend — offload messages as bytes

A complete offload message is the type byte, two counts and as many bytes as 16 for each add and 12
for each delete come to.  Its entries are what a little-endian host loads from these bytes; the
padding is whatever it is.  Every `Message` is one (`Message.offload`), but a count may be any byte
here.
-/

namespace Miresga.Frontend

/-- A complete offload message: its two count bytes and the bytes of its entries. -/
structure OffloadMessage where
  add_size : Byte
  del_size : Byte
  entries : List Byte
  length_entries : entries.length = 16 * add_size.toNat + 12 * del_size.toNat

namespace OffloadMessage

variable (o : OffloadMessage)

/-- The message as it is sent. -/
def bytes : List Byte := OFFLOAD_ENTRIES :: o.add_size :: o.del_size :: o.entries

/-- The entries in a memory of their own. -/
def image : Mem := Mem.write (fun _ => 0) 0 o.entries

def adds : List MyPair := my_pair_t.loadAll o.image 0 o.add_size.toNat

def dels : List MyKey := my_key_t.loadAll o.image (16 * o.add_size.toNat) o.del_size.toNat

@[simp] theorem length_bytes :
    o.bytes.length = 3 + 16 * o.add_size.toNat + 12 * o.del_size.toNat := by
  simp only [bytes, List.length_cons, o.length_entries]
  omega

@[simp] theorem length_adds : o.adds.length = o.add_size.toNat := Record.length_loadAll ..

@[simp] theorem length_dels : o.dels.length = o.del_size.toNat := Record.length_loadAll ..

end OffloadMessage

/-- The message's bytes stand at `now` in `m`. -/
def OffloadMessage.At (o : OffloadMessage) (m : Mem) (now : Nat) : Prop := m.Holds now o.bytes

namespace OffloadMessage.At

variable {o : OffloadMessage} {m : Mem} {now : Nat} (h : o.At m now)

include h

theorem type : m now = OFFLOAD_ENTRIES := h.head

theorem add_size : m (now + 1) = o.add_size := h.tail.head

theorem del_size : m (now + 2) = o.del_size := h.tail.tail.head

/-- The entries stand behind the counts. -/
theorem entry {i : Nat} (hi : i < o.entries.length) : m (now + 3 + i) = o.image i := by
  have inside : o.image (0 + i) = o.entries[i] := Mem.write_inside hi
  have held : m (now + 3 + i) = o.entries[i] := h.tail.tail.tail i hi
  rw [held, ← inside, Nat.zero_add]

theorem load_adds : my_pair_t.loadAll m (now + 3) o.add_size.toNat = o.adds := by
  refine Record.loadAll_congr _ fun i (hi : i < 16 * o.add_size.toNat) => ?_
  rw [h.entry (by rw [o.length_entries]; omega), Nat.zero_add]

theorem load_dels :
    my_key_t.loadAll m (now + 3 + 16 * o.add_size.toNat) o.del_size.toNat = o.dels := by
  refine Record.loadAll_congr _ fun i (hi : i < 12 * o.del_size.toNat) => ?_
  rw [Nat.add_assoc (now + 3), h.entry (by rw [o.length_entries]; omega)]

end OffloadMessage.At

/-! ### The messages of the entry controller -/

namespace Message

variable (msg : Message)

/-- A message's bytes, taken apart. -/
def offload : OffloadMessage where
  add_size := msg.image 1
  del_size := msg.image 2
  entries := msg.image.bytes 3 (16 * msg.adds.length + 12 * msg.dels.length)
  length_entries := by rw [Mem.length_bytes, msg.image_adds, msg.image_dels]

@[simp] theorem offload_bytes : msg.offload.bytes = msg.bytes := by
  have three : msg.image.bytes 0 3 = [OFFLOAD_ENTRIES, msg.image 1, msg.image 2] := by
    rw [← msg.image_type]
    rfl
  rw [bytes, size, Nat.add_assoc, Mem.bytes_append, three]
  rfl

/-- A message is where its bytes are. -/
theorem at_of_offload {m : Mem} {o : Nat} (h : msg.offload.At m o) : msg.At m o := by
  intro i hi
  have hi' : i < msg.offload.bytes.length := by rwa [offload_bytes, length_bytes]
  rw [h i hi']
  simp only [offload_bytes, bytes, Mem.getElem_bytes, Nat.zero_add]

theorem offload_at : msg.offload.At msg.image 0 := by
  intro i hi
  simp only [offload_bytes, bytes, Mem.getElem_bytes]

@[simp] theorem offload_adds : msg.offload.adds = msg.adds := by
  have h := msg.at_of_offload msg.offload_at
  rw [← msg.offload_at.load_adds, ← h.load_adds, ← msg.image_adds]
  rfl

@[simp] theorem offload_dels : msg.offload.dels = msg.dels := by
  have h := msg.at_of_offload msg.offload_at
  rw [← msg.offload_at.load_dels, ← h.load_dels, ← msg.image_adds, ← msg.image_dels]
  rfl

end Message

end Miresga.Frontend
