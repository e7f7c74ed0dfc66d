import Miresga.Frontend.MessageBytes
import Miresga.Lib.Run
import Miresga.Lib.Writer

/-!
# Frontend — the arrays of the entry controller

`EntryController` says what `get_offloaded_entries` does to two lists.  In the code these are arrays
of `BATCH_SIZE * 2` elements with a count each, the message is written at a cursor into a buffer of
`ETH_FRAME_LEN` bytes, and what is left moves to the front by `memcpy`.  A write that would leave
its array, or a `memcpy` onto itself, has no result here.

The adds that move are counted in elements of `my_hash_pair_t`, not of `my_pair_t`; both have 16
bytes.

* `get_offloaded_entries_spec`: with at most `THRESHOLD` elements left over, a call has a result
  whatever the queues give, it does what the list model does, and at most `THRESHOLD` elements are
  left over again.
* `EntrySystem.conserved`: so in every run no entry is lost, repeated or moved.
-/

namespace Miresga.Frontend

/-- `sizeof(my_hash_pair_t)`: a 64-bit key, two bytes and their padding. -/
def sizeof_my_hash_pair_t : Nat := 16

/-! ### Arrays of `BATCH_SIZE * 2` elements -/

section arrays

variable {α : Type} (R : Record α)

/-- `try_dequeue_bulk` stores what it gives behind the `remain` elements in use. -/
def dequeue_into (m : Mem) (remain : Nat) (got : List α) : Option Mem :=
  if remain + got.length ≤ BATCH_SIZE * 2 then some (R.storeAll m (R.size * remain) got) else none

/-- The elements behind the first `need` move to the front, `sizeof` bytes for each of them. -/
def move_front (sizeof : Nat) (m : Mem) (need remain : Nat) : Option Mem :=
  if need < remain then
    if R.size * need + sizeof * (remain - need) ≤ R.size * (BATCH_SIZE * 2) ∧
        sizeof * (remain - need) ≤ R.size * need then
      some (m.write 0 (m.bytes (R.size * need) (sizeof * (remain - need))))
    else none
  else some m

theorem dequeue_into_spec (m : Mem) {remain : Nat} {got : List α}
    (h : remain + got.length ≤ BATCH_SIZE * 2) :
    ∃ m', dequeue_into R m remain got = some m' ∧
      R.loadAll m' 0 (remain + got.length) = R.loadAll m 0 remain ++ got :=
  ⟨_, if_pos h, R.loadAll_storeAll_behind m remain got⟩

/-- Up to a batch behind a batch moves without overlap. -/
theorem move_front_spec (m : Mem) (need remain : Nat) (hn : need ≤ BATCH_SIZE)
    (hr : remain - need ≤ need) (hle : need ≤ remain) :
    ∃ m', move_front R R.size m need remain = some m' ∧
      R.loadAll m' 0 (remain - need) = (R.loadAll m 0 remain).drop need := by
  rw [move_front, R.drop_loadAll m 0 hle, Nat.zero_add]
  split
  · have inside : R.size * need + R.size * (remain - need) ≤ R.size * (BATCH_SIZE * 2) := by
      rw [← Nat.mul_add]
      exact Nat.mul_le_mul_left _ (by omega)
    rw [if_pos ⟨inside, Nat.mul_le_mul_left _ hr⟩]
    exact ⟨_, rfl, R.loadAll_of_bytes (Mem.holds_write _ _ _)⟩
  · obtain rfl : need = remain := by omega
    exact ⟨m, rfl, by rw [Nat.sub_self]; rfl⟩

end arrays

/-! ### `get_offloaded_entries` -/

/-- `entry_controller_t`: the two arrays and how many elements of each are in use. -/
structure EntryArrays where
  add_pairs : Mem
  del_keys : Mem
  remain_add_size : Nat
  remain_del_size : Nat

/-- `need_add_size` and `need_del_size`. -/
def need (remain : Nat) : Byte :=
  BitVec.ofNat 8 (if remain > BATCH_SIZE then BATCH_SIZE else remain)

theorem toNat_need (remain : Nat) : (need remain).toNat = min remain BATCH_SIZE := by
  have least : (if remain > BATCH_SIZE then BATCH_SIZE else remain) = min remain BATCH_SIZE := by
    rw [Nat.min_def]
    split_ifs <;> omega
  have small : min remain BATCH_SIZE < 2 ^ 8 := Nat.lt_of_le_of_lt (Nat.min_le_right ..) (by decide)
  rw [need, least, BitVec.toNat_ofNat, Nat.mod_eq_of_lt small]

namespace EntryArrays

variable (c : EntryArrays)

def has_room : Prop := c.remain_add_size ≤ THRESHOLD ∧ c.remain_del_size ≤ THRESHOLD

instance : Decidable c.has_room := inferInstanceAs (Decidable (_ ∧ _))

/-- The first `try_dequeue_bulk` gave `got`. -/
def dequeue_adds (got : List MyPair) : Option EntryArrays := do
  let add_pairs ← dequeue_into my_pair_t c.add_pairs c.remain_add_size got
  some { c with add_pairs, remain_add_size := c.remain_add_size + got.length }

/-- The second `try_dequeue_bulk` gave `got`. -/
def dequeue_dels (got : List MyKey) : Option EntryArrays := do
  let del_keys ← dequeue_into my_key_t c.del_keys c.remain_del_size got
  some { c with del_keys, remain_del_size := c.remain_del_size + got.length }

/-- The first elements of the two arrays, byte by byte. -/
def add_bytes : List Byte := c.add_pairs.bytes 0 (16 * (need c.remain_add_size).toNat)

def del_bytes : List Byte := c.del_keys.bytes 0 (12 * (need c.remain_del_size).toNat)

/-- The message is written at `now_bytes`. -/
def put_message (cur : Cursor) : Option Cursor := do
  let cur ← cur.put ETH_FRAME_LEN [OFFLOAD_ENTRIES]
  let cur ← cur.put ETH_FRAME_LEN [need c.remain_add_size]
  let cur ← cur.put ETH_FRAME_LEN [need c.remain_del_size]
  let cur ← cur.put ETH_FRAME_LEN c.add_bytes
  cur.put ETH_FRAME_LEN c.del_bytes

/-- What is behind the message moves to the front. -/
def move_rest : Option EntryArrays := do
  let need_add_size := (need c.remain_add_size).toNat
  let need_del_size := (need c.remain_del_size).toNat
  let add_pairs ←
    move_front my_pair_t sizeof_my_hash_pair_t c.add_pairs need_add_size c.remain_add_size
  let del_keys ← move_front my_key_t my_key_t.size c.del_keys need_del_size c.remain_del_size
  some {
    add_pairs, del_keys
    remain_add_size := c.remain_add_size - need_add_size
    remain_del_size := c.remain_del_size - need_del_size }

/-- The second half: nothing, or a message. -/
def flush (send_buffer : Mem) : Option (Nat × Mem × EntryArrays) :=
  if c.remain_add_size = 0 ∧ c.remain_del_size = 0 then some (0, send_buffer, c)
  else do
    let cur ← c.put_message ⟨send_buffer, 0⟩
    let c ← c.move_rest
    some (cur.pos, cur.buffer, c)

/-- The returned size, the send buffer and the arrays.  `adds` and `dels` are what the two queues
give, if they are asked. -/
def get_offloaded_entries (adds : List MyPair) (dels : List MyKey) (send_buffer : Mem) :
    Option (Nat × Mem × EntryArrays) :=
  if c.has_room then do
    let c ← c.dequeue_adds adds
    let c ← c.dequeue_dels dels
    c.flush send_buffer
  else c.flush send_buffer

/-! ### The arrays hold the lists -/

/-- The elements in use. -/
def used : EntryController where
  add_pairs := my_pair_t.loadAll c.add_pairs 0 c.remain_add_size
  del_keys := my_key_t.loadAll c.del_keys 0 c.remain_del_size

@[simp] theorem length_used_adds : c.used.add_pairs.length = c.remain_add_size :=
  Record.length_loadAll ..

@[simp] theorem length_used_dels : c.used.del_keys.length = c.remain_del_size :=
  Record.length_loadAll ..

/-- The message that is written. -/
def message : OffloadMessage where
  add_size := need c.remain_add_size
  del_size := need c.remain_del_size
  entries := c.add_bytes ++ c.del_bytes
  length_entries := by simp [add_bytes, del_bytes]

theorem holds_message : c.message.image.Holds 0 (c.add_bytes ++ c.del_bytes) :=
  Mem.holds_write _ _ _

/-- A batch of the elements in use. -/
theorem take_batch {α : Type} (R : Record α) (m : Mem) (remain : Nat) :
    R.loadAll m 0 (need remain).toNat = (R.loadAll m 0 remain).take BATCH_SIZE := by
  rw [toNat_need, ← R.take_loadAll m 0 (Nat.min_le_left ..),
    List.take_eq_take_min (i := BATCH_SIZE), Record.length_loadAll, Nat.min_comm]

theorem drop_batch {α : Type} (R : Record α) (m : Mem) (remain : Nat) :
    (R.loadAll m 0 remain).drop (need remain).toNat = (R.loadAll m 0 remain).drop BATCH_SIZE := by
  rw [toNat_need]
  rcases Nat.le_total remain BATCH_SIZE with h | h
  · rw [Nat.min_eq_left h, List.drop_eq_nil_of_le (by simp), List.drop_eq_nil_of_le (by simpa)]
  · rw [Nat.min_eq_right h]

theorem message_adds : c.message.adds = c.used.add_pairs.take BATCH_SIZE :=
  (my_pair_t.loadAll_of_bytes c.holds_message.left).trans (take_batch ..)

theorem message_dels : c.message.dels = c.used.del_keys.take BATCH_SIZE := by
  have behind := c.holds_message.right
  rw [Nat.zero_add, add_bytes, Mem.length_bytes] at behind
  exact (my_key_t.loadAll_of_bytes behind).trans (take_batch ..)

/-- The message is written in front of an empty cursor. -/
theorem put_message_appends : Appends ETH_FRAME_LEN c.put_message c.message.bytes :=
  (Appends.put _ [OFFLOAD_ENTRIES]).seq <| (Appends.put _ [need c.remain_add_size]).seq <|
    (Appends.put _ [need c.remain_del_size]).seq <|
      (Appends.put _ c.add_bytes).seq (Appends.put _ c.del_bytes)

theorem put_message_spec (send_buffer : Mem) :
    ∃ cur, c.put_message ⟨send_buffer, 0⟩ = some cur ∧ cur.pos = c.message.bytes.length ∧
      c.message.At cur.buffer 0 := by
  have start : Cursor.Wrote ETH_FRAME_LEN ⟨send_buffer, 0⟩ [] :=
    ⟨rfl, fun i hi => absurd hi (Nat.not_lt_zero i), by decide⟩
  have short : c.message.bytes.length ≤ ETH_FRAME_LEN := by
    have ha := toNat_need c.remain_add_size
    have hd := toNat_need c.remain_del_size
    rw [OffloadMessage.length_bytes, message]
    simp only [ha, hd, ETH_FRAME_LEN, BATCH_SIZE]
    omega
  obtain ⟨cur, hcur, hw⟩ := c.put_message_appends.fits start
    (by rwa [List.length_nil, Nat.zero_add])
  exact ⟨cur, hcur, hw.pos, hw.holds⟩

/-! ### A call does what it does to the lists -/

theorem dequeue_adds_spec {got : List MyPair}
    (h : c.remain_add_size + got.length ≤ BATCH_SIZE * 2) :
    ∃ c', c.dequeue_adds got = some c' ∧ c'.used = c.used.dequeue_adds got ∧
      c'.remain_add_size = c.remain_add_size + got.length ∧
      c'.remain_del_size = c.remain_del_size := by
  obtain ⟨m, hm, held⟩ := dequeue_into_spec my_pair_t c.add_pairs h
  refine ⟨{ c with add_pairs := m, remain_add_size := c.remain_add_size + got.length },
    by rw [dequeue_adds, hm]; rfl, ?_, rfl, rfl⟩
  rw [used, EntryController.dequeue_adds, held]
  rfl

theorem dequeue_dels_spec {got : List MyKey} (h : c.remain_del_size + got.length ≤ BATCH_SIZE * 2) :
    ∃ c', c.dequeue_dels got = some c' ∧ c'.used = c.used.dequeue_dels got ∧
      c'.remain_add_size = c.remain_add_size ∧
      c'.remain_del_size = c.remain_del_size + got.length := by
  obtain ⟨m, hm, held⟩ := dequeue_into_spec my_key_t c.del_keys h
  refine ⟨{ c with del_keys := m, remain_del_size := c.remain_del_size + got.length },
    by rw [dequeue_dels, hm]; rfl, ?_, rfl, rfl⟩
  rw [used, EntryController.dequeue_dels, held]
  rfl

/-- A batch and `THRESHOLD` elements at most are in use. -/
def Filled : Prop :=
  c.remain_add_size ≤ THRESHOLD + BATCH_SIZE ∧ c.remain_del_size ≤ THRESHOLD + BATCH_SIZE

theorem move_rest_spec (h : c.Filled) :
    ∃ c', c.move_rest = some c' ∧ c'.used = c.used.rest ∧ c'.has_room := by
  obtain ⟨ha, hd⟩ := h
  have na := toNat_need c.remain_add_size
  have nd := toNat_need c.remain_del_size
  simp only [THRESHOLD, BATCH_SIZE] at ha hd na nd
  obtain ⟨a, hma, adds⟩ := move_front_spec my_pair_t c.add_pairs
    (need c.remain_add_size).toNat c.remain_add_size
    (by simp only [BATCH_SIZE]; omega) (by omega) (by omega)
  obtain ⟨d, hmd, dels⟩ := move_front_spec my_key_t c.del_keys
    (need c.remain_del_size).toNat c.remain_del_size
    (by simp only [BATCH_SIZE]; omega) (by omega) (by omega)
  have moved : move_front my_pair_t sizeof_my_hash_pair_t c.add_pairs (need c.remain_add_size).toNat
      c.remain_add_size = some a := hma
  refine ⟨_, by rw [move_rest, moved, hmd]; rfl, ?_, ?_⟩
  · rw [used, EntryController.rest, adds, dels, drop_batch, drop_batch]
    rfl
  · simp only [has_room, THRESHOLD]
    omega

/-- A buffer with a message: its counts are those of its entries and its size is theirs. -/
structure Sent (size : Nat) (sent : Mem) (o : OffloadMessage) : Prop where
  bytes : o.At sent 0
  add_size : (sent 1).toNat = o.adds.length
  del_size : (sent 2).toNat = o.dels.length
  size_eq : size = 3 + 16 * o.adds.length + 12 * o.dels.length

theorem Sent.of_at {size : Nat} {sent : Mem} {o : OffloadMessage} (h : o.At sent 0)
    (hs : size = o.bytes.length) : Sent size sent o where
  bytes := h
  add_size := by rw [o.length_adds, ← h.add_size]
  del_size := by rw [o.length_dels, ← h.del_size]
  size_eq := by rw [o.length_adds, o.length_dels, hs, o.length_bytes]

/-- What is returned for a message of the lists, or for none. -/
def Returned (send_buffer : Mem) (size : Nat) (sent : Mem) : Option Message → Prop
  | none => size = 0 ∧ sent = send_buffer
  | some msg => ∃ o, Sent size sent o ∧ o.adds = msg.adds ∧ o.dels = msg.dels

theorem flush_spec (h : c.Filled) (send_buffer : Mem) :
    ∃ size sent c', c.flush send_buffer = some (size, sent, c') ∧ c'.has_room ∧
      Returned send_buffer size sent (c.used.flush send_buffer).1 ∧
      c'.used = (c.used.flush send_buffer).2 := by
  have empty : (c.used.add_pairs = [] ∧ c.used.del_keys = []) ↔
      (c.remain_add_size = 0 ∧ c.remain_del_size = 0) := by
    rw [← List.length_eq_zero_iff, ← List.length_eq_zero_iff, length_used_adds, length_used_dels]
  by_cases hz : c.remain_add_size = 0 ∧ c.remain_del_size = 0
  · rw [flush, if_pos hz, EntryController.flush, if_pos (empty.mpr hz)]
    exact ⟨0, send_buffer, c, rfl, ⟨by omega, by omega⟩, ⟨rfl, rfl⟩, rfl⟩
  · rw [flush, if_neg hz, EntryController.flush, if_neg (fun hu => hz (empty.mp hu))]
    obtain ⟨cur, hcur, hpos, hat⟩ := c.put_message_spec send_buffer
    obtain ⟨c', hc', hused, hroom⟩ := c.move_rest_spec h
    exact ⟨cur.pos, cur.buffer, c', by rw [hcur, Option.bind_eq_bind, Option.bind_some, hc']; rfl,
      hroom, ⟨c.message, .of_at hat hpos, c.message_adds, c.message_dels⟩, hused⟩

/-- **A call.**  With little left over, whatever the queues give: every write is inside its array,
the call does what it does to the lists, and little is left over again. -/
theorem get_offloaded_entries_spec {adds : List MyPair} {dels : List MyKey} (h : c.has_room)
    (ha : adds.length ≤ BATCH_SIZE) (hd : dels.length ≤ BATCH_SIZE) (send_buffer : Mem) :
    ∃ size sent c', c.get_offloaded_entries adds dels send_buffer = some (size, sent, c') ∧
      c'.has_room ∧
      Returned send_buffer size sent (c.used.get_offloaded_entries adds dels send_buffer).1 ∧
      c'.used = (c.used.get_offloaded_entries adds dels send_buffer).2 := by
  have room : c.used.has_room := by
    rw [EntryController.has_room, length_used_adds, length_used_dels]
    exact h
  have twice : THRESHOLD + BATCH_SIZE ≤ BATCH_SIZE * 2 := by decide
  obtain ⟨hla, hld⟩ := h
  have room_a : c.remain_add_size + adds.length ≤ BATCH_SIZE * 2 := by omega
  obtain ⟨c₁, h₁, used₁, add₁, del₁⟩ := c.dequeue_adds_spec room_a
  have room_d : c₁.remain_del_size + dels.length ≤ BATCH_SIZE * 2 := by omega
  obtain ⟨c₂, h₂, used₂, add₂, del₂⟩ := c₁.dequeue_dels_spec room_d
  obtain ⟨size, sent, c', hf, hroom, hret, hused⟩ :=
    c₂.flush_spec ⟨by omega, by omega⟩ send_buffer
  rw [used₂, used₁] at hret hused
  rw [get_offloaded_entries, if_pos ⟨hla, hld⟩, EntryController.get_offloaded_entries, if_pos room]
  exact ⟨size, sent, c', by rw [h₁, Option.bind_eq_bind, Option.bind_some, h₂]; exact hf, hroom,
    hret, hused⟩

end EntryArrays

/-- A call of the list model returns nothing when there is nothing, and else the first entries. -/
theorem EntryController.get_offloaded_entries_cases (e : EntryController) (h : e.has_room)
    (adds : List MyPair) (dels : List MyKey) (send_buffer : Mem) :
    ((e.get_offloaded_entries adds dels send_buffer) = (none, e) ∧
      e.add_pairs ++ adds = [] ∧ e.del_keys ++ dels = []) ∨
    ∃ msg e', e.get_offloaded_entries adds dels send_buffer = (some msg, e') ∧
      msg.adds ++ e'.add_pairs = e.add_pairs ++ adds ∧
      msg.dels ++ e'.del_keys = e.del_keys ++ dels := by
  rw [get_offloaded_entries, if_pos h, flush]
  split
  · rename_i hz
    refine .inl ⟨?_, hz⟩
    obtain ⟨a, d⟩ := e
    obtain ⟨ha, hd⟩ := hz
    simp only [dequeue_adds, dequeue_dels, List.append_eq_nil_iff] at ha hd
    simp [dequeue_adds, dequeue_dels, ha, hd]
  · exact .inr ⟨_, _, rfl, List.take_append_drop .., List.take_append_drop ..⟩

/-! ### The queues -/

/-- The entry controller between its two queues. -/
structure EntrySystem where
  add_queue : List MyPair
  del_queue : List MyKey
  controller : EntryArrays

/-- An enqueue, or a call: how many elements the queues give if they are asked, the buffer that is
passed, and the size and the buffer that come back. -/
inductive EntryEvent where
  | enqueue_add (x : MyPair)
  | enqueue_del (k : MyKey)
  | call (adds dels : Nat) (send_buffer : Mem) (size : Nat) (sent : Mem)

namespace EntrySystem

/-- The constructor: nothing is in use of the two arrays, whatever they hold. -/
def init (add_pairs del_keys : Mem) : EntrySystem := ⟨[], [], ⟨add_pairs, del_keys, 0, 0⟩⟩

/-- A call: the queues are asked if there is room, and give their oldest elements. -/
def get_offloaded_entries (s : EntrySystem) (adds dels : Nat) (send_buffer : Mem) :
    Option (Nat × Mem × EntrySystem) :=
  if s.controller.has_room then do
    let (size, sent, c) ← s.controller.get_offloaded_entries (s.add_queue.take adds)
      (s.del_queue.take dels) send_buffer
    some (size, sent, ⟨s.add_queue.drop adds, s.del_queue.drop dels, c⟩)
  else do
    let (size, sent, c) ← s.controller.get_offloaded_entries [] [] send_buffer
    some (size, sent, { s with controller := c })

/-- A step: an enqueue, or a call to which each queue gives up to a batch. -/
inductive Step : EntrySystem → EntryEvent → EntrySystem → Prop where
  | enqueue_add (s : EntrySystem) (x : MyPair) :
      Step s (.enqueue_add x) { s with add_queue := s.add_queue ++ [x] }
  | enqueue_del (s : EntrySystem) (k : MyKey) :
      Step s (.enqueue_del k) { s with del_queue := s.del_queue ++ [k] }
  | call {s s' : EntrySystem} {adds dels size : Nat} {send_buffer sent : Mem}
      (ha : adds ≤ BATCH_SIZE) (hd : dels ≤ BATCH_SIZE)
      (h : s.get_offloaded_entries adds dels send_buffer = some (size, sent, s')) :
      Step s (.call adds dels send_buffer size sent) s'

/-- The adds that were enqueued. -/
def enqueued_adds (ls : List EntryEvent) : List MyPair :=
  ls.flatMap fun | .enqueue_add x => [x] | _ => []

/-- The deletes that were enqueued. -/
def enqueued_dels (ls : List EntryEvent) : List MyKey :=
  ls.flatMap fun | .enqueue_del k => [k] | _ => []

/-- What the calls returned, except 0. -/
def returned (ls : List EntryEvent) : List (Nat × Mem) :=
  ls.flatMap fun | .call _ _ _ size sent => if size = 0 then [] else [(size, sent)] | _ => []

theorem enqueued_adds_snoc (ls : List EntryEvent) (l : EntryEvent) :
    enqueued_adds (ls ++ [l]) = enqueued_adds ls ++ enqueued_adds [l] := List.flatMap_append

theorem enqueued_dels_snoc (ls : List EntryEvent) (l : EntryEvent) :
    enqueued_dels (ls ++ [l]) = enqueued_dels ls ++ enqueued_dels [l] := List.flatMap_append

/-- An enqueue returns nothing, nor does a call that returns 0. -/
theorem returned_unsent {l : EntryEvent} (h : returned [l] = []) (ls : List EntryEvent) :
    returned (ls ++ [l]) = returned ls := by
  rw [returned, List.flatMap_append, ← returned, ← returned, h, List.append_nil]

variable (s : EntrySystem)

/-- The adds that are not sent yet, oldest first. -/
def pending_adds : List MyPair := s.controller.used.add_pairs ++ s.add_queue

/-- The deletes that are not sent yet, oldest first. -/
def pending_dels : List MyKey := s.controller.used.del_keys ++ s.del_queue

/-- A call with little left over: it returns 0 and there was nothing, or the oldest entries that are
not sent yet. -/
theorem call_spec {adds dels : Nat} (h : s.controller.has_room) (ha : adds ≤ BATCH_SIZE)
    (hd : dels ≤ BATCH_SIZE) (send_buffer : Mem) :
    ∃ size sent s', s.get_offloaded_entries adds dels send_buffer = some (size, sent, s') ∧
      s'.controller.has_room ∧
      ((size = 0 ∧ s.controller.used = ⟨[], []⟩ ∧ s.add_queue.take adds = [] ∧
          s.del_queue.take dels = [] ∧ s'.pending_adds = s.pending_adds ∧
          s'.pending_dels = s.pending_dels) ∨
        ∃ o, EntryArrays.Sent size sent o ∧ o.adds ++ s'.pending_adds = s.pending_adds ∧
          o.dels ++ s'.pending_dels = s.pending_dels) := by
  have took_a : (s.add_queue.take adds).length ≤ BATCH_SIZE :=
    Nat.le_trans (List.length_take_le ..) ha
  have took_d : (s.del_queue.take dels).length ≤ BATCH_SIZE :=
    Nat.le_trans (List.length_take_le ..) hd
  obtain ⟨size, sent, c', hcall, hroom, hret, hused⟩ :=
    s.controller.get_offloaded_entries_spec h took_a took_d send_buffer
  refine ⟨size, sent, ⟨s.add_queue.drop adds, s.del_queue.drop dels, c'⟩, ?_, hroom, ?_⟩
  · rw [get_offloaded_entries, if_pos h, hcall]
    rfl
  have room : s.controller.used.has_room := by
    rw [EntryController.has_room, EntryArrays.length_used_adds, EntryArrays.length_used_dels]
    exact h
  rcases s.controller.used.get_offloaded_entries_cases room (s.add_queue.take adds)
    (s.del_queue.take dels) send_buffer with
    ⟨heq, hza, hzd⟩ | ⟨msg, e', heq, joined_a, joined_d⟩
  · rw [heq] at hret hused
    obtain ⟨used_a, took_a⟩ := List.append_eq_nil_iff.mp hza
    obtain ⟨used_d, took_d⟩ := List.append_eq_nil_iff.mp hzd
    have kept_a : s.add_queue.drop adds = s.add_queue := by
      conv_rhs => rw [← List.take_append_drop adds s.add_queue, took_a, List.nil_append]
    have kept_d : s.del_queue.drop dels = s.del_queue := by
      conv_rhs => rw [← List.take_append_drop dels s.del_queue, took_d, List.nil_append]
    refine .inl ⟨hret.1, ?_, took_a, took_d, ?_, ?_⟩
    · rw [← used_a, ← used_d]
    · rw [pending_adds, hused, kept_a, pending_adds]
    · rw [pending_dels, hused, kept_d, pending_dels]
  · rw [heq] at hret hused
    obtain ⟨o, hsent, o_adds, o_dels⟩ := hret
    refine .inr ⟨o, hsent, ?_, ?_⟩
    · rw [pending_adds, hused, o_adds, ← List.append_assoc, joined_a, List.append_assoc,
        List.take_append_drop, pending_adds]
    · rw [pending_dels, hused, o_dels, ← List.append_assoc, joined_d, List.append_assoc,
        List.take_append_drop, pending_dels]

/-! ### Runs -/

/-- After the steps `ls`: little is left over, and what was enqueued is what was sent followed by
what is not sent yet. -/
structure Inv (ls : List EntryEvent) (s : EntrySystem) : Prop where
  room : s.controller.has_room
  kept : ∃ os : List OffloadMessage,
    List.Forall₂ (fun r o => EntryArrays.Sent r.1 r.2 o) (returned ls) os ∧
    enqueued_adds ls = os.flatMap OffloadMessage.adds ++ s.pending_adds ∧
    enqueued_dels ls = os.flatMap OffloadMessage.dels ++ s.pending_dels

theorem Inv.init (add_pairs del_keys : Mem) : Inv [] (init add_pairs del_keys) where
  room := ⟨Nat.zero_le _, Nat.zero_le _⟩
  kept := ⟨[], .nil, rfl, rfl⟩

theorem Inv.step {ls : List EntryEvent} {s s' : EntrySystem} {l : EntryEvent} (h : Inv ls s)
    (hs : Step s l s') : Inv (ls ++ [l]) s' := by
  obtain ⟨os, hos, held_a, held_d⟩ := h.kept
  cases hs with
  | enqueue_add x =>
      refine ⟨h.room, os, by rwa [returned_unsent rfl], ?_, ?_⟩
      · rw [enqueued_adds_snoc, held_a]
        simp [pending_adds, enqueued_adds]
      · rw [enqueued_dels_snoc, held_d]
        simp [pending_dels, enqueued_dels]
  | enqueue_del k =>
      refine ⟨h.room, os, by rwa [returned_unsent rfl], ?_, ?_⟩
      · rw [enqueued_adds_snoc, held_a]
        simp [pending_adds, enqueued_adds]
      · rw [enqueued_dels_snoc, held_d]
        simp [pending_dels, enqueued_dels]
  | @call _ adds dels size send_buffer sent ha hd hcall =>
      obtain ⟨_, _, _, hcall', room, spec⟩ := s.call_spec h.room ha hd send_buffer
      rw [hcall] at hcall'
      cases hcall'
      have same_a : enqueued_adds (ls ++ [.call adds dels send_buffer size sent]) =
          enqueued_adds ls := (enqueued_adds_snoc ..).trans (List.append_nil _)
      have same_d : enqueued_dels (ls ++ [.call adds dels send_buffer size sent]) =
          enqueued_dels ls := (enqueued_dels_snoc ..).trans (List.append_nil _)
      rcases spec with ⟨rfl, -, -, -, kept_a, kept_d⟩ | ⟨o, hsent, sent_a, sent_d⟩
      · refine ⟨room, os, by rwa [returned_unsent rfl], ?_, ?_⟩
        · rw [same_a, held_a, kept_a]
        · rw [same_d, held_d, kept_d]
      · have hne : size ≠ 0 := by rw [hsent.size_eq]; omega
        have hret : returned (ls ++ [.call adds dels send_buffer size sent]) =
            returned ls ++ [(size, sent)] := by simp [returned, hne]
        refine ⟨room, os ++ [o], ?_, ?_, ?_⟩
        · rw [hret]
          exact List.rel_append hos (.cons hsent .nil)
        · rw [same_a, held_a, ← sent_a, List.flatMap_append, List.append_assoc]
          simp
        · rw [same_d, held_d, ← sent_d, List.flatMap_append, List.append_assoc]
          simp

/-- **The entry controller.**  In every run: what was enqueued is what the returned messages carry,
followed by what is in the arrays and in the queues, in order; and whatever the queues give to the
next call, it stays inside its buffers and returns 0 only if there is nothing. -/
theorem conserved {add_pairs del_keys : Mem} {ls : List EntryEvent} {s : EntrySystem}
    (h : Steps Step (init add_pairs del_keys) ls s) :
    (∃ os : List OffloadMessage,
      List.Forall₂ (fun r o => EntryArrays.Sent r.1 r.2 o) (returned ls) os ∧
      enqueued_adds ls =
        os.flatMap OffloadMessage.adds ++ (s.controller.used.add_pairs ++ s.add_queue) ∧
      enqueued_dels ls =
        os.flatMap OffloadMessage.dels ++ (s.controller.used.del_keys ++ s.del_queue)) ∧
    ∀ adds dels send_buffer, adds ≤ BATCH_SIZE → dels ≤ BATCH_SIZE →
      ∃ size sent s', s.get_offloaded_entries adds dels send_buffer = some (size, sent, s') ∧
        (size = 0 → s.controller.used = ⟨[], []⟩ ∧ s.add_queue.take adds = [] ∧
          s.del_queue.take dels = []) := by
  have inv : Inv ls s := h.inv_trace (fun _ _ _ _ hi hs => hi.step hs) (.init add_pairs del_keys)
  refine ⟨inv.kept, fun adds dels send_buffer ha hd => ?_⟩
  obtain ⟨size, sent, s', hcall, -, spec⟩ := s.call_spec inv.room ha hd send_buffer
  refine ⟨size, sent, s', hcall, fun hz => ?_⟩
  rcases spec with ⟨-, used, took_a, took_d, -⟩ | ⟨o, hsent, -⟩
  · exact ⟨used, took_a, took_d⟩
  · have := hsent.size_eq
    omega

/-- Of two adds and a delete, the queues give one each to the first call; the add that is left goes
into the second call's message, and a delete that was enqueued in between stays. -/
theorem conserved_sample :
    let x : MyPair := ⟨⟨7, 0xC0A80002, 40000⟩, ⟨1, 1⟩⟩
    let y : MyPair := ⟨⟨9, 0xC0A80003, 40000⟩, ⟨1, 2⟩⟩
    ∃ sent sent' s, Steps Step (init (fun _ => 0) (fun _ => 0))
        [.enqueue_add x, .enqueue_add y, .enqueue_del x.key, .call 1 1 (fun _ => 0) 31 sent,
          .enqueue_del y.key, .call 2 0 sent 19 sent'] s ∧
      s.add_queue = [] ∧ s.del_queue = [y.key] ∧
      ∃ os : List OffloadMessage,
        List.Forall₂ (fun r o => EntryArrays.Sent r.1 r.2 o) [(31, sent), (19, sent')] os ∧
        [x, y] = os.flatMap OffloadMessage.adds ++ (s.controller.used.add_pairs ++ s.add_queue) ∧
        [x.key, y.key] =
          os.flatMap OffloadMessage.dels ++ (s.controller.used.del_keys ++ s.del_queue) := by
  intro x y
  obtain ⟨sent, sent', s, run, hadd, hdel⟩ : ∃ sent sent' s,
      Steps Step (init (fun _ => 0) (fun _ => 0))
        [.enqueue_add x, .enqueue_add y, .enqueue_del x.key, .call 1 1 (fun _ => 0) 31 sent,
          .enqueue_del y.key, .call 2 0 sent 19 sent'] s ∧
      s.add_queue = [] ∧ s.del_queue = [y.key] := by
    refine ⟨_, _, _, .more (.more (.more (.more (.more (.one (.enqueue_add _ x)) (.enqueue_add _ y))
      (.enqueue_del _ x.key)) (.call (by decide) (by decide) rfl)) (.enqueue_del _ y.key))
      (.call (by decide) (by decide) rfl), rfl, rfl⟩
  obtain ⟨os, hos, hadds, hdels⟩ := (conserved run).1
  exact ⟨sent, sent', s, run, hadd, hdel, os, hos, hadds, hdels⟩

end EntrySystem

end Miresga.Frontend
