import Miresga.Frontend.Offload
import Miresga.System.Framing

/-!
# System — do the front-end and the switch agree?

The system is the front-end's flow table, the two queues, the entry controller, the channel to the
switch, its receive buffer and its offload table.  Its steps (`Event`) are

* a packet that `process_pkts` handles, whose enqueues go to the two queues;
* a tick of the entry controller, in two steps, so that packets may come in between its two
  dequeues; the second one also sends the message;
* a delivery: the switch receives the next message and performs its operations.

The adds and the deletes of a client leave in messages, adds first, and each message takes what the
two queues happen to give.  So the switch may see them in another order than the flow table made them
in: an add overtakes the delete in front of it when both go into one message.  `InOrder` says that
this does not happen.  If every message leaves in order, whatever the interleaving, then the offload
table is what the flow table asks for, whenever nothing is under way.
-/

namespace Miresga.System

open Frontend Switch

/-! ### The offload table -/

abbrev OffloadTable := ClientKey → Option Byte

/-- An add for a key that is present fails and leaves the entry; a delete for one that is absent
fails and changes nothing. -/
def apply (T : OffloadTable) : TableOp → OffloadTable
  | .add key d => if (T key).isSome then T else upd T key (some d)
  | .del key => upd T key none

/-- The table operation an enqueue stands for. -/
def opOf : Enq → TableOp
  | .add pair => .ofAdd pair
  | .del key => .ofDel key

/-- The enqueues a message carries, in the order in which they are performed. -/
def carried (msg : Message) : List Enq := msg.adds.map .add ++ msg.dels.map .del

theorem messageOps_eq (msg : Message) : messageOps msg = (carried msg).map opOf := by
  simp only [messageOps, carried, List.map_append, List.map_map]
  rfl

/-! ### The system -/

structure Sys where
  front : Shared
  add_queue : List MyPair
  del_queue : List MyKey
  entries : EntryController
  /-- The tick is between its two dequeues. -/
  ticking : Bool
  channel : List Message
  recv_buffer : Mem
  table : OffloadTable
  /-- What has been put into messages, in the order in which it will be performed. -/
  sent : List Enq

inductive Event where
  | packet (l : Recv)
  | dequeue_adds (n : Nat)
  | dequeue_dels (n : Nat) (send_buffer : Mem)
  | no_room (send_buffer : Mem)
  | deliver (e : RecvEvent)

def Enq.adds (es : List Enq) : List MyPair := es.filterMap fun | .add pair => some pair | .del _ => none
def Enq.dels (es : List Enq) : List MyKey := es.filterMap fun | .add _ => none | .del key => some key

namespace Sys

/-- The front-end has gone on to `front'`; what it enqueued is on the queues. -/
def enqueue (s : Sys) (front' : Shared) : Sys :=
  let new := front'.enqueued.drop s.front.enqueued.length
  { s with
    front := front'
    add_queue := s.add_queue ++ Enq.adds new
    del_queue := s.del_queue ++ Enq.dels new }

/-- The entry controller with the `n` oldest adds of the queue. -/
def with_adds (s : Sys) (n : Nat) : EntryController := s.entries.dequeue_adds (s.add_queue.take n)

/-- The entry controller with the `n` oldest deletes of the queue. -/
def with_dels (s : Sys) (n : Nat) : EntryController := s.entries.dequeue_dels (s.del_queue.take n)

/-- The end of a tick: the message, if there is one, goes on the channel. -/
def send (s : Sys) (e : EntryController) (send_buffer : Mem) : Sys :=
  match e.flush send_buffer with
  | (none, e') => { s with entries := e', ticking := false }
  | (some msg, e') =>
    { s with
      entries := e', ticking := false
      channel := s.channel ++ [msg]
      sent := s.sent ++ carried msg }

/-- The switch has received `e` and performed its operations. -/
def receive (s : Sys) (e : RecvEvent) : Sys :=
  { s with
    recv_buffer := e.buffer s.recv_buffer
    table := ((e.ops s.recv_buffer).map Prod.snd).foldl apply s.table }

end Sys

/-- One step of the system.  A dequeue gives up to 40 of the oldest elements; a delivery is one
receive of the oldest message, whole, as far as `recv` takes that much. -/
inductive Step (s : Sys) : Event → Sys → Prop where
  | packet {l : Recv} {front' : Shared} {cs : List Call} (h : FrontStep s.front l front' cs) :
      Step s (.packet l) (s.enqueue front')
  | dequeue_adds {n : Nat} (ht : s.ticking = false) (hr : s.entries.has_room)
      (hn : n ≤ BATCH_SIZE) :
      Step s (.dequeue_adds n)
        { s with
          entries := s.with_adds n, add_queue := s.add_queue.drop n, ticking := true }
  | dequeue_dels {n : Nat} {send_buffer : Mem} (ht : s.ticking = true) (hn : n ≤ BATCH_SIZE) :
      Step s (.dequeue_dels n send_buffer)
        ({ s with del_queue := s.del_queue.drop n }.send (s.with_dels n) send_buffer)
  | no_room {send_buffer : Mem} (ht : s.ticking = false) (hr : ¬ s.entries.has_room) :
      Step s (.no_room send_buffer) (s.send s.entries send_buffer)
  | deliver {e : RecvEvent} {msg : Message} {channel' : List Message}
      (hc : s.channel = msg :: channel') (he : e.data = msg.bytes) (hlen : msg.size ≤ 1024)
      (hb : e.begin_batch = true) :
      Step s (.deliver e) { s.receive e with channel := channel' }

/-! ### Where messages leave in order -/

/-- The message of `e` keeps, for every client, the order of its enqueues. -/
def InOrder (s : Sys) (e : EntryController) : Prop :=
  ∀ c, ops c (s.sent ++ carried (e.message fun _ => 0)) <+: ops c s.front.enqueued

/-- The condition on a step: no record that was released while still in the table loses its contents
(`Keeps`), the message leaves in order, and the switch's buffer holds no left-over message behind the
one it receives. -/
def Fine (s : Sys) : Event → Prop
  | .packet l => Keeps s.front l.mem
  | .dequeue_adds _ => True
  | .dequeue_dels n _ => InOrder s (s.with_dels n)
  | .no_room _ => InOrder s s.entries
  | .deliver e => CleanTail s.recv_buffer e.data.length

/-- A step that meets the condition. -/
def FineStep (s : Sys) (ev : Event) (s' : Sys) : Prop := Fine s ev ∧ Step s ev s'

/-- The start: no flow, nothing under way, an empty offload table. -/
structure Start (s : Sys) : Prop where
  front : Initial s.front
  add_queue : s.add_queue = []
  del_queue : s.del_queue = []
  add_pairs : s.entries.add_pairs = []
  del_keys : s.entries.del_keys = []
  channel : s.channel = []
  table : s.table = fun _ => none
  sent : s.sent = []

/-- Nothing is under way. -/
structure Quiescent (s : Sys) : Prop where
  add_queue : s.add_queue = []
  del_queue : s.del_queue = []
  add_pairs : s.entries.add_pairs = []
  del_keys : s.entries.del_keys = []
  channel : s.channel = []

/-! ### Replaying enqueues -/

/-- The table after the operations for a list of enqueues. -/
def replay (T : OffloadTable) (es : List Enq) : OffloadTable := (es.map opOf).foldl apply T

/-- An operation at the entry of its client. -/
def opAt (t : Option Byte) : Op → Option Byte
  | .add data => if t.isSome then t else some data.d_index
  | .del => none

/-- The client's entry of the offload table. -/
def keyOf (c : Client) : ClientKey := .ofMyKey c.my_key

theorem keyOf_inj {c c' : Client} : keyOf c = keyOf c' ↔ c = c' := by
  refine ⟨fun h => ?_, fun h => by rw [h]⟩
  obtain ⟨a, p⟩ := c
  obtain ⟨a', p'⟩ := c'
  simp only [keyOf, ClientKey.ofMyKey, Client.my_key, ClientKey.mk.injEq, bswap32_inj,
    bswap16_inj] at h
  rw [h.1, h.2]

/-- The key of an enqueue. -/
def keyOfEnq : Enq → MyKey
  | .add pair => pair.key
  | .del key => key

/-- Every enqueue is for a client. -/
def Keyed (es : List Enq) : Prop := ∀ e ∈ es, ∃ c : Client, keyOfEnq e = c.my_key

/-- One operation, seen from a client. -/
theorem apply_at (T : OffloadTable) {e : Enq} {c' : Client} (he : keyOfEnq e = c'.my_key)
    (c : Client) : apply T (opOf e) (keyOf c) = (ops c [e]).foldl opAt (T (keyOf c)) := by
  cases e with
  | add pair =>
      obtain ⟨key, data⟩ := pair
      obtain rfl : key = c'.my_key := he
      have hk : (ClientKey.ofMyKey c'.my_key) = keyOf c' := rfl
      simp only [opOf, TableOp.ofAdd, apply, hk]
      by_cases hc : c' = c
      · subst hc
        rw [ops_add, List.foldl_cons, List.foldl_nil, opAt]
        split
        · rfl
        · rw [upd_same]
      · rw [ops_add_other _ hc, List.foldl_nil]
        split
        · rfl
        · exact upd_other _ _ _ fun h => hc (keyOf_inj.mp h.symm)
  | del key =>
      obtain rfl : key = c'.my_key := he
      have hk : (ClientKey.ofMyKey c'.my_key) = keyOf c' := rfl
      simp only [opOf, TableOp.ofDel, apply, hk]
      by_cases hc : c' = c
      · subst hc
        rw [ops_del, List.foldl_cons, List.foldl_nil, opAt, upd_same]
      · rw [ops_del_other hc, List.foldl_nil]
        exact upd_other _ _ _ fun h => hc (keyOf_inj.mp h.symm)

/-- A replay, seen from a client, is the replay of its own operations. -/
theorem replay_at {T : OffloadTable} {es : List Enq} (h : Keyed es) (c : Client) :
    replay T es (keyOf c) = (ops c es).foldl opAt (T (keyOf c)) := by
  induction es generalizing T with
  | nil => rfl
  | cons e es ih =>
      obtain ⟨c', he⟩ := h e List.mem_cons_self
      have split : ops c (e :: es) = ops c [e] ++ ops c es := ops_append [e] es
      rw [split, List.foldl_append, ← apply_at T he c]
      exact ih fun e he => h e (List.mem_cons_of_mem _ he)

/-- Toggles, replayed from an absent entry, leave the entry they say. -/
theorem foldl_toggles {os : List Op} {d : Option Byte} (t : Toggles os d) :
    os.foldl opAt none = d := by
  induction t with
  | start => rfl
  | add _ data ih =>
      rw [List.foldl_append, ih]
      rfl
  | del => rw [List.foldl_append]; rfl

/-! ### The invariant -/

section lists

variable (es es' : List Enq)

@[simp] theorem adds_append : Enq.adds (es ++ es') = Enq.adds es ++ Enq.adds es' :=
  List.filterMap_append

@[simp] theorem dels_append : Enq.dels (es ++ es') = Enq.dels es ++ Enq.dels es' :=
  List.filterMap_append

@[simp] theorem adds_carried (msg : Message) : Enq.adds (carried msg) = msg.adds := by
  simp [Enq.adds, carried, List.filterMap_map]

@[simp] theorem dels_carried (msg : Message) : Enq.dels (carried msg) = msg.dels := by
  simp [Enq.dels, carried, List.filterMap_map]

theorem mem_adds {pair : MyPair} : pair ∈ Enq.adds es ↔ .add pair ∈ es := by
  simp only [Enq.adds, List.mem_filterMap]
  constructor
  · rintro ⟨e, he, h⟩
    cases e with
    | add p => cases h; exact he
    | del k => cases h
  · exact fun h => ⟨_, h, rfl⟩

theorem mem_dels {key : MyKey} : key ∈ Enq.dels es ↔ .del key ∈ es := by
  simp only [Enq.dels, List.mem_filterMap]
  constructor
  · rintro ⟨e, he, h⟩
    cases e with
    | add p => cases h
    | del k => cases h; exact he
  · exact fun h => ⟨_, h, rfl⟩

/-- A list of enqueues for a client is as long as its adds and its deletes together. -/
theorem length_ops (c : Client) : (ops c es).length =
    (Enq.adds es).countP (·.key = c.my_key) + (Enq.dels es).countP (· = c.my_key) := by
  induction es with
  | nil => rfl
  | cons e es ih =>
      have split : ops c (e :: es) = ops c [e] ++ ops c es := ops_append [e] es
      rw [split, List.length_append, ih]
      cases e with
      | add pair =>
          by_cases h : pair.key = c.my_key
          · simp [ops, Enq.op, Enq.adds, Enq.dels, h]
            omega
          · simp [ops, Enq.op, Enq.adds, Enq.dels, h]
      | del key =>
          by_cases h : key = c.my_key
          · simp [ops, Enq.op, Enq.adds, Enq.dels, h]
            omega
          · simp [ops, Enq.op, Enq.adds, Enq.dels, h]

end lists

/-- What holds in every state of a run whose messages leave in order. -/
structure Inv (s : Sys) : Prop where
  sound : Sound s.front
  /-- What is enqueued for a client toggles its wanted entry. -/
  toggles : ∀ c, Toggles (ops c s.front.enqueued) (s.front.target c)
  keyed : Keyed s.front.enqueued
  /-- Nothing is lost or repeated on the way into the messages. -/
  adds : Enq.adds s.sent ++ (s.entries.add_pairs ++ s.add_queue) = Enq.adds s.front.enqueued
  dels : Enq.dels s.sent ++ (s.entries.del_keys ++ s.del_queue) = Enq.dels s.front.enqueued
  order : ∀ c, ops c s.sent <+: ops c s.front.enqueued
  /-- The table is what was delivered, replayed. -/
  table : ∃ done, s.sent = done ++ s.channel.flatMap carried ∧ s.table = replay (fun _ => none) done

namespace Inv

variable {s : Sys}

theorem start (h : Start s) : Inv s where
  sound := .initial h.front
  toggles c := by
    rw [h.front.enqueued, target_none (h.front.table c.slot)]
    exact .start
  keyed := by rw [h.front.enqueued]; exact fun e he => by cases he
  adds := by rw [h.sent, h.add_pairs, h.add_queue, h.front.enqueued]; rfl
  dels := by rw [h.sent, h.del_keys, h.del_queue, h.front.enqueued]; rfl
  order c := by rw [h.sent]; exact List.nil_prefix
  table := ⟨[], by rw [h.sent, h.channel]; rfl, h.table⟩

/-- The requests of a step are for clients. -/
theorem request_keyed {T T' : Client → Option Byte} {new : List Enq} (h : Request T new T') :
    Keyed new := by
  intro e he
  cases h with
  | keep => cases he
  | @add c => cases List.mem_singleton.mp he; exact ⟨c, rfl⟩
  | @del c => cases List.mem_singleton.mp he; exact ⟨c, rfl⟩

theorem packet (h : Inv s) {l : Recv} {front' : Shared} {cs : List Call} (hk : Keeps s.front l.mem)
    (hs : FrontStep s.front l front' cs) : Inv (s.enqueue front') := by
  have hkept : KeptStep s.front l front' := ⟨hk, cs, hs⟩
  obtain ⟨new, he, hq⟩ := step_request h.sound hkept
  refine ⟨h.sound.step hkept, fun c => ?_, ?_, ?_, ?_, fun c => ?_, h.table⟩ <;>
    simp only [Sys.enqueue, he, List.drop_left]
  · exact (h.toggles c).request hq
  · intro e hm
    rcases List.mem_append.mp hm with hm | hm
    · exact h.keyed e hm
    · exact request_keyed hq e hm
  · rw [adds_append, ← h.adds]
    simp only [List.append_assoc]
  · rw [dels_append, ← h.dels]
    simp only [List.append_assoc]
  · rw [ops_append]
    exact (h.order c).trans (List.prefix_append _ _)

theorem dequeue_adds (h : Inv s) (n : Nat) (b : Bool) :
    Inv { s with entries := s.with_adds n, add_queue := s.add_queue.drop n, ticking := b } where
  sound := h.sound
  toggles := h.toggles
  keyed := h.keyed
  adds := by
    simp only [Sys.with_adds, EntryController.dequeue_adds, List.append_assoc,
      List.take_append_drop]
    exact h.adds
  dels := h.dels
  order := h.order
  table := h.table

theorem dequeue_dels (h : Inv s) (n : Nat) :
    Inv { s with entries := s.with_dels n, del_queue := s.del_queue.drop n } where
  sound := h.sound
  toggles := h.toggles
  keyed := h.keyed
  adds := h.adds
  dels := by
    simp only [Sys.with_dels, EntryController.dequeue_dels, List.append_assoc,
      List.take_append_drop]
    exact h.dels
  order := h.order
  table := h.table

/-- A message that leaves in order. -/
theorem send (h : Inv s) (send_buffer : Mem) (ho : InOrder s s.entries) :
    Inv (s.send s.entries send_buffer) := by
  unfold Sys.send EntryController.flush
  by_cases he : s.entries.add_pairs = [] ∧ s.entries.del_keys = []
  · rw [if_pos he]
    exact ⟨h.sound, h.toggles, h.keyed, h.adds, h.dels, h.order, h.table⟩
  · rw [if_neg he]
    obtain ⟨done, hsent, htable⟩ := h.table
    refine ⟨h.sound, h.toggles, h.keyed, ?_, ?_, ho, done, ?_, htable⟩
    · simp only [adds_append, adds_carried, EntryController.message, EntryController.rest]
      rw [← h.adds, List.append_assoc, ← List.append_assoc (List.take _ _), List.take_append_drop]
    · simp only [dels_append, dels_carried, EntryController.message, EntryController.rest]
      rw [← h.dels, List.append_assoc, ← List.append_assoc (List.take _ _), List.take_append_drop]
    · simp [hsent]

theorem deliver (h : Inv s) {e : RecvEvent} {msg : Message} {channel' : List Message}
    (hc : s.channel = msg :: channel') (he : e.data = msg.bytes) (hb : e.begin_batch = true)
    (hclean : CleanTail s.recv_buffer e.data.length) :
    Inv { s.receive e with channel := channel' } := by
  obtain ⟨done, hsent, htable⟩ := h.table
  refine ⟨h.sound, h.toggles, h.keyed, h.adds, h.dels, h.order, done ++ carried msg, ?_, ?_⟩
  · simp only [Sys.receive]
    rw [hsent, hc, List.flatMap_cons, List.append_assoc]
  · have hw : Whole e [msg] := by simpa [Whole] using he
    simp only [Sys.receive]
    rw [ops_whole hw hb hclean, htable]
    simp only [List.flatMap_cons, List.flatMap_nil, List.append_nil]
    rw [messageOps_eq, replay, replay, List.map_append, List.foldl_append]

/-- **Every fine step keeps the invariant.** -/
theorem step (h : Inv s) {ev : Event} {s' : Sys} (hs : FineStep s ev s') : Inv s' := by
  obtain ⟨hf, hs⟩ := hs
  cases hs with
  | packet hp => exact h.packet hf hp
  | dequeue_adds => exact h.dequeue_adds _ _
  | @dequeue_dels n b => exact (h.dequeue_dels n).send b hf
  | no_room => exact h.send _ hf
  | deliver hc he _ hb => exact h.deliver hc he hb hf

/-- With nothing under way, everything enqueued has been performed, in order. -/
theorem agrees (h : Inv s) (hq : Quiescent s) (c : Client) :
    s.table (keyOf c) = s.front.target c := by
  obtain ⟨done, hsent, htable⟩ := h.table
  rw [hq.channel, List.flatMap_nil, List.append_nil] at hsent
  have hadds : Enq.adds s.sent = Enq.adds s.front.enqueued := by
    rw [← h.adds, hq.add_pairs, hq.add_queue]
    simp
  have hdels : Enq.dels s.sent = Enq.dels s.front.enqueued := by
    rw [← h.dels, hq.del_keys, hq.del_queue]
    simp
  have hops : ops c s.sent = ops c s.front.enqueued :=
    (h.order c).eq_of_length (by rw [length_ops, length_ops, hadds, hdels])
  have hkeyed : Keyed s.sent := by
    intro e he
    cases e with
    | add pair =>
        exact h.keyed _ ((mem_adds _).mp (hadds ▸ (mem_adds _).mpr he))
    | del key =>
        exact h.keyed _ ((mem_dels _).mp (hdels ▸ (mem_dels _).mpr he))
  rw [htable, ← hsent, replay_at hkeyed, hops]
  exact foldl_toggles (h.toggles c)

end Inv

/-- **Agreement.**  In every run all of whose steps are fine, in any interleaving: whenever nothing
is under way, the offload table maps a client to `d` exactly if its flow is in state OFFLOAD with
that index. -/
theorem tables_agree {s₀ s : Sys} {evs : List Event} (h₀ : Start s₀)
    (hr : Steps FineStep s₀ evs s) (hq : Quiescent s) (c : Client) (d : Byte) :
    s.table (keyOf c) = some d ↔
      ∃ a, s.front.find c = some a ∧ (s.front.flow a).state = .OFFLOAD ∧
        (s.front.flow a).entry_data.d_index = d := by
  have h : Inv s := hr.inv (fun _ _ _ h hs => Inv.step h hs) (.start h₀)
  rw [h.agrees hq, target_eq_some]

/-! ### Two runs -/

/-- The step for an event, if there is one. -/
def Sys.next (s : Sys) : Event → Option Sys
  | .packet l => (handle s.front l).map s.enqueue
  | .dequeue_adds n =>
    if s.ticking = false ∧ s.entries.has_room ∧ n ≤ BATCH_SIZE then
      some { s with entries := s.with_adds n, add_queue := s.add_queue.drop n, ticking := true }
    else none
  | .dequeue_dels n send_buffer =>
    if s.ticking = true ∧ n ≤ BATCH_SIZE then
      some ({ s with del_queue := s.del_queue.drop n }.send (s.with_dels n) send_buffer)
    else none
  | .no_room send_buffer =>
    if s.ticking = false ∧ ¬ s.entries.has_room then some (s.send s.entries send_buffer) else none
  | .deliver e =>
    match s.channel with
    | [] => none
    | msg :: channel' =>
      if e.data = msg.bytes ∧ msg.size ≤ 1024 ∧ e.begin_batch = true then
        some { s.receive e with channel := channel' }
      else none

theorem next_step {s s' : Sys} {ev : Event} (h : s.next ev = some s') : Step s ev s' := by
  cases ev with
  | packet l =>
      obtain ⟨front', hf, rfl⟩ := Option.map_eq_some_iff.mp h
      obtain ⟨cs, hs⟩ := handle_step hf
      exact .packet hs
  | dequeue_adds n =>
      simp only [Sys.next, Option.ite_none_right_eq_some] at h
      obtain ⟨⟨ht, hr, hn⟩, h⟩ := h
      cases h
      exact .dequeue_adds ht hr hn
  | dequeue_dels n b =>
      simp only [Sys.next, Option.ite_none_right_eq_some] at h
      obtain ⟨⟨ht, hn⟩, h⟩ := h
      cases h
      exact .dequeue_dels ht hn
  | no_room b =>
      simp only [Sys.next, Option.ite_none_right_eq_some] at h
      obtain ⟨⟨ht, hr⟩, h⟩ := h
      cases h
      exact .no_room ht hr
  | deliver e =>
      simp only [Sys.next] at h
      split at h
      · cases h
      next msg channel' hc =>
        rw [Option.ite_none_right_eq_some] at h
        obtain ⟨⟨he, hlen, hb⟩, h⟩ := h
        cases h
        exact .deliver hc he hlen hb

def sampleSys : Sys where
  front := sampleStart
  add_queue := []
  del_queue := []
  entries := ⟨[], []⟩
  ticking := false
  channel := []
  recv_buffer := fun _ => 0
  table := fun _ => none
  sent := []

theorem sampleSys_start : Start sampleSys := ⟨sampleStart_initial, rfl, rfl, rfl, rfl, rfl, rfl, rfl⟩

/-- A tick that takes everything there is, and the delivery of its message. -/
def sampleTick (adds : List MyPair) (dels : List MyKey) : List Event :=
  let e : EntryController := ⟨adds, dels⟩
  [.dequeue_adds adds.length, .dequeue_dels dels.length fun _ => 0,
    .deliver ⟨(e.message fun _ => 0).bytes, true, 0⟩]

/-- A flow is offloaded and its entry reaches the switch. -/
def sampleOffload : List Event :=
  [.packet (Frontend.sampleRecv (sampleRequest 0x61) 0),
    .packet (Frontend.sampleRecv sampleSynAck 1)] ++
  sampleTick [⟨sampleClient.my_key, ⟨1, 1⟩⟩] []

/-- The SYN-ACK of server 2. -/
def sampleSynAck₂ : Mbuf := sampleOut (0x0A000102, 8082) (TCP_SYN_FLAG ||| TCP_ACK_FLAG)

/-- Then, between two ticks, it moves to server 2 and is offloaded again. -/
def sampleReoffload : List Event :=
  sampleOffload ++
  [.packet (Frontend.sampleRecv (sampleRequest 0x63) 1),
    .packet (Frontend.sampleRecv sampleSynAck₂ 2)] ++
  sampleTick [⟨sampleClient.my_key, ⟨1, 2⟩⟩] [sampleClient.my_key]

/-- The delete and the add go into one message, and the add is performed first: it fails on the old
entry, which the delete then removes.  The flow stays offloaded, and the switch does not know it. -/
theorem reoffload_disagrees :
    ∃ s, Start sampleSys ∧ Steps Step sampleSys sampleReoffload s ∧ Quiescent s ∧
      s.table (keyOf sampleClient) = none ∧ s.front.target sampleClient = some 2 ∧
      ¬ (s.table (keyOf sampleClient) = some 2 ↔
        ∃ a, s.front.find sampleClient = some a ∧ (s.front.flow a).state = .OFFLOAD ∧
          (s.front.flow a).entry_data.d_index = 2) := by
  have hr : ((sampleReoffload.foldlM Sys.next sampleSys).map fun s =>
      (decide (s.add_queue = [] ∧ s.del_queue = [] ∧ s.entries.add_pairs = [] ∧
        s.entries.del_keys = []), s.channel.isEmpty, s.table (keyOf sampleClient),
        s.front.target sampleClient)) = some (true, true, none, some 2) := by decide +kernel
  obtain ⟨s, hs, he⟩ := Option.map_eq_some_iff.mp hr
  simp only [Prod.mk.injEq, decide_eq_true_eq, List.isEmpty_iff] at he
  obtain ⟨⟨h₁, h₂, h₃, h₄⟩, h₅, ht, hf⟩ := he
  refine ⟨s, sampleSys_start, .of_foldlM (fun _ _ _ => next_step) hs, ⟨h₁, h₂, h₃, h₄, h₅⟩, ht, hf,
    fun h => ?_⟩
  have := h.mpr (target_eq_some.mp hf)
  rw [ht] at this
  cases this

/-- A check that makes a step fine: no flow is abandoned, and the message is what is next in the
order of enqueues. -/
def Sys.checks (s : Sys) : Event → Bool
  | .packet l => !abandons s.front l.pkt
  | .dequeue_adds _ => true
  | .dequeue_dels n _ =>
    decide (s.sent ++ carried ((s.with_dels n).message fun _ => 0) <+: s.front.enqueued)
  | .no_room _ => decide (s.sent ++ carried (s.entries.message fun _ => 0) <+: s.front.enqueued)
  | .deliver e => decide (CleanTail s.recv_buffer e.data.length)

theorem inOrder_of_earlier {s : Sys} {e : EntryController}
    (h : s.sent ++ carried (e.message fun _ => 0) <+: s.front.enqueued) : InOrder s e :=
  fun _ => h.filterMap _

theorem send_front (s : Sys) (e : EntryController) (b : Mem) : (s.send e b).front = s.front := by
  unfold Sys.send
  split <;> rfl

/-- A checked step is fine where all records are live, and leaves them live. -/
theorem fine_of_checks {s s' : Sys} {ev : Event} (ht : Tidy s.front) (hc : s.checks ev = true)
    (hs : Step s ev s') : FineStep s ev s' ∧ Tidy s'.front := by
  cases hs with
  | packet h =>
      refine ⟨⟨ht.keeps _, .packet h⟩, ht.step ⟨by simpa [Sys.checks] using hc, _, h⟩⟩
  | dequeue_adds h₁ h₂ h₃ => exact ⟨⟨trivial, .dequeue_adds h₁ h₂ h₃⟩, ht⟩
  | dequeue_dels h₁ h₂ =>
      refine ⟨⟨inOrder_of_earlier (by simpa [Sys.checks] using hc), .dequeue_dels h₁ h₂⟩, ?_⟩
      rw [send_front]
      exact ht
  | no_room h₁ h₂ =>
      refine ⟨⟨inOrder_of_earlier (by simpa [Sys.checks] using hc), .no_room h₁ h₂⟩, ?_⟩
      rw [send_front]
      exact ht
  | deliver h₁ h₂ h₃ h₄ =>
      exact ⟨⟨by simpa [Sys.checks, Fine] using hc, .deliver h₁ h₂ h₃ h₄⟩, ht⟩

/-- A run of checked steps is a fine run. -/
theorem fine_run {s₀ s : Sys} {evs : List Event} (h₀ : Tidy s₀.front)
    (hr : Steps (fun s ev s' => s.checks ev = true ∧ Step s ev s') s₀ evs s) :
    Steps FineStep s₀ evs s ∧ Tidy s.front := by
  induction hr with
  | refl => exact ⟨.refl, h₀⟩
  | more _ h ih =>
      obtain ⟨hs, ht⟩ := fine_of_checks ih.2 h.1 h.2
      exact ⟨ih.1.more hs, ht⟩

/-- The step for an event, if it passes the check. -/
def Sys.checked (s : Sys) (ev : Event) : Option Sys := if s.checks ev then s.next ev else none

theorem tables_agree_sample :
    ∃ s, Steps FineStep sampleSys sampleOffload s ∧ Quiescent s ∧
      s.table (keyOf sampleClient) = some 1 ∧
      ∃ a, s.front.find sampleClient = some a ∧ (s.front.flow a).state = .OFFLOAD ∧
        (s.front.flow a).entry_data.d_index = 1 := by
  have hr : ((sampleOffload.foldlM Sys.checked sampleSys).map fun s =>
      (decide (s.add_queue = [] ∧ s.del_queue = [] ∧ s.entries.add_pairs = [] ∧
        s.entries.del_keys = []), s.channel.isEmpty, s.table (keyOf sampleClient))) =
      some (true, true, some 1) := by decide +kernel
  obtain ⟨s, hs, he⟩ := Option.map_eq_some_iff.mp hr
  simp only [Prod.mk.injEq, decide_eq_true_eq, List.isEmpty_iff] at he
  obtain ⟨⟨h₁, h₂, h₃, h₄⟩, h₅, ht⟩ := he
  have hsteps := Steps.of_foldlM (R := fun s ev s' => s.checks ev = true ∧ Step s ev s')
    (fun s ev s' h => by
      rw [Sys.checked, Option.ite_none_right_eq_some] at h
      exact ⟨h.1, next_step h.2⟩) hs
  have hfine := (fine_run (Tidy.initial sampleSys_start.front) hsteps).1
  have hq : Quiescent s := ⟨h₁, h₂, h₃, h₄, h₅⟩
  exact ⟨s, hfine, hq, ht, (tables_agree sampleSys_start hfine hq sampleClient 1).mp ht⟩

end Miresga.System
