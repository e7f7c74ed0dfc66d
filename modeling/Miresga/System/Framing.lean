import Miresga.Switch.Controller

/-!
# System — the offload stream

The front-end writes its messages on one TCP connection and the switch receives them in pieces that
TCP is free to choose.  The decoder takes every piece for a sequence of whole messages that starts at
the first byte of the buffer and ends in front of a byte that starts no message.  So what it performs
is what was written if this holds of every receive:

* `Whole`: the bytes received are messages from beginning to end;
* `CleanTail`: the buffer holds no left-over message right behind them;
* `InRange`: there are handles for the entries, behind those that the round has used before.

Where a message is cut, the decoder takes the missing part from what the buffer held before, and
starts anew in the middle of the message with the next piece.  A message of 40 adds and 40 deletes
has 1123 bytes and is always cut.
-/

namespace Miresga.System

open Frontend Switch

/-- The bytes received are whole messages. -/
def Whole (e : RecvEvent) (msgs : List Message) : Prop := e.data = msgs.flatMap Message.bytes

/-- The bytes at `n` start no message with entries. -/
def CleanTail (m : Mem) (n : Nat) : Prop :=
  m n = OFFLOAD_ENTRIES → m (n + 1) = 0 ∧ m (n + 2) = 0

instance (m : Mem) (n : Nat) : Decidable (CleanTail m n) :=
  inferInstanceAs (Decidable (_ → _))

/-- Every receive leaves a clean tail behind what it received. -/
def CleanTails (m : Mem) : List RecvEvent → Prop
  | [] => True
  | e :: es => CleanTail m e.data.length ∧ CleanTails (e.buffer m) es

/-- From `entry_index` on there are handles for the entries of the messages. -/
def InRange (e : RecvEvent) (msgs : List Message) : Prop :=
  e.entry_index + (msgs.flatMap messageOps).length ≤ HANDLES

/-! ### One receive -/

theorem decode_cleanTail {m : Mem} {n idx : Nat} (h : CleanTail m n) : decode m n n idx = [] := by
  by_cases ht : m n = OFFLOAD_ENTRIES
  · obtain ⟨ha, hd⟩ := h ht
    rw [decode_round idx (Nat.le_refl n) ht, ha, hd, decode_end (.inl (by omega))]
    rfl
  · exact decode_end (.inr ht)

/-- A message stands where it was received. -/
theorem at_of_write (m : Mem) (l r : List Byte) (msg : Message) :
    msg.At (m.write 0 (l ++ (msg.bytes ++ r))) l.length := by
  have h := (Mem.holds_write m 0 (l ++ (msg.bytes ++ r))).right.left
  intro i hi
  have hi' : i < msg.bytes.length := by rwa [Message.length_bytes]
  rw [Nat.zero_add] at h
  rw [h i hi']
  simp [Message.bytes]

/-- Whole messages in front of a clean tail are performed, and nothing else is. -/
theorem decode_whole {m : Mem} {n : Nat} (msgs : List Message) {l : List Byte} (idx : Nat)
    (hn : n = (l ++ msgs.flatMap Message.bytes).length) (hc : CleanTail m n) :
    (decode (m.write 0 (l ++ msgs.flatMap Message.bytes)) n l.length idx).map Prod.snd =
      msgs.flatMap messageOps := by
  induction msgs generalizing l idx with
  | nil =>
      rw [List.flatMap_nil, List.append_nil] at hn ⊢
      -- behind the bytes the buffer is what it was
      have keep : ∀ i, n ≤ i → m.write 0 l i = m i := fun i hi => Mem.write_outside _ (by omega)
      rw [← hn, decode_cleanTail, List.map_nil, List.flatMap_nil]
      unfold CleanTail
      rw [keep n (by omega), keep (n + 1) (by omega), keep (n + 2) (by omega)]
      exact hc
  | cons msg msgs ih =>
      rw [List.flatMap_cons] at hn ⊢
      have hsize : l.length + msg.size = (l ++ msg.bytes).length := by simp
      rw [decode_message idx (by rw [hn]; simp) (at_of_write m l _ msg), hsize]
      rw [← List.append_assoc] at hn ⊢
      rw [ih _ hn, List.flatMap_cons]

/-- A receive of whole messages in front of a clean tail performs them. -/
theorem ops_whole {m : Mem} {e : RecvEvent} {msgs : List Message} (hw : Whole e msgs)
    (hb : e.begin_batch = true) (hc : CleanTail m e.data.length) :
    (e.ops m).map Prod.snd = msgs.flatMap messageOps := by
  rw [RecvEvent.ops, if_pos hb, RecvEvent.buffer, hw]
  exact decode_whole msgs (l := []) _ (by simp) (hw ▸ hc)

/-- Its entries are put into handles that there are. -/
theorem ops_inRange {m : Mem} {e : RecvEvent} {msgs : List Message} (hr : InRange e msgs)
    (h : (e.ops m).map Prod.snd = msgs.flatMap messageOps) :
    ∀ use ∈ e.ops m, use.1 < HANDLES := by
  have hlen := congrArg List.length h
  rw [List.length_map] at hlen
  rw [InRange, ← hlen] at hr
  rw [← List.forall_mem_map (f := Prod.fst) (P := (· < HANDLES)), e.ops_indices]
  exact range'_lt_iff.mpr (.inr hr)

/-! ### Runs -/

/-- **Framing.**  In every run of receives that are whole messages in front of clean tails, with
handles for their entries, the operations performed are those of the messages, in order, and every
handle used is one of the table's. -/
theorem performed_whole {m : Mem} {es : List RecvEvent} {groups : List (List Message)}
    (hw : List.Forall₂ Whole es groups) (hb : ∀ e ∈ es, e.begin_batch = true)
    (hc : CleanTails m es) (hr : List.Forall₂ InRange es groups) :
    (performed m es).map Prod.snd = groups.flatten.flatMap messageOps ∧
      ∀ use ∈ performed m es, use.1 < HANDLES := by
  induction hw generalizing m with
  | nil => exact ⟨rfl, nofun⟩
  | @cons e g es groups he _ ih =>
      obtain ⟨hre, hr⟩ := List.forall₂_cons.mp hr
      have first := ops_whole he (hb e List.mem_cons_self) hc.1
      obtain ⟨rest, range⟩ := ih (fun e he => hb e (List.mem_cons_of_mem _ he)) hc.2 hr
      constructor
      · rw [performed, List.map_append, first, rest, List.flatten_cons, List.flatMap_append]
      · intro use huse
        rcases List.mem_append.mp huse with huse | huse
        · exact ops_inRange hre first use huse
        · exact range use huse

/-- An add for one client. -/
def sampleAdd : Message where
  adds := [⟨⟨7, 0xC0A80002, 40000⟩, ⟨1, 1⟩⟩]
  dels := []
  send_buffer := fun _ => 0
  adds_le := by decide
  dels_le := by decide

/-- A delete for the same client. -/
def sampleDel : Message where
  adds := []
  dels := [⟨7, 0xC0A80002, 40000⟩]
  send_buffer := fun _ => 0
  adds_le := by decide
  dels_le := by decide

/-- The bytes are received at the start of a round. -/
def sampleRecv (data : List Byte) : RecvEvent := ⟨data, true, 0⟩

/-- Two messages that arrive one by one. -/
theorem performed_whole_sample :
    CleanTails (fun _ => 0) [sampleRecv sampleAdd.bytes, sampleRecv sampleDel.bytes] ∧
    (performed (fun _ => 0) [sampleRecv sampleAdd.bytes, sampleRecv sampleDel.bytes]).map Prod.snd
      = [.add ⟨0xC0A80002, 40000⟩ 1, .del ⟨0xC0A80002, 40000⟩] := by
  have hc : CleanTails (fun _ => 0) [sampleRecv sampleAdd.bytes, sampleRecv sampleDel.bytes] :=
    ⟨by decide +kernel, by decide +kernel, trivial⟩
  have hw : List.Forall₂ Whole [sampleRecv sampleAdd.bytes, sampleRecv sampleDel.bytes]
      [[sampleAdd], [sampleDel]] :=
    .cons (by simp [Whole, sampleRecv]) (.cons (by simp [Whole, sampleRecv]) .nil)
  have hr : List.Forall₂ InRange [sampleRecv sampleAdd.bytes, sampleRecv sampleDel.bytes]
      [[sampleAdd], [sampleDel]] :=
    .cons (show 0 + 1 ≤ 256 by decide) (.cons (show 0 + 1 ≤ 256 by decide) .nil)
  exact ⟨hc, (performed_whole hw (by simp [sampleRecv]) hc hr).1⟩

/-- A message cut behind its first byte is lost.  A message that arrives where two arrived before is
performed together with the left-over of the second. -/
theorem cut_and_leftOver :
    (performed (fun _ => 0)
      [sampleRecv (sampleAdd.bytes.take 1), sampleRecv (sampleAdd.bytes.drop 1)] = [] ∧
      (sampleAdd.bytes.take 1 ++ sampleAdd.bytes.drop 1) = sampleAdd.bytes ∧
      messageOps sampleAdd ≠ []) ∧
    (performed (fun _ => 0)
      [sampleRecv (sampleAdd.bytes ++ sampleDel.bytes), sampleRecv sampleAdd.bytes]).map Prod.snd =
      messageOps sampleAdd ++ messageOps sampleDel ++ messageOps sampleAdd ++ messageOps sampleDel := by
  decide +kernel

end Miresga.System
