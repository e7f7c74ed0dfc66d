import Miresga.Frontend.Dispatch

/-!
# System — the configuration stream

On a new connection the switch sends three messages: its rules, its `d_index` table and the virtual
server (`Tables.messages`).  A message has no length of its own, and the front-end takes whatever one
`recv` returns for one message (`Config.recv`).

A receive that begins with a message performs it, and loses whatever follows (`Performs.recv`).  So
if every receive is one message, the front-end ends up with the tables of the switch
(`configured_of_whole`).  A message that TCP joined to the one before it is never looked at
(`configured_joined_iff`); nothing keeps the first two apart, and only a second of waiting the third
from the second.
-/

namespace Miresga.System

open Frontend

/-! ### The tables of the switch -/

/-- `struct rule_t`: the rule is a C string in an array of 20 bytes. -/
structure Rule where
  rule : List Byte
  d_index : Byte
  offload_flag : Byte
  str : 0 ∉ rule
  fits : rule.length < 20

/-- `struct d_index_t`. -/
structure DIndex where
  d_index : Byte
  server_info : ServerInfo

/-- A rule as it is sent. -/
def Rule.bytes (r : Rule) : List Byte := r.rule ++ [0, r.d_index, r.offload_flag]

/-- A `server_info_t` as it is sent; the switch keeps it in static memory, where its padding is 0. -/
def server_info_bytes (s : ServerInfo) : List Byte :=
  (server_info_t.store (fun _ => 0) 0 s).bytes 0 16

def DIndex.bytes (e : DIndex) : List Byte := e.d_index :: server_info_bytes e.server_info

/-- The first message. -/
def rule_message (rules : List Rule) : List Byte :=
  [0, BitVec.ofNat 8 rules.length, 0] ++ rules.flatMap Rule.bytes

/-- The second message. -/
def d_index_message (d_index_table : List DIndex) : List Byte :=
  [1, BitVec.ofNat 8 d_index_table.length, 0] ++ d_index_table.flatMap DIndex.bytes

/-- The third message. -/
def v_info_message (v_info : ServerInfo) : List Byte :=
  2 :: (server_info_bytes v_info ++ [0, 0, 0])

/-- The size of the switch's `send_buffer`. -/
def SEND_BUFFER_SIZE : Nat := 1024

/-- The tables of the switch; their sizes fit the count byte and their messages the send buffer. -/
structure Tables where
  rules : List Rule
  d_index_table : List DIndex
  v_info : ServerInfo
  rules_le : rules.length ≤ 255
  d_index_le : d_index_table.length ≤ 255
  rules_fit : (rule_message rules).length ≤ SEND_BUFFER_SIZE
  d_index_fit : (d_index_message d_index_table).length ≤ SEND_BUFFER_SIZE

namespace Tables

variable (T : Tables)

/-- What is sent on a new connection, one `send` after the other. -/
def messages : List (List Byte) :=
  [rule_message T.rules, d_index_message T.d_index_table, v_info_message T.v_info]

/-- What the rules say of a key: the last entry wins. -/
def rule (key : List Byte) : Option MyData :=
  (T.rules.reverse.find? (·.rule = key)).map fun r => ⟨r.offload_flag, r.d_index⟩

/-- What the table says of a `d_index`: the last entry wins. -/
def server (index : Byte) : Option ServerInfo :=
  (T.d_index_table.reverse.find? (·.d_index = index)).map (·.server_info)

end Tables

/-- The front-end has the tables of the switch. -/
structure Configured (T : Tables) (rc : RuleController) : Prop where
  rules : rc.rule_map = T.rule
  servers : rc.d_index_map = T.server
  v_info : rc.virtual_server_info = T.v_info

/-! ### Entries -/

section entries

variable {m : Mem} {now_bytes : Nat} {rc : RuleController}

@[simp] theorem length_rule_bytes (r : Rule) : r.bytes.length = r.rule.length + 3 := by
  simp [Rule.bytes]

@[simp] theorem length_server_info_bytes (s : ServerInfo) : (server_info_bytes s).length = 16 :=
  Mem.length_bytes ..

@[simp] theorem length_dIndex_bytes (e : DIndex) : e.bytes.length = 17 := by
  simp [DIndex.bytes]

theorem byte_at_holds {b : Byte} {l : List Byte} (h : m.Holds now_bytes (b :: l))
    (hlt : now_bytes < ETH_FRAME_LEN) : byte_at m now_bytes = .ok b := by
  rw [byte_at, if_pos hlt, h.head]

/-- Bytes other than NUL belong to the string. -/
theorem c_str_append {s : List Byte} (hs : 0 ∉ s) (l : List Byte) :
    RuleController.c_str (s ++ l) = s ++ RuleController.c_str l :=
  List.takeWhile_append_of_pos fun b hb => by simpa using fun h0 : b = 0 => hs (h0 ▸ hb)

/-- The C string that stands in front of a NUL. -/
theorem key_at_holds {s l : List Byte} (h : m.Holds now_bytes (s ++ 0 :: l)) (hs : 0 ∉ s)
    (hlt : now_bytes + s.length < ETH_FRAME_LEN) : key_at m now_bytes = .ok s := by
  obtain ⟨k, hk⟩ : ∃ k, ETH_FRAME_LEN - now_bytes = s.length + (1 + k) :=
    ⟨ETH_FRAME_LEN - now_bytes - s.length - 1, by omega⟩
  have hnul : m.bytes (now_bytes + s.length) 1 = [0] := by
    show [m (now_bytes + s.length + 0)] = [0]
    rw [Nat.add_zero, h.right.head]
  have hrest : m.bytes now_bytes (ETH_FRAME_LEN - now_bytes) =
      s ++ 0 :: m.bytes (now_bytes + s.length + 1) k := by
    rw [hk, Mem.bytes_append, Mem.bytes_append, h.left.bytes, hnul]
    rfl
  have hnone : ∀ l, RuleController.c_str (0 :: l) = [] := fun l => rfl
  rw [key_at, hrest, if_pos (by simp), c_str_append hs, hnone, List.append_nil]

theorem server_info_load {s : ServerInfo} {o : Nat} (h : m.Holds o (server_info_bytes s)) :
    server_info_t.load m o = s := by
  rw [server_info_t.load_congr m (server_info_t.store (fun _ => 0) 0 s) o 0 fun i hi => ?_,
    server_info_t.load_store]
  have hi' : i < (server_info_bytes s).length := by
    rw [length_server_info_bytes]
    exact hi
  rw [h i hi']
  exact Mem.getElem_bytes ..

theorem server_info_at_holds {s : ServerInfo} (h : m.Holds now_bytes (server_info_bytes s))
    (hle : now_bytes + 16 ≤ ETH_FRAME_LEN) : server_info_at m now_bytes = .ok s := by
  rw [server_info_at, if_pos hle, server_info_load h]

end entries

/-! ### One message -/

section message

variable {m : Mem}

theorem c_str_eq_self {s : List Byte} (hs : 0 ∉ s) : RuleController.c_str s = s := by
  have h := c_str_append hs []
  rw [List.append_nil] at h
  exact h.trans (List.append_nil s)

/-- The rules put into a map, one after the other. -/
def put_rules (rules : List Rule) (f : List Byte → Option MyData) : List Byte → Option MyData :=
  rules.foldl (fun f r => upd f r.rule (some ⟨r.offload_flag, r.d_index⟩)) f

/-- The servers put into a map, one after the other. -/
def put_servers (d_index_table : List DIndex) (f : Byte → Option ServerInfo) :
    Byte → Option ServerInfo :=
  d_index_table.foldl (fun f e => upd f e.d_index (some e.server_info)) f

/-- The loop over the rules of a message. -/
theorem add_rules_holds (rules : List Rule) (now_bytes : Nat) (rc : RuleController)
    (h : m.Holds now_bytes (rules.flatMap Rule.bytes))
    (hle : now_bytes + (rules.flatMap Rule.bytes).length ≤ ETH_FRAME_LEN) :
    add_rules m rules.length now_bytes rc =
      .ok (now_bytes + (rules.flatMap Rule.bytes).length,
        { rc with rule_map := put_rules rules rc.rule_map }) := by
  induction rules generalizing now_bytes rc with
  | nil => rfl
  | cons r rules ih =>
      rw [List.flatMap_cons] at h hle ⊢
      rw [List.length_append, length_rule_bytes] at hle ⊢
      have hr : m.Holds now_bytes (r.rule ++ 0 :: [r.d_index, r.offload_flag]) := h.left
      -- the two bytes behind the NUL
      have hdata := hr.right.tail
      rw [Nat.add_assoc] at hdata
      have hnext : now_bytes + (r.rule.length + 1) + 1 + 1 = now_bytes + r.bytes.length := by
        rw [length_rule_bytes]
        omega
      rw [List.length_cons, add_rules, key_at_holds hr r.str (by omega)]
      simp only [bind, Except.bind]
      rw [byte_at_holds hdata (by omega)]
      dsimp only
      rw [byte_at_holds hdata.tail (by omega)]
      dsimp only
      rw [hnext, ih _ _ h.right (by rw [length_rule_bytes]; omega), length_rule_bytes]
      refine congrArg Except.ok (Prod.ext (by dsimp only; omega) ?_)
      simp only [RuleController.add_balancing_rule, c_str_eq_self r.str, put_rules,
        List.foldl_cons]

/-- The loop over the servers of a message. -/
theorem add_d_indexes_holds (d_index_table : List DIndex) (now_bytes : Nat) (rc : RuleController)
    (h : m.Holds now_bytes (d_index_table.flatMap DIndex.bytes))
    (hle : now_bytes + (d_index_table.flatMap DIndex.bytes).length ≤ ETH_FRAME_LEN) :
    add_d_indexes m d_index_table.length now_bytes rc =
      .ok (now_bytes + (d_index_table.flatMap DIndex.bytes).length,
        { rc with d_index_map := put_servers d_index_table rc.d_index_map }) := by
  induction d_index_table generalizing now_bytes rc with
  | nil => rfl
  | cons e d_index_table ih =>
      rw [List.flatMap_cons] at h hle ⊢
      rw [List.length_append, length_dIndex_bytes] at hle ⊢
      have he : m.Holds now_bytes (e.d_index :: server_info_bytes e.server_info) := h.left
      have hnext : now_bytes + 1 + 16 = now_bytes + e.bytes.length := by
        rw [length_dIndex_bytes]
      rw [List.length_cons, add_d_indexes, byte_at_holds he (by omega)]
      simp only [bind, Except.bind]
      rw [server_info_at_holds he.tail (by omega)]
      dsimp only
      rw [hnext, ih _ _ h.right (by rw [length_dIndex_bytes]; omega), length_dIndex_bytes]
      refine congrArg Except.ok (Prod.ext (by dsimp only; omega) rfl)

theorem length_rule_message (rules : List Rule) :
    (rule_message rules).length = 3 + (rules.flatMap Rule.bytes).length := by
  rw [rule_message, List.length_append]
  rfl

theorem length_d_index_message (d_index_table : List DIndex) :
    (d_index_message d_index_table).length = 3 + (d_index_table.flatMap DIndex.bytes).length := by
  rw [d_index_message, List.length_append]
  rfl

/-- A count that fits its byte. -/
theorem toNat_count {n : Nat} (h : n ≤ 255) : (BitVec.ofNat 8 n).toNat = n := by
  rw [BitVec.toNat_ofNat, Nat.mod_eq_of_lt (by omega)]

/-- The loop over the rules of a message puts them into the map and stops where the message ends, and
there are none to delete. -/
theorem rules_added (rc : RuleController) {rules : List Rule} (hle : rules.length ≤ 255)
    (hfit : (rule_message rules).length ≤ SEND_BUFFER_SIZE) (h : m.Holds 0 (rule_message rules)) :
    m 2 = 0 ∧ add_rules m (m 1).toNat 3 rc =
      .ok ((rule_message rules).length, { rc with rule_map := put_rules rules rc.rule_map }) := by
  have h1 : m 1 = BitVec.ofNat 8 rules.length := h.tail.head
  have hadd := add_rules_holds rules 3 rc h.right (by
    rw [length_rule_message] at hfit
    exact le_trans hfit (by decide))
  refine ⟨h.tail.tail.head, ?_⟩
  rw [h1, toNat_count hle, length_rule_message]
  exact hadd

/-- The same of the loop over the servers. -/
theorem servers_added (rc : RuleController) {d_index_table : List DIndex}
    (hle : d_index_table.length ≤ 255)
    (hfit : (d_index_message d_index_table).length ≤ SEND_BUFFER_SIZE)
    (h : m.Holds 0 (d_index_message d_index_table)) :
    m 2 = 0 ∧ add_d_indexes m (m 1).toNat 3 rc =
      .ok ((d_index_message d_index_table).length,
        { rc with d_index_map := put_servers d_index_table rc.d_index_map }) := by
  have h1 : m 1 = BitVec.ofNat 8 d_index_table.length := h.tail.head
  have hadd := add_d_indexes_holds d_index_table 3 rc h.right (by
    rw [length_d_index_message] at hfit
    exact le_trans hfit (by decide))
  refine ⟨h.tail.tail.head, ?_⟩
  rw [h1, toNat_count hle, length_d_index_message]
  exact hadd

/-- The rules at the front of the buffer are put into the map. -/
theorem dispatch_rules (rc : RuleController) {rules : List Rule} (hle : rules.length ≤ 255)
    (hfit : (rule_message rules).length ≤ SEND_BUFFER_SIZE) (h : m.Holds 0 (rule_message rules)) :
    dispatch m rc = .ok { rc with rule_map := put_rules rules rc.rule_map } := by
  have h0 : m 0 = 0 := h.head
  obtain ⟨h2, hadd⟩ := rules_added rc hle hfit h
  unfold dispatch
  rw [h0, h2, if_pos (show (0 : Byte) = UPDATE_RULE from rfl), hadd]
  rfl

/-- The servers at the front of the buffer are put into the map. -/
theorem dispatch_servers (rc : RuleController) {d_index_table : List DIndex}
    (hle : d_index_table.length ≤ 255)
    (hfit : (d_index_message d_index_table).length ≤ SEND_BUFFER_SIZE)
    (h : m.Holds 0 (d_index_message d_index_table)) :
    dispatch m rc = .ok { rc with d_index_map := put_servers d_index_table rc.d_index_map } := by
  have h0 : m 0 = 1 := h.head
  obtain ⟨h2, hadd⟩ := servers_added rc hle hfit h
  unfold dispatch
  rw [h0, h2, if_neg (show ¬ (1 : Byte) = UPDATE_RULE by decide),
    if_neg (show ¬ (1 : Byte) = UPDATE_V_INFO by decide),
    if_pos (show (1 : Byte) = UPDATE_D_INDEX from rfl), hadd]
  rfl

/-- The virtual server at the front of the buffer is taken over. -/
theorem dispatch_v_info (rc : RuleController) {v_info : ServerInfo}
    (h : m.Holds 0 (v_info_message v_info)) :
    dispatch m rc = .ok { rc with virtual_server_info := v_info } := by
  have h0 : m 0 = 2 := h.head
  have hload : server_info_t.load m 1 = v_info := server_info_load h.tail.left
  unfold dispatch
  rw [h0, if_neg (show ¬ (2 : Byte) = UPDATE_RULE by decide),
    if_pos (show (2 : Byte) = UPDATE_V_INFO from rfl), hload]
  rfl

end message

/-! ### Receives -/

/-- A receive that begins with the message changes the tables as `f` says. -/
structure Performs (message : List Byte) (f : RuleController → RuleController) : Prop where
  ne_nil : message ≠ []
  dispatch : ∀ m rc, m.Holds 0 message → dispatch m rc = .ok (f rc)

theorem Performs.recv {message : List Byte} {f : RuleController → RuleController}
    (h : Performs message f) (c : Config) (rest : List Byte) :
    c.recv (message ++ rest) =
      .ok ⟨f c.rule_controller, c.recv_buffer.write 0 (message ++ rest)⟩ := by
  have hd := h.dispatch _ c.rule_controller (Mem.holds_write c.recv_buffer 0 (message ++ rest)).left
  rw [Config.recv, if_neg (by simp [h.ne_nil])]
  dsimp only
  rw [hd]
  rfl

/-- A receive that begins with the message. -/
theorem Performs.first {message : List Byte} {f : RuleController → RuleController}
    (h : Performs message f) (rest : List Byte) :
    ∃ message' rest', message ++ rest = message' ++ rest' ∧ Performs message' f :=
  ⟨message, rest, rfl, h⟩

theorem Performs.first_whole {message : List Byte} {f : RuleController → RuleController}
    (h : Performs message f) : ∃ message' rest', message = message' ++ rest' ∧ Performs message' f :=
  ⟨message, [], (List.append_nil message).symm, h⟩

/-- **A run of receives** each of which begins with a message performs these messages, and loses
whatever follows them. -/
theorem recvs_performed {received : List (List Byte)} {fs : List (RuleController → RuleController)}
    (h : List.Forall₂ (fun data f => ∃ message rest, data = message ++ rest ∧ Performs message f)
      received fs) (c : Config) :
    ∃ c', c.recvs received = .ok c' ∧
      c'.rule_controller = fs.foldl (fun rc f => f rc) c.rule_controller := by
  induction h generalizing c with
  | nil => exact ⟨c, rfl, rfl⟩
  | cons hd _ ih =>
      -- the rest stays in the buffer, but the next receive overwrites it from the start
      obtain ⟨message, rest, rfl, hp⟩ := hd
      obtain ⟨c', hc, hrc⟩ := ih ⟨_, c.recv_buffer.write 0 (message ++ rest)⟩
      refine ⟨c', ?_, hrc⟩
      rw [Config.recvs, List.foldlM_cons, hp.recv]
      exact hc

/-! ### The start-up messages -/

namespace Tables

variable (T : Tables)

theorem performs_rules : Performs (rule_message T.rules)
    fun rc => { rc with rule_map := put_rules T.rules rc.rule_map } :=
  ⟨List.cons_ne_nil _ _, fun _ rc h => dispatch_rules rc T.rules_le T.rules_fit h⟩

theorem performs_servers : Performs (d_index_message T.d_index_table)
    fun rc => { rc with d_index_map := put_servers T.d_index_table rc.d_index_map } :=
  ⟨List.cons_ne_nil _ _, fun _ rc h => dispatch_servers rc T.d_index_le T.d_index_fit h⟩

theorem performs_v_info : Performs (v_info_message T.v_info)
    fun rc => { rc with virtual_server_info := T.v_info } :=
  ⟨List.cons_ne_nil _ _, fun _ rc h => dispatch_v_info rc h⟩

theorem put_rules_none : put_rules T.rules (fun _ => none) = T.rule := by
  funext key
  rw [put_rules, foldl_upd (fun r : Rule => r.rule), Option.or_none]
  rfl

theorem put_servers_none : put_servers T.d_index_table (fun _ => none) = T.server := by
  funext index
  rw [put_servers, foldl_upd (fun e : DIndex => e.d_index), Option.or_none]
  rfl

/-- Only an empty table has no server at all. -/
theorem server_eq_none_iff : T.server = (fun _ => none) ↔ T.d_index_table = [] := by
  constructor
  · intro h
    by_contra hne
    obtain ⟨e, he⟩ := List.exists_mem_of_ne_nil _ hne
    have hnone := congrFun h e.d_index
    rw [server, Option.map_eq_none_iff, List.find?_eq_none] at hnone
    exact hnone e (List.mem_reverse.mpr he) (by simp)
  · intro h
    funext index
    rw [server, h]
    rfl

/-- The receives, if TCP cuts no message: `j₁` says whether the second message is joined to the
first, `j₂` whether the third is joined to the one before it. -/
def joined : Bool → Bool → List (List Byte)
  | false, false =>
    [rule_message T.rules, d_index_message T.d_index_table, v_info_message T.v_info]
  | true, false => [rule_message T.rules ++ d_index_message T.d_index_table, v_info_message T.v_info]
  | false, true => [rule_message T.rules, d_index_message T.d_index_table ++ v_info_message T.v_info]
  | true, true =>
    [rule_message T.rules ++ (d_index_message T.d_index_table ++ v_info_message T.v_info)]

theorem flatten_joined (j₁ j₂ : Bool) : (T.joined j₁ j₂).flatten = T.messages.flatten := by
  cases j₁ <;> cases j₂ <;> simp [joined, messages]

/-- What becomes of the tables: a message that is joined to another one is lost. -/
theorem recvs_joined (j₁ j₂ : Bool) (recv_buffer : Mem) :
    ∃ c', Config.recvs ⟨.init, recv_buffer⟩ (T.joined j₁ j₂) = .ok c' ∧
      c'.rule_controller = ⟨T.rule, if j₁ then fun _ => none else T.server,
        if j₂ then RuleController.init.virtual_server_info else T.v_info⟩ := by
  rw [← T.put_rules_none, ← T.put_servers_none]
  cases j₁ <;> cases j₂
  · exact recvs_performed (.cons T.performs_rules.first_whole
      (.cons T.performs_servers.first_whole (.cons T.performs_v_info.first_whole .nil))) _
  · exact recvs_performed (.cons T.performs_rules.first_whole
      (.cons (T.performs_servers.first _) .nil)) _
  · exact recvs_performed (.cons (T.performs_rules.first _)
      (.cons T.performs_v_info.first_whole .nil)) _
  · exact recvs_performed (.cons (T.performs_rules.first _) .nil) _

/-- **Joined messages.**  For all tables and all four ways to join whole messages: the front-end has
the tables of the switch exactly when what was joined to another message carries nothing. -/
theorem configured_joined_iff (j₁ j₂ : Bool) (recv_buffer : Mem) :
    ∃ c', Config.recvs ⟨.init, recv_buffer⟩ (T.joined j₁ j₂) = .ok c' ∧
      (Configured T c'.rule_controller ↔ (j₁ = true → T.d_index_table = []) ∧
        (j₂ = true → T.v_info = RuleController.init.virtual_server_info)) := by
  obtain ⟨c', hc, hrc⟩ := T.recvs_joined j₁ j₂ recv_buffer
  refine ⟨c', hc, ?_⟩
  rw [hrc]
  constructor
  · rintro ⟨-, hservers, hv_info⟩
    refine ⟨fun h => ?_, fun h => ?_⟩
    · rw [if_pos h] at hservers
      exact T.server_eq_none_iff.mp hservers.symm
    · rw [if_pos h] at hv_info
      exact hv_info.symm
  · rintro ⟨hservers, hv_info⟩
    refine ⟨rfl, ?_, ?_⟩
    · cases j₁ with
      | false => rfl
      | true => exact (T.server_eq_none_iff.mpr (hservers rfl)).symm
    · cases j₂ with
      | false => rfl
      | true => exact (hv_info rfl).symm

end Tables

/-! ### Whole messages -/

/-- Messages that are told apart by their first byte are found again in the stream they make up. -/
theorem eq_of_flatten_eq {S : List (List Byte)} (hne : ∀ a ∈ S, a ≠ [])
    (hS : ∀ a ∈ S, ∀ b ∈ S, a.head? = b.head? → a = b) {cs ms : List (List Byte)}
    (hcs : ∀ a ∈ cs, a ∈ S) (hms : ∀ a ∈ ms, a ∈ S) (h : cs.flatten = ms.flatten) : cs = ms := by
  induction cs generalizing ms with
  | nil =>
      cases ms with
      | nil => rfl
      | cons b ms =>
          have hb := hne b (hms b List.mem_cons_self)
          exact absurd (List.append_eq_nil_iff.mp h.symm).1 hb
  | cons a cs ih =>
      have ha := hcs a List.mem_cons_self
      cases ms with
      | nil => exact absurd (List.append_eq_nil_iff.mp h).1 (hne a ha)
      | cons b ms =>
          have hb := hms b List.mem_cons_self
          -- the first byte of the stream is that of either first message
          have hhead : a.head? = b.head? := by
            have hh := congrArg List.head? h
            rw [List.flatten_cons, List.flatten_cons, List.head?_append_of_ne_nil _ (hne a ha),
              List.head?_append_of_ne_nil _ (hne b hb)] at hh
            exact hh
          obtain rfl := hS a ha b hb hhead
          rw [ih (fun c hc => hcs c (List.mem_cons_of_mem _ hc))
            (fun c hc => hms c (List.mem_cons_of_mem _ hc)) (List.append_cancel_left h)]

theorem Tables.messages_head (T : Tables) :
    ∀ a ∈ T.messages, ∀ b ∈ T.messages, a.head? = b.head? → a = b := by
  intro a ha b hb h
  simp only [Tables.messages, List.mem_cons, List.not_mem_nil, or_false] at ha hb
  rcases ha with rfl | rfl | rfl <;> rcases hb with rfl | rfl | rfl <;>
    first | rfl | exact absurd (Option.some.inj h) (by decide)

theorem Tables.messages_ne_nil (T : Tables) : ∀ a ∈ T.messages, a ≠ [] := by
  intro a ha
  simp only [Tables.messages, List.mem_cons, List.not_mem_nil, or_false] at ha
  rcases ha with rfl | rfl | rfl
  · exact List.cons_ne_nil _ _
  · exact List.cons_ne_nil _ _
  · exact List.cons_ne_nil _ _

/-- **Configuration.**  For all tables of the switch: in every run in which the received bytes are
those of the three messages and every receive is one of them, the front-end ends up with the tables
of the switch. -/
theorem configured_of_whole (T : Tables) (recv_buffer : Mem) {received : List (List Byte)}
    (hbytes : received.flatten = T.messages.flatten)
    (hwhole : ∀ data ∈ received, data ∈ T.messages) :
    ∃ c', Config.recvs ⟨.init, recv_buffer⟩ received = .ok c' ∧ Configured T c'.rule_controller := by
  obtain rfl : received = T.messages :=
    eq_of_flatten_eq T.messages_ne_nil T.messages_head hwhole (fun _ h => h) hbytes
  obtain ⟨c', hc, hiff⟩ := T.configured_joined_iff false false recv_buffer
  exact ⟨c', hc, hiff.mpr ⟨fun h => (nomatch h), fun h => (nomatch h)⟩⟩

/-- One rule and one server. -/
def sampleTables : Tables where
  rules := [⟨[97], 1, 1, by decide, by decide⟩]
  d_index_table := [⟨1, ⟨sampleMac 1, 0x0A000102, 8080⟩⟩]
  v_info := ⟨sampleMac 9, 0x0A000001, 80⟩
  rules_le := by decide
  d_index_le := by decide
  rules_fit := by decide
  d_index_fit := by decide

theorem configured_of_whole_sample :
    ∃ c', Config.recvs ⟨.init, fun _ => 0⟩ sampleTables.messages = .ok c' ∧
      Configured sampleTables c'.rule_controller :=
  configured_of_whole sampleTables _ rfl fun _ h => h

/-- The first two messages in one receive: the server is lost. -/
theorem joined_not_configured :
    (sampleTables.joined true false).flatten = sampleTables.messages.flatten ∧
    (∀ data ∈ sampleTables.joined true false, data ≠ [] ∧ data.length ≤ ETH_FRAME_LEN) ∧
    ∃ c', Config.recvs ⟨.init, fun _ => 0⟩ (sampleTables.joined true false) = .ok c' ∧
      c'.rule_controller.d_index_map 1 = none ∧
      sampleTables.server 1 = some ⟨#v[2, 0, 0, 0, 0, 1], 0x0A000102, 8080⟩ ∧
      ¬ Configured sampleTables c'.rule_controller := by
  obtain ⟨c', hc, hrc⟩ := sampleTables.recvs_joined true false fun _ => 0
  have hnone : c'.rule_controller.d_index_map 1 = none := by rw [hrc]; rfl
  have hsome : sampleTables.server 1 = some ⟨sampleMac 1, 0x0A000102, 8080⟩ := rfl
  refine ⟨sampleTables.flatten_joined true false, by decide +kernel, c', hc, hnone, hsome, ?_⟩
  intro h
  rw [h.servers, hsome] at hnone
  cases hnone

end Miresga.System
