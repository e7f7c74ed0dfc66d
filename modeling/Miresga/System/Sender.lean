import Miresga.Lib.Writer
import Miresga.System.Startup

/-!
# System — how the switch writes its start-up messages

On a new connection `run_controller` builds three messages in `send_buffer`, one after the other,
with a cursor that nothing compares with the size of the buffer.  The count of the entries is one
byte.

* `new_connection_eq`: if both lists fit, what is sent are the three messages of `Tables.messages`.
* `codec_round_trip`: the front-end takes from each of them what the switch put in.
* `startup_sent_iff`: which configurations fit; the tables of the switch hold more.
-/

namespace Miresga.System

open Frontend

/-! ### The writer -/

section writer

/-- A rule is copied with its NUL, which is then written once more. -/
def write_rule (c : Cursor) (r : Rule) : Option Cursor := do
  let c ← c.store SEND_BUFFER_SIZE (r.rule ++ [0])
  let c ← (c.advance r.rule.length).put SEND_BUFFER_SIZE [0]
  let c ← c.put SEND_BUFFER_SIZE [r.d_index]
  c.put SEND_BUFFER_SIZE [r.offload_flag]

def write_d_index (c : Cursor) (e : DIndex) : Option Cursor := do
  let c ← c.put SEND_BUFFER_SIZE [e.d_index]
  c.put SEND_BUFFER_SIZE (server_info_bytes e.server_info)

/-- The start of a message with entries; the number of entries is cut to a byte. -/
def write_counts (op : Byte) (add_size : Nat) (send_buffer : Mem) : Cursor :=
  ⟨((send_buffer.st8 0 op).st8 1 (BitVec.ofNat 8 add_size)).st8 2 0, 3⟩

def write_rules (rules : List Rule) (send_buffer : Mem) : Option Cursor :=
  rules.foldlM write_rule (write_counts 0 rules.length send_buffer)

def write_d_index_table (d_index_table : List DIndex) (send_buffer : Mem) : Option Cursor :=
  d_index_table.foldlM write_d_index (write_counts 1 d_index_table.length send_buffer)

def write_v_info (v_info : ServerInfo) (send_buffer : Mem) : Option Cursor := do
  let c ← (⟨send_buffer.st8 0 2, 1⟩ : Cursor).put SEND_BUFFER_SIZE (server_info_bytes v_info)
  c.put SEND_BUFFER_SIZE [0, 0, 0]

/-- What is sent on a new connection, if no store leaves the buffer. -/
def new_connection (rules : List Rule) (d_index_table : List DIndex) (v_info : ServerInfo)
    (send_buffer : Mem) : Option (List (List Byte)) := do
  let c₁ ← write_rules rules send_buffer
  let c₂ ← write_d_index_table d_index_table c₁.buffer
  let c₃ ← write_v_info v_info c₂.buffer
  some [c₁.written, c₂.written, c₃.written]

end writer

/-! ### What is written -/

theorem write_rule_appends (r : Rule) : Appends SEND_BUFFER_SIZE (write_rule · r) r.bytes := by
  have h := ((Appends.again SEND_BUFFER_SIZE r.rule [0]).seq (.put _ [r.d_index])).seq
    (.put _ [r.offload_flag])
  have hb : r.bytes = r.rule ++ [0] ++ [r.d_index] ++ [r.offload_flag] := by
    rw [List.append_assoc, List.append_assoc]
    rfl
  simp only [Option.bind_assoc] at h
  rw [hb]
  exact h

theorem write_d_index_appends (e : DIndex) :
    Appends SEND_BUFFER_SIZE (write_d_index · e) e.bytes :=
  (Appends.put SEND_BUFFER_SIZE [e.d_index]).seq (.put _ (server_info_bytes e.server_info))

theorem write_counts_wrote (op : Byte) (add_size : Nat) (send_buffer : Mem) :
    (write_counts op add_size send_buffer).Wrote SEND_BUFFER_SIZE
      [op, BitVec.ofNat 8 add_size, 0] := by
  refine ⟨rfl, fun i hi => ?_, show 3 ≤ SEND_BUFFER_SIZE by decide⟩
  match i, hi with
  | 0, _ => rfl
  | 1, _ => rfl
  | 2, _ => rfl

/-- **The first message**, if it fits. -/
theorem write_rules_eq (rules : List Rule) (send_buffer : Mem) :
    ((rule_message rules).length ≤ SEND_BUFFER_SIZE →
      ∃ c, write_rules rules send_buffer = some c ∧ c.Wrote SEND_BUFFER_SIZE (rule_message rules)) ∧
    (SEND_BUFFER_SIZE < (rule_message rules).length → write_rules rules send_buffer = none) := by
  have h := Appends.foldlM write_rule_appends rules
  have h₀ := write_counts_wrote 0 rules.length send_buffer
  rw [rule_message, List.length_append]
  exact ⟨h.fits h₀, h.passes h₀⟩

/-- **The second message**, if it fits. -/
theorem write_d_index_table_eq (d_index_table : List DIndex) (send_buffer : Mem) :
    ((d_index_message d_index_table).length ≤ SEND_BUFFER_SIZE →
      ∃ c, write_d_index_table d_index_table send_buffer = some c ∧
        c.Wrote SEND_BUFFER_SIZE (d_index_message d_index_table)) ∧
    (SEND_BUFFER_SIZE < (d_index_message d_index_table).length →
      write_d_index_table d_index_table send_buffer = none) := by
  have h := Appends.foldlM write_d_index_appends d_index_table
  have h₀ := write_counts_wrote 1 d_index_table.length send_buffer
  rw [d_index_message, List.length_append]
  exact ⟨h.fits h₀, h.passes h₀⟩

/-- **The third message** always fits. -/
theorem write_v_info_eq (v_info : ServerInfo) (send_buffer : Mem) :
    ∃ c, write_v_info v_info send_buffer = some c ∧
      c.Wrote SEND_BUFFER_SIZE (v_info_message v_info) := by
  have h := (Appends.put SEND_BUFFER_SIZE (server_info_bytes v_info)).seq (.put _ [0, 0, 0])
  have h₀ : (⟨send_buffer.st8 0 2, 1⟩ : Cursor).Wrote SEND_BUFFER_SIZE [2] := by
    refine ⟨rfl, fun i hi => ?_, by decide⟩
    match i, hi with
    | 0, _ => rfl
  exact h.fits h₀ (by rw [List.length_append, length_server_info_bytes]; decide)

/-- **What is sent on a new connection**: the three messages, if no store leaves the buffer. -/
theorem new_connection_eq (rules : List Rule) (d_index_table : List DIndex) (v_info : ServerInfo)
    (send_buffer : Mem) : new_connection rules d_index_table v_info send_buffer =
      if (rule_message rules).length ≤ SEND_BUFFER_SIZE ∧
          (d_index_message d_index_table).length ≤ SEND_BUFFER_SIZE then
        some [rule_message rules, d_index_message d_index_table, v_info_message v_info]
      else none := by
  unfold new_connection
  simp only [bind]
  by_cases hr : (rule_message rules).length ≤ SEND_BUFFER_SIZE
  · obtain ⟨c₁, h₁, hw₁⟩ := (write_rules_eq rules send_buffer).1 hr
    rw [h₁, Option.bind_some]
    by_cases hd : (d_index_message d_index_table).length ≤ SEND_BUFFER_SIZE
    · obtain ⟨c₂, h₂, hw₂⟩ := (write_d_index_table_eq d_index_table c₁.buffer).1 hd
      obtain ⟨c₃, h₃, hw₃⟩ := write_v_info_eq v_info c₂.buffer
      rw [h₂, Option.bind_some, h₃, Option.bind_some, if_pos ⟨hr, hd⟩, hw₁.written, hw₂.written,
        hw₃.written]
    · rw [(write_d_index_table_eq d_index_table c₁.buffer).2 (Nat.lt_of_not_le hd),
        if_neg fun h => hd h.2]
      rfl
  · rw [(write_rules_eq rules send_buffer).2 (Nat.lt_of_not_le hr), if_neg fun h => hr h.1]
    rfl

/-! ### The front-end decodes what the switch wrote -/

/-- Of the message in the buffer, the entries end at `n`: there the loop that adds rules stops, and
there are none to delete. -/
def RulesEnd (recv_buffer : Mem) (rc : RuleController) (n : Nat) : Prop :=
  (∃ rc', add_rules recv_buffer (recv_buffer 1).toNat 3 rc = .ok (n, rc')) ∧
    (recv_buffer 2).toNat = 0

/-- The same for servers. -/
def ServersEnd (recv_buffer : Mem) (rc : RuleController) (n : Nat) : Prop :=
  (∃ rc', add_d_indexes recv_buffer (recv_buffer 1).toNat 3 rc = .ok (n, rc')) ∧
    (recv_buffer 2).toNat = 0

theorem rules_end {m : Mem} (rc : RuleController) {rules : List Rule} (hle : rules.length ≤ 255)
    (hfit : (rule_message rules).length ≤ SEND_BUFFER_SIZE) (h : m.Holds 0 (rule_message rules)) :
    RulesEnd m rc (rule_message rules).length := by
  obtain ⟨h2, hadd⟩ := rules_added rc hle hfit h
  exact ⟨⟨_, hadd⟩, by rw [h2]; rfl⟩

theorem servers_end {m : Mem} (rc : RuleController) {d_index_table : List DIndex}
    (hle : d_index_table.length ≤ 255)
    (hfit : (d_index_message d_index_table).length ≤ SEND_BUFFER_SIZE)
    (h : m.Holds 0 (d_index_message d_index_table)) :
    ServersEnd m rc (d_index_message d_index_table).length := by
  obtain ⟨h2, hadd⟩ := servers_added rc hle hfit h
  exact ⟨⟨_, hadd⟩, by rw [h2]; rfl⟩

/-- A receive that returns a whole message performs it, and leaves it in the buffer. -/
theorem Performs.whole {message : List Byte} {f : RuleController → RuleController}
    (h : Performs message f) (c : Config) : ∃ c', c.recv message = .ok c' ∧
      c'.rule_controller = f c.rule_controller ∧ c'.recv_buffer.Holds 0 message := by
  have hr := h.recv c []
  rw [List.append_nil] at hr
  exact ⟨_, hr, rfl, Mem.holds_write c.recv_buffer 0 message⟩

/-- **Round trip.**  For all tables of the switch whose counts and messages fit, whatever stood in
its send buffer, and whatever the front-end knows and has in its receive buffer: each message is
sent, and received whole it puts the entries into the map, one after the other, and changes nothing
else; the entries end where the message does. -/
theorem codec_round_trip (T : Tables) (send_buffer : Mem) : ∃ m₁ m₂ m₃,
    new_connection T.rules T.d_index_table T.v_info send_buffer = some [m₁, m₂, m₃] ∧
    ∀ c : Config,
      (∃ c', c.recv m₁ = .ok c' ∧
        c'.rule_controller =
          { c.rule_controller with rule_map := put_rules T.rules c.rule_controller.rule_map } ∧
        RulesEnd c'.recv_buffer c.rule_controller m₁.length) ∧
      (∃ c', c.recv m₂ = .ok c' ∧
        c'.rule_controller =
          { c.rule_controller with
            d_index_map := put_servers T.d_index_table c.rule_controller.d_index_map } ∧
        ServersEnd c'.recv_buffer c.rule_controller m₂.length) ∧
      (∃ c', c.recv m₃ = .ok c' ∧
        c'.rule_controller = { c.rule_controller with virtual_server_info := T.v_info }) := by
  refine ⟨rule_message T.rules, d_index_message T.d_index_table, v_info_message T.v_info, ?_,
    fun c => ⟨?_, ?_, ?_⟩⟩
  · rw [new_connection_eq, if_pos ⟨T.rules_fit, T.d_index_fit⟩]
  · obtain ⟨c', hc, hrc, hm⟩ := T.performs_rules.whole c
    exact ⟨c', hc, hrc, rules_end _ T.rules_le T.rules_fit hm⟩
  · obtain ⟨c', hc, hrc, hm⟩ := T.performs_servers.whole c
    exact ⟨c', hc, hrc, servers_end _ T.d_index_le T.d_index_fit hm⟩
  · obtain ⟨c', hc, hrc, -⟩ := T.performs_v_info.whole c
    exact ⟨c', hc, hrc⟩

/-! ### What can be sent -/

/-- The messages are sent, each with the number of the entries that follow. -/
def Sent (rules : List Rule) (d_index_table : List DIndex) (v_info : ServerInfo)
    (send_buffer : Mem) : Prop :=
  ∃ m₁ m₂ m₃, new_connection rules d_index_table v_info send_buffer = some [m₁, m₂, m₃] ∧
    (m₁.getD 1 0).toNat = rules.length ∧ (m₂.getD 1 0).toNat = d_index_table.length

theorem length_flatMap_rules (rules : List Rule) :
    (rules.flatMap Rule.bytes).length = (rules.map fun r => r.rule.length + 3).sum := by
  rw [List.length_flatMap]
  exact congrArg List.sum (List.map_congr_left fun r _ => length_rule_bytes r)

theorem length_flatMap_d_indexes (d_index_table : List DIndex) :
    (d_index_table.flatMap DIndex.bytes).length = 17 * d_index_table.length := by
  rw [List.length_flatMap, List.map_congr_left fun e _ => length_dIndex_bytes e, List.map_const',
    List.sum_replicate, smul_eq_mul, Nat.mul_comm]

/-- **Which configurations can be sent.**  For all rules, servers and former contents of the buffer:
the messages are built without a store behind the buffer and with the right counts exactly when the
rules, each with three bytes beside its key, and the servers fit the buffer behind the three bytes at
the start, and there are no more than 255 rules. -/
theorem startup_sent_iff (rules : List Rule) (d_index_table : List DIndex) (v_info : ServerInfo)
    (send_buffer : Mem) : Sent rules d_index_table v_info send_buffer ↔
      3 + (rules.map fun r => r.rule.length + 3).sum ≤ 1024 ∧ rules.length ≤ 255 ∧
        3 + 17 * d_index_table.length ≤ 1024 := by
  rw [← length_flatMap_rules, ← length_flatMap_d_indexes, ← length_rule_message,
    ← length_d_index_message]
  have count₁ : ((rule_message rules).getD 1 0).toNat = rules.length % 256 := BitVec.toNat_ofNat _ _
  have count₂ : ((d_index_message d_index_table).getD 1 0).toNat = d_index_table.length % 256 :=
    BitVec.toNat_ofNat _ _
  constructor
  · rintro ⟨m₁, m₂, m₃, hsend, h₁, -⟩
    rw [new_connection_eq] at hsend
    split at hsend
    next hfit =>
      obtain ⟨rfl, -⟩ := List.cons.inj (Option.some.inj hsend)
      refine ⟨hfit.1, ?_, hfit.2⟩
      omega
    · cases hsend
  · rintro ⟨hr, hle, hd⟩
    refine ⟨_, _, _, by rw [new_connection_eq, if_pos ⟨hr, hd⟩], by omega, ?_⟩
    rw [count₂]
    rw [length_d_index_message, length_flatMap_d_indexes] at hd
    omega

/-- 61 servers; the table of the switch has room for 256. -/
def manyServers : List DIndex :=
  (List.range 61).map fun i => ⟨BitVec.ofNat 8 i, ⟨sampleMac 1, 0x0A000102, 8080⟩⟩

/-- 256 rules for the empty key. -/
def manyRules : List Rule := List.replicate 256 ⟨[], 1, 1, by decide, by decide⟩

/-- **Tables that are too large.**  61 servers do not fit the buffer; 256 rules may, and are then
announced as none. -/
theorem large_tables_not_sent :
    manyServers.length ≤ 256 ∧ manyRules.length ≤ 256 ∧
    new_connection [] manyServers ⟨#v[2, 0, 0, 0, 0, 9], 0x0A000001, 80⟩ (fun _ => 0) = none ∧
    ¬ Sent [] manyServers ⟨#v[2, 0, 0, 0, 0, 9], 0x0A000001, 80⟩ (fun _ => 0) ∧
    (∃ m₁ ms, new_connection manyRules [] ⟨#v[2, 0, 0, 0, 0, 9], 0x0A000001, 80⟩ (fun _ => 0) =
      some (m₁ :: ms) ∧ m₁.length = 771 ∧ m₁.getD 1 0 = 0) ∧
    ¬ Sent manyRules [] ⟨#v[2, 0, 0, 0, 0, 9], 0x0A000001, 80⟩ (fun _ => 0) := by
  have hlen : manyServers.length = 61 := by rw [manyServers, List.length_map, List.length_range]
  have hlen' : manyRules.length = 256 := List.length_replicate
  have hnone : new_connection [] manyServers ⟨#v[2, 0, 0, 0, 0, 9], 0x0A000001, 80⟩
      (fun _ => 0) = none := by
    rw [new_connection_eq, if_neg]
    rw [length_d_index_message, length_flatMap_d_indexes, hlen]
    decide
  have hrules : (rule_message manyRules).length = 771 := by
    rw [length_rule_message, length_flatMap_rules, manyRules, List.map_replicate,
      List.sum_replicate]
    rfl
  have hsome : new_connection manyRules [] ⟨#v[2, 0, 0, 0, 0, 9], 0x0A000001, 80⟩ (fun _ => 0) =
      some [rule_message manyRules, d_index_message [],
        v_info_message ⟨#v[2, 0, 0, 0, 0, 9], 0x0A000001, 80⟩] := by
    rw [new_connection_eq, if_pos]
    rw [hrules]
    decide
  have hcount : (rule_message manyRules).getD 1 0 = 0 := by
    show BitVec.ofNat 8 manyRules.length = 0
    rw [hlen']
    rfl
  refine ⟨by omega, by omega, hnone, ?_, ⟨_, _, hsome, hrules, hcount⟩, ?_⟩
  · rintro ⟨m₁, m₂, m₃, hsend, -⟩
    rw [hnone] at hsend
    cases hsend
  · rintro ⟨m₁, m₂, m₃, hsend, h₁, -⟩
    obtain ⟨rfl, -⟩ := List.cons.inj (Option.some.inj (hsome.symm.trans hsend))
    rw [hcount, hlen'] at h₁
    exact absurd h₁ (by decide)

end Miresga.System
