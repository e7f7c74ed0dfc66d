import Miresga.Lib.Store
import Miresga.Wire

/-!
# Frontend — data of the front-end server

The records of `flow_data.hpp` and `my_config.hpp`, the rule controller's three tables, and the
names a client goes by: `src_key` and `src_crc` select its slot of `flow_hash_map`, `src_my_key` is
what is sent to the switch.
-/

namespace Miresga.Frontend

inductive Status where
  | OK
  | INTERNAL_ERROR
  | INVALID_PARAMETER
  | BUSYING
  | OUT_OF_RANGE
  | UNKNOWN
  deriving DecidableEq, Repr

/-! ### Flow records -/

/-- `my_key_t`. -/
structure MyKey where
  crc : Byte
  client_ip : BitVec 32
  client_port : BitVec 16
  deriving DecidableEq, Repr

/-- `my_data_t`. -/
structure MyData where
  offload_flag : Byte
  d_index : Byte
  deriving DecidableEq, Repr

/-- `my_pair_t`. -/
structure MyPair where
  key : MyKey
  data : MyData
  deriving DecidableEq, Repr

inductive FlowState where
  | INIT
  | BACKEND_SYN
  | OFFLOAD
  | COMPLETE
  deriving DecidableEq, Repr

/-- `flow_data_t`; a null `recv_pkt` is `none`. -/
structure FlowData where
  state : FlowState
  entry_data : MyData
  recv_pkt : Option Addr
  pkt_size : Nat
  deriving DecidableEq, Repr

/-! ### The rule controller -/

/-- `server_info_t`. -/
structure ServerInfo where
  mac : Vector Byte 6
  ip : BitVec 32
  port : BitVec 16
  deriving DecidableEq, Repr

/-- The address `02:00:00:00:00:n` of a server in an example. -/
def sampleMac (n : Byte) : Vector Byte 6 := #v[2, 0, 0, 0, 0, n]

/-- `rule_controller_t`; a rule's key is the bytes of its `std::string`. -/
structure RuleController where
  rule_map : List Byte → Option MyData
  d_index_map : Byte → Option ServerInfo
  virtual_server_info : ServerInfo

namespace RuleController

/-- The bytes of a C string: those before the first NUL. -/
def c_str (s : List Byte) : List Byte := s.takeWhile (· ≠ 0)

def lookup_balancing_rule (rc : RuleController) (key : List Byte) : Option MyData :=
  rc.rule_map (c_str key)

def lookup_backend_server_info (rc : RuleController) (index : Byte) : Option ServerInfo :=
  rc.d_index_map index

/-- Set once by the constructor and never null. -/
def get_virtual_server_info (rc : RuleController) : ServerInfo := rc.virtual_server_info

/-- As the constructor leaves it: no rules, no servers, and a virtual server of zeros. -/
def init : RuleController := ⟨fun _ => none, fun _ => none, ⟨.replicate 6 0, 0, 0⟩⟩

def add_balancing_rule (rc : RuleController) (key : List Byte) (data : MyData) :
    Status × RuleController :=
  (.OK, { rc with rule_map := upd rc.rule_map (c_str key) (some data) })

def del_balancing_rule (rc : RuleController) (key : List Byte) : Status × RuleController :=
  match rc.rule_map (c_str key) with
  | none => (.INTERNAL_ERROR, rc)
  | some _ => (.OK, { rc with rule_map := upd rc.rule_map (c_str key) none })

def add_d_index_rule (rc : RuleController) (index : Byte) (server_info : ServerInfo) :
    Status × RuleController :=
  (.OK, { rc with d_index_map := upd rc.d_index_map index (some server_info) })

def del_d_index_rule (rc : RuleController) (index : Byte) : Status × RuleController :=
  match rc.d_index_map index with
  | none => (.INTERNAL_ERROR, rc)
  | some _ => (.OK, { rc with d_index_map := upd rc.d_index_map index none })

def update_virtual_server_info (rc : RuleController) (new_virtual_server_info : ServerInfo) :
    Status × RuleController :=
  (.OK, { rc with virtual_server_info := new_virtual_server_info })

end RuleController

/-! ### Clients -/

/-- A peer's address and port, as loaded from a frame. -/
structure Client where
  addr : BitVec 32
  port : BitVec 16
  deriving DecidableEq, Repr

/-- The source of a frame. -/
def srcClient (m : Mem) : Client := ⟨src_addr m, src_port m⟩

/-- The destination of a frame. -/
def dstClient (m : Mem) : Client := ⟨dst_addr m, dst_port m⟩

/-- One step of the loop that fills `crc8_table`. -/
def crc8_shift (crc : Byte) : Byte :=
  if crc &&& 0x80 ≠ 0 then (crc <<< 1) ^^^ 0x07 else crc <<< 1

/-- `crc8_table`, as `init_static_variable` fills it. -/
def crc8_table (i : Byte) : Byte := crc8_shift^[8] i

def calculate_crc8 (ip : BitVec 32) (port : BitVec 16) : Byte :=
  let crc : Byte := 0
  let crc := crc8_table (crc ^^^ ip.extractLsb' 0 8)
  let crc := crc8_table (crc ^^^ ip.extractLsb' 8 8)
  let crc := crc8_table (crc ^^^ ip.extractLsb' 16 8)
  let crc := crc8_table (crc ^^^ ip.extractLsb' 24 8)
  let crc := crc8_table (crc ^^^ port.extractLsb' 0 8)
  crc8_table (crc ^^^ port.extractLsb' 8 8)

/-- A place in `flow_hash_map`: which of the 256 tables, and the key in it. -/
abbrev Slot := Byte × BitVec 64

namespace Client

/-- `src_crc`, `dst_crc`. -/
def crc (c : Client) : Byte := calculate_crc8 c.addr c.port

/-- `src_key`, `dst_key`. -/
def key (c : Client) : BitVec 64 := (c.addr.setWidth 64 <<< 32) + c.port.setWidth 64

def slot (c : Client) : Slot := (c.crc, c.key)

/-- `src_my_key`, `dst_my_key`. -/
def my_key (c : Client) : MyKey := ⟨c.crc, htonl c.addr, htons c.port⟩

theorem key_inj {c c' : Client} (h : c.key = c'.key) : c = c' := by
  obtain ⟨a, p⟩ := c
  obtain ⟨a', p'⟩ := c'
  have h' := congrArg BitVec.toNat h
  simp only [key, BitVec.toNat_add, BitVec.toNat_shiftLeft, BitVec.toNat_setWidth,
    Nat.shiftLeft_eq] at h'
  have := a.isLt
  have := a'.isLt
  have := p.isLt
  have := p'.isLt
  rw [Client.mk.injEq]
  constructor <;> apply BitVec.eq_of_toNat_eq <;> omega

theorem slot_inj {c c' : Client} : c.slot = c'.slot ↔ c = c' :=
  ⟨fun h => key_inj (congrArg Prod.snd h), fun h => by rw [h]⟩

theorem my_key_inj {c c' : Client} : c.my_key = c'.my_key ↔ c = c' := by
  refine ⟨fun h => ?_, fun h => by rw [h]⟩
  obtain ⟨a, p⟩ := c
  obtain ⟨a', p'⟩ := c'
  simp only [my_key, MyKey.mk.injEq, bswap32_inj, bswap16_inj] at h
  rw [h.2.1, h.2.2]

end Client

end Miresga.Frontend
