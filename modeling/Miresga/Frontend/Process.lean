import Miresga.Frontend.Builders

/-!
# Frontend — `process_pkts`, packet by packet

`process_pkt` is the body of the loop of `process_pkts`, for one received buffer.  It works on

* `Shared`: the flow table, the heap of flow records and the heap of cached packets behind it, and
  what has been enqueued on `add_queue` and `del_queue`, in order;
* `Sends`: the send buffers with `send_size`, and as a record for proofs which builder call filled
  which buffer.

The source's control flow is kept: `Outcome.next` is `continue`, `Outcome.ret` an early return,
`Outcome.crash` a null pointer dereference, `Outcome.overflow` a write behind the end of
`url_copy`.  The addresses `rte_malloc` returns are part of the input (`Alloc`); `Outcome.refused`
marks an address no allocator would have returned.

What the buffer of a packet holds behind the frame is read like the frame.  To tell where the copy of
a URL reads such bytes, the loop body takes a `fence`: with one, copying a byte from there on ends it
with `Outcome.stray`, and nothing else changes.  `process_pkt` is the loop body without a fence.
-/

namespace Miresga.Frontend

/-! ### State -/

/-- An entry put on one of the two queues. -/
inductive Enq where
  | add (pair : MyPair)
  | del (key : MyKey)
  deriving DecidableEq, Repr

/-- What all calls of `process_pkts` share. -/
structure Shared where
  flow_hash_map : Slot → Option Addr
  flows : Heap FlowData
  cached : Heap Mem
  enqueued : List Enq

/-- The send buffers of one call. -/
structure Sends where
  send_pkts : Nat → Mbuf
  send_size : Nat
  built : List (Nat × Call)

structure Proc where
  shared : Shared
  sends : Sends

/-- What `rte_malloc_socket` would return, for a flow record and for a packet. -/
structure Alloc where
  flow_data : Addr
  recv_pkt : Addr

inductive Outcome where
  | next (s : Proc)
  | ret (status : Status) (s : Proc)
  | crash
  | overflow
  | stray
  | refused

/-! ### Operations on the shared state -/

namespace Shared

/-- `flow_hash_map[crc].find(key, flow_data)`. -/
def find (s : Shared) (c : Client) : Option Addr := s.flow_hash_map c.slot

/-- `*flow_data`. -/
def flow (s : Shared) (a : Addr) : FlowData := s.flows.cell a

def enqueue (s : Shared) (e : Enq) : Shared := { s with enqueued := s.enqueued ++ [e] }

/-- `flow_hash_map[crc].erase(key)`. -/
def erase (s : Shared) (c : Client) : Shared :=
  { s with flow_hash_map := upd s.flow_hash_map c.slot none }

/-- `flow_hash_map[crc].insert(key, flow_data)`, which leaves an entry that is there. -/
def insert (s : Shared) (c : Client) (a : Addr) : Shared :=
  if (s.find c).isSome then s
  else { s with flow_hash_map := upd s.flow_hash_map c.slot (some a) }

/-- `if(flow_data->recv_pkt) rte_free(flow_data->recv_pkt)`. -/
def free_pkt (s : Shared) (a : Addr) : Shared :=
  match (s.flow a).recv_pkt with
  | none => s
  | some q => { s with cached := s.cached.free q }

/-- The cached packet and the record are freed. -/
def release (s : Shared) (a : Addr) : Shared :=
  let s := s.free_pkt a
  { s with flows := s.flows.free a }

/-- `if(flow_data->state == OFFLOAD) del_queue->enqueue(…)`. -/
def unoffload (s : Shared) (c : Client) (a : Addr) : Shared :=
  if (s.flow a).state = .OFFLOAD then s.enqueue (.del c.my_key) else s

/-- The end of a flow: its switch entry, its table entry, its record. -/
def close (s : Shared) (c : Client) (a : Addr) : Shared :=
  ((s.unoffload c a).erase c).release a

/-- `flow_data->state = …`. -/
def set_state (s : Shared) (a : Addr) (st : FlowState) : Shared :=
  { s with flows := s.flows.put a { s.flow a with state := st } }

/-- The backend has answered: the flow is offloaded if its rule says so. -/
def establish (s : Shared) (c : Client) (a : Addr) : Shared :=
  let data := (s.flow a).entry_data
  if data.offload_flag = 1 then (s.set_state a .OFFLOAD).enqueue (.add ⟨c.my_key, data⟩)
  else s.set_state a .COMPLETE

/-- A block for the packet, with the received bytes copied in. -/
def cache (s : Shared) (q : Addr) (p : Mbuf) : Option Shared :=
  match s.cached.malloc q ((s.cached.cell q).copy p.data p.data_len.toNat) with
  | none => none
  | some h => some { s with cached := h }

/-- The flow waits for `data`'s backend, with the packet cached in `q`. -/
def await (data : MyData) (q : Addr) (p : Mbuf) : FlowData :=
  { state := .BACKEND_SYN, entry_data := data, recv_pkt := some q, pkt_size := p.data_len.toNat }

/-- A flow that changes its backend: the old cached packet goes, the new one is cached. -/
def move (s : Shared) (a : Addr) (data : MyData) (q : Addr) (p : Mbuf) : Option Shared :=
  match (s.free_pkt a).cache q p with
  | none => none
  | some s => some { s with flows := s.flows.put a (await data q p) }

/-- A new flow record for `c`, with the packet cached. -/
def create (s : Shared) (c : Client) (data : MyData) (mem : Alloc) (p : Mbuf) : Option Shared :=
  match s.flows.malloc mem.flow_data (await data mem.recv_pkt p) with
  | none => none
  | some h =>
    match { s with flows := h }.cache mem.recv_pkt p with
    | none => none
    | some s => some (s.insert c mem.flow_data)

end Shared

namespace Proc

/-- The buffer `send_pkts[send_size]` filled by a builder that returned OK. -/
def filled (s : Proc) (c : Call) (b : Mbuf) : Proc :=
  { s with
    sends :=
      { s.sends with
        send_pkts := upd s.sends.send_pkts s.sends.send_size b
        built := s.sends.built ++ [(s.sends.send_size, c)] } }

/-- The buffer written to by a builder that failed. -/
def spoiled (s : Proc) (b : Mbuf) : Proc :=
  { s with sends := { s.sends with send_pkts := upd s.sends.send_pkts s.sends.send_size b } }

/-- `++send_size`. -/
def bump (s : Proc) : Proc :=
  { s with sends := { s.sends with send_size := s.sends.send_size + 1 } }

/-- The same buffers, with the shared state changed. -/
def on (s : Proc) (f : Shared → Shared) : Proc := { s with shared := f s.shared }

end Proc

/-- A builder is called on `send_pkts[send_size]`; if it fails, `process_pkts` returns. -/
def call (rc : RuleController) (s : Proc) (c : Call) (k : Proc → Outcome) : Outcome :=
  match c.build rc (s.sends.send_pkts s.sends.send_size) with
  | none => .crash
  | some (.OK, b) => k (s.filled c b)
  | some (st, b) => .ret st (s.spoiled b)

/-! ### The payload -/

/-- How many of the `n` bytes from `i` on come before the first that `stop` holds of. -/
def span (stop : Byte → Bool) (m : Mem) (i : Nat) : Nat → Nat
  | 0 => 0
  | n + 1 => if stop (m i) then 0 else span stop m (i + 1) n + 1

/-- Offset and size of the token behind the first `/` of the `payload_size` bytes at `payload`. -/
def parse_payload (m : Mem) (payload payload_size : Nat) : Nat × Int :=
  let i := span (· == 0x2f) m payload payload_size
  let i := i + 1
  let size := span (fun b => b == 0x20 || b == 0x0d) m (payload + i) (payload_size - i)
  (payload + i, (size : Int))

/-- `header_size`. -/
def header_size (m : Mem) : Nat := 20 + tcp_hdr_len m

def payload_flag (m : Mem) : Bool := header_size m < (ntohs (total_length m)).toNat

/-- The call of `parse_payload` on a received frame. -/
def parse_url (m : Mem) : Nat × Int :=
  parse_payload m (34 + tcp_hdr_len m) ((ntohs (total_length m)).toNat - header_size m)

/-- The size of `url_copy`, an array on the stack. -/
def URL_COPY : Nat := 20

/-- What `url_copy` is to hold: the token with its terminating NUL. -/
def url_copy (m : Mem) : List Byte := m.bytes (parse_url m).1 (parse_url m).2.toNat ++ [0]

/-- The token and the NUL fit `url_copy`. -/
def url_fits (m : Mem) : Bool := (parse_url m).2.toNat + 1 ≤ URL_COPY

/-- Some byte of the token lies at `n` or behind it. -/
def url_passes (m : Mem) (n : Nat) : Bool :=
  0 < (parse_url m).2.toNat && n < (parse_url m).1 + (parse_url m).2.toNat

/-- `rte_memcpy(url_copy, url, size)` and `url_copy[size] = 0`. -/
def copy_url (fence : Option Nat) (p : Mbuf) (k : List Byte → Outcome) : Outcome :=
  if url_fits p.data then
    if fence.any (url_passes p.data) then .stray else k (url_copy p.data)
  else .overflow

/-! ### A packet of a known client -/

/-- Source found, state COMPLETE or OFFLOAD, packet with payload. -/
def client_payload (fence : Option Nat) (rc : RuleController) (mem : Alloc) (p : Mbuf) (s : Proc)
    (a : Addr) : Outcome :=
  let flow_data := s.shared.flow a
  let c := srcClient p.data
  if (parse_url p.data).2 = -1 then .next s
  else
    copy_url fence p fun url =>
    match rc.lookup_balancing_rule url with
    | none => .next s
    | some new_data =>
      if new_data.d_index ≠ flow_data.entry_data.d_index then
        call rc s (.send_rst_pkt flow_data.entry_data.d_index p) fun s =>
        let s := s.bump.on (·.unoffload c a)
        call rc s (.send_syn_pkt new_data.d_index p) fun s =>
        let s := s.bump
        match s.shared.move a new_data mem.recv_pkt p with
        | none => .refused
        | some h => .next { s with shared := h }
      else
        call rc s (.forward_inbound_pkt flow_data.entry_data.d_index p) fun s =>
        let s := s.bump
        if flow_data.state = .COMPLETE ∧ new_data.offload_flag = 1 then
          .next (s.on fun h => (h.set_state a .OFFLOAD).enqueue (.add ⟨c.my_key, flow_data.entry_data⟩))
        else if flow_data.state = .OFFLOAD ∧ new_data.offload_flag = 0 then
          .next (s.on fun h => (h.set_state a .COMPLETE).enqueue (.del c.my_key))
        else .next s

/-- `tcp_hdr->tcp_flags = RTE_TCP_RST_FLAG` on the received packet. -/
def with_rst (p : Mbuf) : Mbuf := { p with data := p.data.st8 47 TCP_RST_FLAG }

/-- Source found, state COMPLETE or OFFLOAD. -/
def client_established (fence : Option Nat) (rc : RuleController) (mem : Alloc) (p : Mbuf) (s : Proc)
    (a : Addr) : Outcome :=
  let flow_data := s.shared.flow a
  let c := srcClient p.data
  if rst p.data then
    call rc s (.forward_inbound_pkt flow_data.entry_data.d_index p) fun s =>
    .next (s.bump.on (·.close c a))
  else if fin p.data then
    call rc s (.reply_rst_pkt p) fun s =>
    call rc s.bump (.forward_inbound_pkt flow_data.entry_data.d_index (with_rst p)) fun s =>
    .next (s.bump.on (·.close c a))
  else if payload_flag p.data then client_payload fence rc mem p s a
  else
    call rc s (.forward_inbound_pkt flow_data.entry_data.d_index p) fun s => .next s.bump

/-- Source found, state BACKEND_SYN.  On FIN or RST the record is freed and its table entry stays. -/
def client_backend_syn (rc : RuleController) (p : Mbuf) (s : Proc) (a : Addr) : Outcome :=
  let flow_data := s.shared.flow a
  if fin p.data || rst p.data then
    call rc s (.reply_rst_pkt p) fun s => .next (s.bump.on (·.release a))
  else
    match flow_data.recv_pkt with
    | none => .next s
    | some q =>
      if sent_seq (s.shared.cached.cell q) = sent_seq p.data then
        call rc s (.send_syn_pkt flow_data.entry_data.d_index p) fun s => .next s.bump
      else .next s

/-! ### A packet to a known client -/

/-- Destination found, state BACKEND_SYN. -/
def backend_syn_ack (rc : RuleController) (p : Mbuf) (s : Proc) (a : Addr) : Outcome :=
  let flow_data := s.shared.flow a
  let c := dstClient p.data
  if tcp_flags p.data ≠ TCP_ACK_FLAG ||| TCP_SYN_FLAG then .next s
  else
    let s := s.on (·.establish c a)
    match flow_data.recv_pkt with
    | none => .crash
    | some q =>
      call rc s (.send_cached_pkt flow_data.entry_data.d_index (s.shared.cached.cell q)
        flow_data.pkt_size) fun s => .next s.bump

/-- Destination found, state COMPLETE or OFFLOAD. -/
def backend_established (rc : RuleController) (p : Mbuf) (s : Proc) (a : Addr) : Outcome :=
  let c := dstClient p.data
  if rst p.data then
    call rc s (.forward_outbound_pkt p) fun s => .next (s.bump.on (·.close c a))
  else if fin p.data then
    call rc s (.reply_rst_pkt p) fun s =>
    call rc s.bump (.forward_outbound_pkt (with_rst p)) fun s =>
    .next (s.bump.on (·.close c a))
  else
    call rc s (.forward_outbound_pkt p) fun s => .next s.bump

/-! ### A packet of no known flow -/

def new_flow (fence : Option Nat) (rc : RuleController) (mem : Alloc) (p : Mbuf) (s : Proc) : Outcome :=
  if !payload_flag p.data then .next s
  else if (parse_url p.data).2 = -1 then .next s
  else
    copy_url fence p fun url =>
    match rc.lookup_balancing_rule url with
    | none => .next s
    | some new_data =>
      call rc s (.send_syn_pkt new_data.d_index p) fun s =>
      match s.shared.create (srcClient p.data) new_data mem p with
      | none => .refused
      | some h => .next ({ s with shared := h } : Proc).bump

/-! ### The loop body -/

/-- The lookup by destination, for a packet whose source has no flow (or one in state INIT, which
the `switch` falls through). -/
def from_backend (fence : Option Nat) (rc : RuleController) (mem : Alloc) (p : Mbuf) (s : Proc) :
    Outcome :=
  match s.shared.find (dstClient p.data) with
  | none => new_flow fence rc mem p s
  | some a =>
    match (s.shared.flow a).state with
    | .BACKEND_SYN => backend_syn_ack rc p s a
    | .COMPLETE | .OFFLOAD => backend_established rc p s a
    | .INIT => new_flow fence rc mem p s

/-- The loop body, with a fence in the received buffer or without. -/
def process_pkt_within (fence : Option Nat) (rc : RuleController) (mem : Alloc) (p : Mbuf) (s : Proc) :
    Outcome :=
  if ether_type p.data ≠ htons ETHER_TYPE_IPV4 then .next s
  else if next_proto_id p.data ≠ IPPROTO_TCP then .next s
  else
    match s.shared.find (srcClient p.data) with
    | none => from_backend fence rc mem p s
    | some a =>
      match (s.shared.flow a).state with
      | .COMPLETE | .OFFLOAD => client_established fence rc mem p s a
      | .BACKEND_SYN => client_backend_syn rc p s a
      | .INIT => from_backend fence rc mem p s

def process_pkt (rc : RuleController) (mem : Alloc) (p : Mbuf) (s : Proc) : Outcome :=
  process_pkt_within none rc mem p s

/-- The loop of `process_pkts`, over the packets with the tables and the allocator's answers each
meets; a packet that fails makes it return, before anything is transmitted. -/
def process_pkts : List (RuleController × Alloc × Mbuf) → Proc → Outcome
  | [], s => .ret .OK s
  | (rc, mem, p) :: ps, s =>
    match process_pkt rc mem p s with
    | .next s => process_pkts ps s
    | o => o

end Miresga.Frontend
