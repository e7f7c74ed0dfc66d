import Miresga.Lib.Product
import Miresga.Frontend.Residue

/-!
# Frontend — what the front-end is for

The front-end keeps one connection for each client.  A connection is closed, waits for a backend
with the request that opened it, or is established with one; it knows nothing of addresses, records
and tables.  This file says what a connection does with a packet (`Conn.from_client`,
`Conn.to_client`) and which connection a packet goes to (`Conns.react`): the front-end as one machine
for each client.  Refinement.lean shows that `process_pkts` is that.

A reaction is what the packet asks for, if every backend that has to be addressed is known.
`Reaction.commit` is what becomes of it: a packet that would be forwarded to an unknown backend stops
behind the frames made so far and leaves the connection as it was; the other builders do not test the
server, and there is no reaction at all.
-/

namespace Miresga.Frontend

/-! ### Connections -/

/-- The connection of one client. -/
inductive Conn where
  | closed
  /-- A SYN went to `data`'s backend; `request` is what the backend gets once it answers. -/
  | waiting (data : MyData) (request : List Byte)
  /-- `offloaded` says whether the switch has been asked to forward by itself. -/
  | established (data : MyData) (offloaded : Bool)
  deriving DecidableEq

abbrev Conns := Client → Conn

/-- No client has a connection. -/
def Conns.closed : Conns := fun _ => .closed

/-- The bytes of a packet in memory, and nothing behind them. -/
def image (l : List Byte) : Mem := Mem.write (fun _ => 0) 0 l

/-- What a packet asks for: the connection's next state, frames, and requests to the switch. -/
structure Reaction where
  conn : Conn
  calls : List Call
  enqueued : List Enq

/-- The packet is ignored. -/
def Reaction.ignore (q : Conn) : Reaction := ⟨q, [], []⟩

namespace Conn

/-- The request that ends an offload, if there is one. -/
def unoffload (c : Client) (offloaded : Bool) : List Enq :=
  if offloaded then [.del c.my_key] else []

/-- A packet of the client `c` with a URL, on an established connection. -/
def request (rc : RuleController) (c : Client) (p : Mbuf) (data : MyData) (offloaded : Bool) :
    Reaction :=
  match rule rc p with
  | none => .ignore (.established data offloaded)
  | some new_data =>
    if new_data.d_index ≠ data.d_index then
      ⟨.waiting new_data p.frame, [.send_rst_pkt data.d_index p, .send_syn_pkt new_data.d_index p],
        unoffload c offloaded⟩
    else if offloaded = false ∧ new_data.offload_flag = 1 then
      ⟨.established data true, [.forward_inbound_pkt data.d_index p], [.add ⟨c.my_key, data⟩]⟩
    else if offloaded = true ∧ new_data.offload_flag = 0 then
      ⟨.established data false, [.forward_inbound_pkt data.d_index p], [.del c.my_key]⟩
    else ⟨.established data offloaded, [.forward_inbound_pkt data.d_index p], []⟩

/-- A packet of the client `c`. -/
def from_client (rc : RuleController) (c : Client) (p : Mbuf) : Conn → Reaction
  | .closed =>
    if !payload_flag p.data then .ignore .closed
    else
      match rule rc p with
      | none => .ignore .closed
      | some data => ⟨.waiting data p.frame, [.send_syn_pkt data.d_index p], []⟩
  | .waiting data request =>
    -- given up by the client, the connection waits on
    if fin p.data || rst p.data then ⟨.waiting data request, [.reply_rst_pkt p], []⟩
    else if sent_seq (image request) = sent_seq p.data then
      ⟨.waiting data request, [.send_syn_pkt data.d_index p], []⟩
    else .ignore (.waiting data request)
  | .established data offloaded =>
    if rst p.data then
      ⟨.closed, [.forward_inbound_pkt data.d_index p], unoffload c offloaded⟩
    else if fin p.data then
      ⟨.closed, [.reply_rst_pkt p, .forward_inbound_pkt data.d_index (with_rst p)],
        unoffload c offloaded⟩
    else if payload_flag p.data then Conn.request rc c p data offloaded
    else ⟨.established data offloaded, [.forward_inbound_pkt data.d_index p], []⟩

/-- A packet to the client `c`, of whoever sent it. -/
def to_client (c : Client) (p : Mbuf) : Conn → Reaction
  | .closed => .ignore .closed
  | .waiting data request =>
    if tcp_flags p.data ≠ TCP_ACK_FLAG ||| TCP_SYN_FLAG then .ignore (.waiting data request)
    else
      ⟨.established data (data.offload_flag == 1),
        [.send_cached_pkt data.d_index (image request) request.length],
        if data.offload_flag = 1 then [.add ⟨c.my_key, data⟩] else []⟩
  | .established data offloaded =>
    if rst p.data then ⟨.closed, [.forward_outbound_pkt p], unoffload c offloaded⟩
    else if fin p.data then
      ⟨.closed, [.reply_rst_pkt p, .forward_outbound_pkt (with_rst p)], unoffload c offloaded⟩
    else ⟨.established data offloaded, [.forward_outbound_pkt p], []⟩

end Conn

/-! ### Servers that are missing -/

/-- What becomes of a reaction of the connection `q`, with the servers there are. -/
def Reaction.commit (rc : RuleController) (q : Conn) (r : Reaction) : Option Reaction :=
  match r.calls.find? (!·.served rc) with
  | none => some r
  | some c => if c.tested then some ⟨q, r.calls.takeWhile (·.served rc), []⟩ else none

/-! ### All connections -/

/-- A packet with the tables of the moment. -/
abbrev Input := RuleController × Mbuf

namespace Conns

/-- The client whose connection takes the packet: its sender, unless only the receiver has one. -/
def owner (m : Conns) (p : Mbuf) : Client :=
  if m (srcClient p.data) = .closed ∧ m (dstClient p.data) ≠ .closed then dstClient p.data
  else srcClient p.data

def react (rc : RuleController) (p : Mbuf) (m : Conns) : Reaction :=
  if ¬ isTcp p.data then .ignore (m (m.owner p))
  else if m.owner p = srcClient p.data then
    (m (srcClient p.data)).from_client rc (srcClient p.data) p
  else (m (dstClient p.data)).to_client (dstClient p.data) p

/-- A packet that gets through: the connections behind it, the frames and the requests. -/
def step (l : Input) (m : Conns) : Option (Conns × List Call × List Enq) :=
  ((m.react l.1 l.2).commit l.1 (m (m.owner l.2))).map fun r =>
    (upd m (m.owner l.2) r.conn, r.calls, r.enqueued)

end Conns

/-! ### The connections in the flow table -/

namespace Shared

/-- What a flow record stands for. -/
def conn_of (s : Shared) (f : FlowData) : Conn :=
  match f.state with
  | .INIT => .closed
  | .BACKEND_SYN => .waiting f.entry_data
      ((f.recv_pkt.map fun q => (s.cached.cell q).bytes 0 f.pkt_size).getD [])
  | .OFFLOAD => .established f.entry_data true
  | .COMPLETE => .established f.entry_data false

/-- The connection of a client. -/
def conn (s : Shared) : Conns := fun c =>
  match s.find c with
  | none => .closed
  | some a => s.conn_of (s.flow a)

end Shared

/-- A call with what a builder cannot read cut off: the cached packet behind its size. -/
def Call.cut : Call → Call
  | .send_cached_pkt d m n => .send_cached_pkt d (image (m.bytes 0 n)) n
  | c => c

/-! ### Images -/

theorem image_get {l : List Byte} {i : Nat} (h : i < l.length) : image l i = l[i] := by
  have hi := Mem.write_inside (m := fun _ => 0) (o := 0) (l := l) h
  rwa [Nat.zero_add] at hi

theorem image_bytes (m : Mem) {n i : Nat} (h : i < n) : image (m.bytes 0 n) i = m i := by
  rw [image_get (by simpa using h), Mem.getElem_bytes, Nat.zero_add]

/-- A field inside the packet. -/
theorem image_ld32 (m : Mem) {n o : Nat} (h : o + 4 ≤ n) : (image (m.bytes 0 n)).ld32 o = m.ld32 o :=
  Mem.ld32_congr fun _ _ _ => image_bytes m (by omega)

theorem bytes_copy (m m' : Mem) (n : Nat) : (m.copy m' n).bytes 0 n = m'.bytes 0 n :=
  List.map_congr_left fun i hi => by
    rw [Nat.zero_add, Mem.copy_apply, if_pos (List.mem_range.mp hi)]

/-- **What is cut off makes no difference**: every builder builds the same frame. -/
theorem build_cut (rc : RuleController) (b : Mbuf) (c : Call) : c.cut.build rc b = c.build rc b := by
  cases c with
  | send_cached_pkt d m n =>
      have hm : b.data.copy (image (m.bytes 0 n)) n = b.data.copy m n := by
        funext i
        rw [Mem.copy_apply, Mem.copy_apply]
        split
        next h => exact image_bytes m h
        · rfl
      simp only [Call.cut, Call.build, send_cached_pkt, hm]
  | _ => rfl

theorem cut_d_index (c : Call) : c.cut.d_index = c.d_index := by cases c <;> rfl

theorem cut_tested (c : Call) : c.cut.tested = c.tested := by cases c <;> rfl

theorem cut_served (rc : RuleController) (c : Call) : c.cut.served rc = c.served rc := by
  simp only [Call.served, cut_d_index]

end Miresga.Frontend
