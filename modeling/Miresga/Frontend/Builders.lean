import Miresga.Frontend.Data

/-!
# Frontend — the frame builders

The six functions of `pkt_processor_t` that fill a send buffer.  A buffer (`Mbuf`) is the memory
from `rte_pktmbuf_mtod` on, with the lengths its descriptor carries; what a builder does not
overwrite is what the buffer held before.  The checksum fields are zeroed, for the network card to
fill in; the offload flags that ask for this and `pkt_len`, always equal to `data_len`, are not
modelled.

A builder returns its status and the buffer.  `none` is a null pointer dereference: `send_rst_pkt`,
`send_cached_pkt` and `send_syn_pkt` use the server they look up without testing it.
-/

namespace Miresga.Frontend

/-- `rte_mbuf`. -/
structure Mbuf where
  data : Mem
  data_len : BitVec 16
  l2_len : Nat
  l3_len : Nat
  l4_len : Nat

/-- A received frame of the given bytes. -/
def Mbuf.ofBytes (bs : List Byte) : Mbuf :=
  { data := Mem.write (fun _ => 0) 0 bs, data_len := bs.length, l2_len := 0, l3_len := 0, l4_len := 0 }

/-- `option_char`: MSS 1460, NOP, NOP, SACK permitted, NOP, window scale 9. -/
def option_char : List Byte :=
  [0x02, 0x04, 0x05, 0xB4, 0x01, 0x01, 0x04, 0x02, 0x01, 0x03, 0x03, 0x09]

/-- The front-end's own address, the source of every frame it builds but the SYN. -/
def local_mac : List Byte := [0x0c, 0x42, 0xa1, 0xd1, 0xd0, 0xc8]

/-- `5 + (version_ihl & 0xf0)`. -/
def ihl5 (b : Byte) : Byte := 5 + (b &&& 0xf0)

/-- `(data_off >> 4) * 4`. -/
def tcp_hdr_len (m : Mem) : Nat := doff m * 4

def forward_inbound_pkt (rc : RuleController) (d_index : Byte) (recv_buf send_buf : Mbuf) :
    Option (Status × Mbuf) :=
  let m := send_buf.data.copy recv_buf.data recv_buf.data_len.toNat
  match rc.lookup_backend_server_info d_index with
  | none => some (.INTERNAL_ERROR, { send_buf with data := m })
  | some server_info =>
    let m := m.write 6 local_mac
    let m := m.write 0 server_info.mac.toList
    let m := m.st32 30 (htonl server_info.ip)
    let m := m.st16 24 0
    let m := m.st16 36 (htons server_info.port)
    let m := m.st16 50 0
    some (.OK,
      { data := m, data_len := ntohs (total_length m) + 14,
        l2_len := 14, l3_len := 20, l4_len := tcp_hdr_len m })

def forward_outbound_pkt (rc : RuleController) (recv_buf send_buf : Mbuf) :
    Option (Status × Mbuf) :=
  let m := send_buf.data.copy recv_buf.data recv_buf.data_len.toNat
  let server_info := rc.get_virtual_server_info
  let m := m.write 6 local_mac
  let m := m.write 0 server_info.mac.toList
  let m := m.st32 26 (htonl server_info.ip)
  let m := m.st16 24 0
  let m := m.st16 34 (htons server_info.port)
  let m := m.st16 50 0
  some (.OK,
    { data := m, data_len := ntohs (total_length m) + 14,
      l2_len := 14, l3_len := 20, l4_len := tcp_hdr_len m })

def reply_rst_pkt (recv_buf send_buf : Mbuf) : Option (Status × Mbuf) :=
  let m := send_buf.data.copy recv_buf.data 54
  let m := m.write 0 (m.bytes 6 6)
  let m := m.write 6 local_mac
  let tmp_ip := src_addr m
  let m := m.st32 26 (dst_addr m)
  let m := m.st32 30 tmp_ip
  let m := m.st16 24 0
  let m := m.st8 14 (ihl5 (version_ihl m))
  let m := m.st16 16 (htons 40)
  let tmp_port := src_port m
  let m := m.st16 34 (dst_port m)
  let m := m.st16 36 tmp_port
  let seq_num := ntohl (sent_seq m)
  let ack_num := ntohl (recv_ack m)
  let m := m.st32 42 (htonl (seq_num + recv_buf.data_len.setWidth 32 - BitVec.ofNat 32 recv_buf.l2_len
    - BitVec.ofNat 32 recv_buf.l3_len - BitVec.ofNat 32 recv_buf.l4_len))
  let m := m.st32 38 (htonl ack_num)
  let m := m.st8 46 (5 <<< 4)
  let m := m.st8 47 TCP_RST_FLAG
  let m := m.st16 50 0
  some (.OK,
    { data := m, data_len := ntohs (total_length m) + 14, l2_len := 14, l3_len := 20, l4_len := 20 })

/-- Unlike its siblings, this one stores the server's address and port as the host holds them. -/
def send_rst_pkt (rc : RuleController) (d_index : Byte) (recv_buf send_buf : Mbuf) :
    Option (Status × Mbuf) :=
  let m := send_buf.data.copy recv_buf.data 54
  match rc.lookup_backend_server_info d_index with
  | none => none
  | some server_info =>
    let m := m.write 0 server_info.mac.toList
    let m := m.write 6 local_mac
    let m := m.st32 30 server_info.ip
    let m := m.st8 14 (ihl5 (version_ihl m))
    let m := m.st16 16 (htons 40)
    let m := m.st16 24 0
    let m := m.st16 36 server_info.port
    let m := m.st8 47 TCP_RST_FLAG
    let m := m.st8 46 (5 <<< 4)
    let m := m.st16 50 0
    some (.OK, { data := m, data_len := 54, l2_len := 14, l3_len := 20, l4_len := 20 })

def send_cached_pkt (rc : RuleController) (d_index : Byte) (cached_pkt : Mem) (size : Nat)
    (send_buf : Mbuf) : Option (Status × Mbuf) :=
  let m := send_buf.data.copy cached_pkt size
  match rc.lookup_backend_server_info d_index with
  | none => none
  | some server_info =>
    let m := m.write 0 server_info.mac.toList
    let m := m.write 6 local_mac
    let m := m.st32 30 (htonl server_info.ip)
    let m := m.st16 24 0
    let m := m.st16 36 (htons server_info.port)
    let m := m.st16 50 0
    some (.OK,
      { data := m, data_len := ntohs (total_length m) + 14,
        l2_len := 14, l3_len := 20, l4_len := tcp_hdr_len m })

def send_syn_pkt (rc : RuleController) (d_index : Byte) (recv_buf send_buf : Mbuf) :
    Option (Status × Mbuf) :=
  let m := send_buf.data.copy recv_buf.data 66
  match rc.lookup_backend_server_info d_index with
  | none => none
  | some server_info =>
    let m := m.write 0 server_info.mac.toList
    let m := m.st32 30 (htonl server_info.ip)
    let m := m.st8 14 (ihl5 (version_ihl m))
    let m := m.st16 16 (htons 52)
    let m := m.st16 24 0
    let m := m.st16 36 (htons server_info.port)
    let m := m.st8 47 TCP_SYN_FLAG
    let m := m.st8 46 (8 <<< 4)
    let m := m.st32 38 (htonl (ntohl (sent_seq m) - 1))
    let m := m.st32 42 (htonl (ntohl (recv_ack m) - 1))
    let m := m.st16 50 0
    let m := m.write 54 option_char
    some (.OK,
      { data := m, data_len := ntohs (total_length m) + 14, l2_len := 14, l3_len := 20, l4_len := 32 })

/-- A call of a builder, without its send buffer. -/
inductive Call where
  | forward_inbound_pkt (d_index : Byte) (recv_buf : Mbuf)
  | forward_outbound_pkt (recv_buf : Mbuf)
  | reply_rst_pkt (recv_buf : Mbuf)
  | send_rst_pkt (d_index : Byte) (recv_buf : Mbuf)
  | send_cached_pkt (d_index : Byte) (cached_pkt : Mem) (size : Nat)
  | send_syn_pkt (d_index : Byte) (recv_buf : Mbuf)

/-- What the call makes of a send buffer. -/
def Call.build (rc : RuleController) (send_buf : Mbuf) : Call → Option (Status × Mbuf)
  | .forward_inbound_pkt d r => Frontend.forward_inbound_pkt rc d r send_buf
  | .forward_outbound_pkt r => Frontend.forward_outbound_pkt rc r send_buf
  | .reply_rst_pkt r => Frontend.reply_rst_pkt r send_buf
  | .send_rst_pkt d r => Frontend.send_rst_pkt rc d r send_buf
  | .send_cached_pkt d c n => Frontend.send_cached_pkt rc d c n send_buf
  | .send_syn_pkt d r => Frontend.send_syn_pkt rc d r send_buf

end Miresga.Frontend
