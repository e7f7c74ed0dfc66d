import Miresga.Lib.Mem

/-!
# Wire — the headers of a frame in memory

The C and C++ programs lay `rte_ether_hdr`, `rte_ipv4_hdr` and `rte_tcp_hdr` (in the agent
`ethhdr`, `iphdr`, `tcphdr`) one behind the other over a received frame: the Ethernet header at
byte 0, the IPv4 header at byte 14 and the TCP header at byte 34, whatever the IPv4 header length
field says.  A field accessor returns the field as a little-endian host loads it; `htonl`,
`ntohl`, `htons` and `ntohs` change between that and the number on the wire.
-/

namespace Miresga

/-! ### Byte order -/

abbrev htons (v : BitVec 16) : BitVec 16 := bswap16 v
abbrev ntohs (v : BitVec 16) : BitVec 16 := bswap16 v
abbrev htonl (v : BitVec 32) : BitVec 32 := bswap32 v
abbrev ntohl (v : BitVec 32) : BitVec 32 := bswap32 v

/-! ### Fields, as they are loaded -/

def ether_type (m : Mem) : BitVec 16 := m.ld16 12
def version_ihl (m : Mem) : Byte := m 14
def total_length (m : Mem) : BitVec 16 := m.ld16 16
def next_proto_id (m : Mem) : Byte := m 23
def src_addr (m : Mem) : BitVec 32 := m.ld32 26
def dst_addr (m : Mem) : BitVec 32 := m.ld32 30
def src_port (m : Mem) : BitVec 16 := m.ld16 34
def dst_port (m : Mem) : BitVec 16 := m.ld16 36
def sent_seq (m : Mem) : BitVec 32 := m.ld32 38
def recv_ack (m : Mem) : BitVec 32 := m.ld32 42
def data_off (m : Mem) : Byte := m 46
def tcp_flags (m : Mem) : Byte := m 47
def cksum (m : Mem) : BitVec 16 := m.ld16 50

/-- The TCP data offset, in 32-bit words. -/
def doff (m : Mem) : Nat := (data_off m >>> 4).toNat

def fin (m : Mem) : Bool := (tcp_flags m).getLsbD 0
def syn (m : Mem) : Bool := (tcp_flags m).getLsbD 1
def rst (m : Mem) : Bool := (tcp_flags m).getLsbD 2
def ack (m : Mem) : Bool := (tcp_flags m).getLsbD 4

/-! ### The numbers a TCP peer reads -/

/-- The sequence number. -/
def seqNo (m : Mem) : BitVec 32 := ntohl (sent_seq m)

/-- The acknowledgement number. -/
def ackNo (m : Mem) : BitVec 32 := ntohl (recv_ack m)

/-! ### Where the TCP header really stands

The programs do not read these fields; what they do to a frame is judged by them. -/

/-- The IPv4 header length, in 32-bit words. -/
def ihl (m : Mem) : Nat := (version_ihl m &&& 0x0f).toNat

/-- The first byte behind the IPv4 header. -/
def tcp_at (m : Mem) : Nat := 14 + 4 * ihl m

/-- The first byte behind the TCP header, by its own data offset. -/
def tcp_end (m : Mem) : Nat := tcp_at m + 4 * (m (tcp_at m + 12) >>> 4).toNat

/-- The fragment offset, in units of 8 bytes. -/
def frag_offset (m : Mem) : Nat := (ntohs (m.ld16 20) &&& 0x1fff).toNat

/-! ### Constants of the system headers -/

/-- `ETH_P_IP`, `RTE_ETHER_TYPE_IPV4`. -/
def ETHER_TYPE_IPV4 : BitVec 16 := 0x0800

def IPPROTO_TCP : Byte := 6

def TCP_SYN_FLAG : Byte := 0x02
def TCP_RST_FLAG : Byte := 0x04
def TCP_ACK_FLAG : Byte := 0x10

/-- Whether the frame is taken for IPv4 and TCP by its type and protocol fields. -/
def isTcp (m : Mem) : Prop := ether_type m = htons ETHER_TYPE_IPV4 ∧ next_proto_id m = IPPROTO_TCP

instance (m : Mem) : Decidable (isTcp m) := inferInstanceAs (Decidable (_ ∧ _))

/-- The headers of an IPv4 TCP frame without options, from its addresses, ports, numbers, flags
and IPv4 total length; every other field is 0. -/
def headers (src : BitVec 32 × BitVec 16) (dst : BitVec 32 × BitVec 16) (seq ack : BitVec 32)
    (flags : Byte) (len : BitVec 16) : List Byte :=
  List.replicate 12 0 ++ be16 ETHER_TYPE_IPV4 ++ [0x45, 0] ++ be16 len
    ++ [0, 0, 0, 0, 64, IPPROTO_TCP, 0, 0] ++ be32 src.1 ++ be32 dst.1 ++ be16 src.2 ++ be16 dst.2 ++ be32 seq ++ be32 ack
    ++ [0x50, flags, 0, 0, 0, 0, 0, 0]

/-! ### Fields of frames that share their bytes -/

/-- A header that agrees with another on the 54 header bytes, MAC addresses, IPv4 checksum and
TCP checksum apart. -/
def SameHeader (m m' : Mem) : Prop :=
  ∀ i, 12 ≤ i → i < 54 → i ≠ 24 → i ≠ 25 → i ≠ 50 → i ≠ 51 → m i = m' i

namespace SameHeader

variable {m m' : Mem} (h : SameHeader m m')

include h

theorem ether_type : ether_type m = ether_type m' :=
  Mem.ld16_congr fun i _ _ => h i (by omega) (by omega) (by omega) (by omega) (by omega) (by omega)

theorem next_proto_id : next_proto_id m = next_proto_id m' :=
  h 23 (by omega) (by omega) (by omega) (by omega) (by omega) (by omega)

theorem total_length : total_length m = total_length m' :=
  Mem.ld16_congr fun i _ _ => h i (by omega) (by omega) (by omega) (by omega) (by omega) (by omega)

theorem src_addr : src_addr m = src_addr m' :=
  Mem.ld32_congr fun i _ _ => h i (by omega) (by omega) (by omega) (by omega) (by omega) (by omega)

theorem dst_addr : dst_addr m = dst_addr m' :=
  Mem.ld32_congr fun i _ _ => h i (by omega) (by omega) (by omega) (by omega) (by omega) (by omega)

theorem src_port : src_port m = src_port m' :=
  Mem.ld16_congr fun i _ _ => h i (by omega) (by omega) (by omega) (by omega) (by omega) (by omega)

theorem dst_port : dst_port m = dst_port m' :=
  Mem.ld16_congr fun i _ _ => h i (by omega) (by omega) (by omega) (by omega) (by omega) (by omega)

theorem seqNo : seqNo m = seqNo m' :=
  congrArg ntohl (Mem.ld32_congr fun i _ _ =>
    h i (by omega) (by omega) (by omega) (by omega) (by omega) (by omega))

theorem ackNo : ackNo m = ackNo m' :=
  congrArg ntohl (Mem.ld32_congr fun i _ _ =>
    h i (by omega) (by omega) (by omega) (by omega) (by omega) (by omega))

theorem tcp_flags : tcp_flags m = tcp_flags m' :=
  h 47 (by omega) (by omega) (by omega) (by omega) (by omega) (by omega)

theorem isTcp : isTcp m ↔ isTcp m' := by
  unfold Miresga.isTcp
  rw [h.ether_type, h.next_proto_id]

end SameHeader

end Miresga
