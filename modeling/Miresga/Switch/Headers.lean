import Miresga.Lib.Format

/-!
# Switch — headers of the data plane

The headers of `headers.p4` that the pipeline uses, each with its format on the wire.  A header is
valid or not; a `header_t` holds those that are valid.  Numbers are in the order of the wire, as a P4
program sees them.
-/

namespace Miresga.Switch

structure Ethernet where
  dst_addr : BitVec 48
  src_addr : BitVec 48
  ether_type : BitVec 16
  deriving DecidableEq

structure VlanTag where
  pcp : BitVec 3
  cfi : BitVec 1
  vid : BitVec 12
  ether_type : BitVec 16
  deriving DecidableEq

structure Arp where
  hw_type : BitVec 16
  proto_type : BitVec 16
  hw_addr_len : BitVec 8
  proto_addr_len : BitVec 8
  opcode : BitVec 16
  sender_hw_addr : BitVec 48
  sender_proto_addr : BitVec 32
  target_hw_addr : BitVec 48
  target_proto_addr : BitVec 32
  deriving DecidableEq

structure Ipv4 where
  version : BitVec 4
  ihl : BitVec 4
  diffserv : BitVec 8
  total_len : BitVec 16
  identification : BitVec 16
  flags : BitVec 3
  frag_offset : BitVec 13
  ttl : BitVec 8
  protocol : BitVec 8
  hdr_checksum : BitVec 16
  src_addr : BitVec 32
  dst_addr : BitVec 32
  deriving DecidableEq

structure Tcp where
  src_port : BitVec 16
  dst_port : BitVec 16
  seq_no : BitVec 32
  ack_no : BitVec 32
  data_offset : BitVec 4
  res : BitVec 6
  urg : BitVec 1
  ack : BitVec 1
  psh : BitVec 1
  rst : BitVec 1
  syn : BitVec 1
  fin : BitVec 1
  window : BitVec 16
  checksum : BitVec 16
  urgent_ptr : BitVec 16
  deriving DecidableEq

structure Udp where
  src_port : BitVec 16
  dst_port : BitVec 16
  hdr_length : BitVec 16
  checksum : BitVec 16
  deriving DecidableEq

/-- `bridge_h`, which the ingress pipeline puts in front of the frame for the egress pipeline. -/
structure Bridge where
  syn_respond : BitVec 1
  lb_flag : BitVec 1
  d_flag : BitVec 1
  v_flag : BitVec 1
  forward_to_dest : BitVec 1
  hit_flag : BitVec 1
  cpu_flag : BitVec 1
  payload_flag : BitVec 1
  index : BitVec 8
  deriving DecidableEq

/-! ### Formats -/

section formats

open BitVec

/-- The fields in front of a one-bit field. -/
theorem above_bit {w : Nat} (x : BitVec w) (b : BitVec 1) (s n : Nat) :
    (x ++ b).extractLsb' (s + 1) n = x.extractLsb' s n :=
  extractLsb'_append_eq_of_le (Nat.le_add_left 1 s)

/-- A one-bit field behind others. -/
theorem last_bit {w : Nat} (x : BitVec w) (b : BitVec 1) : (x ++ b).extractLsb' 0 1 = b :=
  extractLsb'_append_eq_right

/-- A slice of a word and the slice below it. -/
theorem join {w : Nat} (x : BitVec w) (s n k : Nat) :
    x.extractLsb' (s + n) k ++ x.extractLsb' s n = x.extractLsb' s (k + n) :=
  extractLsb'_append_extractLsb'_eq_extractLsb' rfl

def ethernet_h : Format Ethernet where
  size := 14
  decode m := ⟨m.nb48 0, m.nb48 6, m.nb16 12⟩
  emit h := be48 h.dst_addr ++ be48 h.src_addr ++ be16 h.ether_type
  length_emit h := rfl
  decode_emit h r := by
    obtain ⟨a, b, c⟩ := h
    simp only [Ethernet.mk.injEq]
    exact ⟨append_extract48 a, append_extract48 b, append_extract16 c⟩
  emit_decode m := by
    simp only [be48_nb48, be16_nb16]
    rfl

def vlan_tag_h : Format VlanTag where
  size := 4
  decode m :=
    let w := m.nb16 0
    ⟨w.extractLsb' 13 3, w.extractLsb' 12 1, w.extractLsb' 0 12, m.nb16 2⟩
  emit h := be16 (h.pcp ++ h.cfi ++ h.vid) ++ be16 h.ether_type
  length_emit h := rfl
  decode_emit h r := by
    obtain ⟨a, b, c, d⟩ := h
    have hw : (toMem (be16 (a ++ b ++ c) ++ be16 d ++ r)).nb16 0 = a ++ b ++ c := append_extract16 _
    simp only [hw, VlanTag.mk.injEq]
    refine ⟨?_, ?_, extractLsb'_append_eq_right, append_extract16 d⟩
    · exact (extractLsb'_append_eq_of_le (by omega)).trans extractLsb'_append_eq_left
    · exact (extractLsb'_append_eq_of_le (by omega)).trans extractLsb'_append_eq_right
  emit_decode m := by
    have hw : ∀ w : BitVec 16, w.extractLsb' 13 3 ++ w.extractLsb' 12 1 ++ w.extractLsb' 0 12 = w :=
      fun w => by
        rw [join w 12 1 3, join w 0 12 4]
        exact extractLsb'_eq_self
    simp only [hw, be16_nb16]
    rfl

def arp_h : Format Arp where
  size := 28
  decode m :=
    ⟨m.nb16 0, m.nb16 2, m 4, m 5, m.nb16 6, m.nb48 8, m.nb32 14, m.nb48 18, m.nb32 24⟩
  emit h :=
    be16 h.hw_type ++ be16 h.proto_type ++ [h.hw_addr_len, h.proto_addr_len] ++ be16 h.opcode ++
      be48 h.sender_hw_addr ++ be32 h.sender_proto_addr ++ be48 h.target_hw_addr ++
      be32 h.target_proto_addr
  length_emit h := rfl
  decode_emit h r := by
    obtain ⟨a, b, c, d, e, f, g, i, j⟩ := h
    simp only [Arp.mk.injEq, Mem.nb16, Mem.nb32, Mem.nb48, be16, be32, be48, List.cons_append,
      List.nil_append, toMem_cons_zero, toMem_cons_succ, Nat.reduceAdd, true_and]
    exact ⟨append_extract16 a, append_extract16 b, append_extract16 e, append_extract48 f,
      append_extract32 g, append_extract48 i, append_extract32 j⟩
  emit_decode m := by
    simp only [be48_nb48, be32_nb32, be16_nb16]
    rfl

def ipv4_h : Format Ipv4 where
  size := 20
  decode m :=
    ⟨(m 0).extractLsb' 4 4, (m 0).extractLsb' 0 4, m 1, m.nb16 2, m.nb16 4,
      (m.nb16 6).extractLsb' 13 3, (m.nb16 6).extractLsb' 0 13, m 8, m 9, m.nb16 10, m.nb32 12,
      m.nb32 16⟩
  emit h :=
    [h.version ++ h.ihl, h.diffserv] ++ be16 h.total_len ++ be16 h.identification ++
      be16 (h.flags ++ h.frag_offset) ++ [h.ttl, h.protocol] ++ be16 h.hdr_checksum ++
      be32 h.src_addr ++ be32 h.dst_addr
  length_emit h := rfl
  decode_emit h r := by
    obtain ⟨a, b, c, d, e, f, g, i, j, k, l, n⟩ := h
    simp only [Ipv4.mk.injEq, Mem.nb16, Mem.nb32, be16, be32, List.cons_append, List.nil_append,
      toMem_cons_zero, toMem_cons_succ, Nat.reduceAdd, append_extract16 (f ++ g), true_and]
    exact ⟨extractLsb'_append_eq_left, extractLsb'_append_eq_right, append_extract16 d,
      append_extract16 e, extractLsb'_append_eq_left, extractLsb'_append_eq_right,
      append_extract16 k, append_extract32 l, append_extract32 n⟩
  emit_decode m := by
    have hb : (m 0).extractLsb' 4 4 ++ (m 0).extractLsb' 0 4 = m 0 := extractLsb'_append_extractLsb'
    have hw : (m.nb16 6).extractLsb' 13 3 ++ (m.nb16 6).extractLsb' 0 13 = m.nb16 6 :=
      extractLsb'_append_extractLsb'
    simp only [hb, hw, be32_nb32, be16_nb16]
    rfl

def udp_h : Format Udp where
  size := 8
  decode m := ⟨m.nb16 0, m.nb16 2, m.nb16 4, m.nb16 6⟩
  emit h := be16 h.src_port ++ be16 h.dst_port ++ be16 h.hdr_length ++ be16 h.checksum
  length_emit h := rfl
  decode_emit h r := by
    obtain ⟨a, b, c, d⟩ := h
    simp only [Udp.mk.injEq]
    exact ⟨append_extract16 a, append_extract16 b, append_extract16 c, append_extract16 d⟩
  emit_decode m := by
    simp only [be16_nb16]
    rfl

/-- The 16 bits of a TCP header from the data offset to FIN. -/
def Tcp.control (h : Tcp) : BitVec 16 :=
  h.data_offset ++ h.res ++ h.urg ++ h.ack ++ h.psh ++ h.rst ++ h.syn ++ h.fin

def tcp_h : Format Tcp where
  size := 20
  decode m :=
    let w := m.nb16 12
    ⟨m.nb16 0, m.nb16 2, m.nb32 4, m.nb32 8, w.extractLsb' 12 4, w.extractLsb' 6 6,
      w.extractLsb' 5 1, w.extractLsb' 4 1, w.extractLsb' 3 1, w.extractLsb' 2 1, w.extractLsb' 1 1,
      w.extractLsb' 0 1, m.nb16 14, m.nb16 16, m.nb16 18⟩
  emit h :=
    be16 h.src_port ++ be16 h.dst_port ++ be32 h.seq_no ++ be32 h.ack_no ++ be16 h.control ++
      be16 h.window ++ be16 h.checksum ++ be16 h.urgent_ptr
  length_emit h := rfl
  decode_emit h r := by
    obtain ⟨a, b, c, d, e, f, g, i, j, k, l, n, o, p, q⟩ := h
    -- the fields of the control bits, from the last one on
    have bit₀ : (e ++ f ++ g ++ i ++ j ++ k ++ l ++ n : BitVec 16).extractLsb' 0 1 = n := last_bit _ _
    have up₁ : ∀ s w, (e ++ f ++ g ++ i ++ j ++ k ++ l ++ n : BitVec 16).extractLsb' (s + 1) w =
        (e ++ f ++ g ++ i ++ j ++ k ++ l).extractLsb' s w := above_bit _ _
    have up₂ := fun s w => (up₁ (s + 1) w).trans (above_bit _ _ s w)
    have up₃ := fun s w => (up₂ (s + 1) w).trans (above_bit _ _ s w)
    have up₄ := fun s w => (up₃ (s + 1) w).trans (above_bit _ _ s w)
    have up₅ := fun s w => (up₄ (s + 1) w).trans (above_bit _ _ s w)
    have up₆ := fun s w => (up₅ (s + 1) w).trans (above_bit _ _ s w)
    simp only [Tcp.mk.injEq, Tcp.control, Mem.nb16, Mem.nb32, be16, be32, List.cons_append,
      List.nil_append, toMem_cons_zero, toMem_cons_succ, Nat.reduceAdd,
      append_extract16 (e ++ f ++ g ++ i ++ j ++ k ++ l ++ n : BitVec 16)]
    exact ⟨append_extract16 a, append_extract16 b, append_extract32 c, append_extract32 d,
      (up₆ 6 4).trans extractLsb'_append_eq_left, (up₆ 0 6).trans extractLsb'_append_eq_right,
      (up₅ 0 1).trans (last_bit _ _), (up₄ 0 1).trans (last_bit _ _),
      (up₃ 0 1).trans (last_bit _ _), (up₂ 0 1).trans (last_bit _ _), (up₁ 0 1).trans (last_bit _ _),
      bit₀, append_extract16 o, append_extract16 p, append_extract16 q⟩
  emit_decode m := by
    have hw : ∀ w : BitVec 16,
        w.extractLsb' 12 4 ++ w.extractLsb' 6 6 ++ w.extractLsb' 5 1 ++ w.extractLsb' 4 1 ++
          w.extractLsb' 3 1 ++ w.extractLsb' 2 1 ++ w.extractLsb' 1 1 ++ w.extractLsb' 0 1 = w :=
      fun w => by
        rw [join w 6 6 4, join w 5 1, join w 4 1, join w 3 1, join w 2 1, join w 1 1, join w 0 1]
        exact extractLsb'_eq_self
    simp only [Tcp.control, hw, be32_nb32, be16_nb16]
    rfl

/-- The first byte of a bridge header. -/
def Bridge.flags (h : Bridge) : BitVec 8 :=
  h.syn_respond ++ h.lb_flag ++ h.d_flag ++ h.v_flag ++ h.forward_to_dest ++ h.hit_flag ++
    h.cpu_flag ++ h.payload_flag

def bridge_h : Format Bridge where
  size := 2
  decode m :=
    let b := m 0
    ⟨b.extractLsb' 7 1, b.extractLsb' 6 1, b.extractLsb' 5 1, b.extractLsb' 4 1, b.extractLsb' 3 1,
      b.extractLsb' 2 1, b.extractLsb' 1 1, b.extractLsb' 0 1, m 1⟩
  emit h := [h.flags, h.index]
  length_emit h := rfl
  decode_emit h r := by
    obtain ⟨a, b, c, d, e, f, g, i, j⟩ := h
    simp only [toMem, Bridge.flags, Bridge.mk.injEq, List.cons_append, List.getD_cons_zero,
      List.getD_cons_succ, and_true]
    have up₁ : ∀ s w, (a ++ b ++ c ++ d ++ e ++ f ++ g ++ i : BitVec 8).extractLsb' (s + 1) w =
        (a ++ b ++ c ++ d ++ e ++ f ++ g).extractLsb' s w := above_bit _ _
    have up₂ := fun s w => (up₁ (s + 1) w).trans (above_bit _ _ s w)
    have up₃ := fun s w => (up₂ (s + 1) w).trans (above_bit _ _ s w)
    have up₄ := fun s w => (up₃ (s + 1) w).trans (above_bit _ _ s w)
    have up₅ := fun s w => (up₄ (s + 1) w).trans (above_bit _ _ s w)
    have up₆ := fun s w => (up₅ (s + 1) w).trans (above_bit _ _ s w)
    exact ⟨(up₆ 1 1).trans extractLsb'_append_eq_left, (up₆ 0 1).trans (last_bit _ _),
      (up₅ 0 1).trans (last_bit _ _), (up₄ 0 1).trans (last_bit _ _),
      (up₃ 0 1).trans (last_bit _ _), (up₂ 0 1).trans (last_bit _ _), (up₁ 0 1).trans (last_bit _ _),
      last_bit _ _⟩
  emit_decode m := by
    have hb : ∀ b : BitVec 8,
        b.extractLsb' 7 1 ++ b.extractLsb' 6 1 ++ b.extractLsb' 5 1 ++ b.extractLsb' 4 1 ++
          b.extractLsb' 3 1 ++ b.extractLsb' 2 1 ++ b.extractLsb' 1 1 ++ b.extractLsb' 0 1 = b :=
      fun b => by
        rw [join b 6 1, join b 5 1, join b 4 1, join b 3 1, join b 2 1, join b 1 1, join b 0 1]
        exact extractLsb'_eq_self
    simp only [Bridge.flags, hb]
    rfl

end formats

end Miresga.Switch
