import Miresga.Frontend.Builders

/-!
# Frontend — what the builders build

* `SentTo`: the frames that carry a packet to a backend (`forward_inbound_pkt`, `send_cached_pkt`)
  are the packet, byte for byte, with MAC addresses, destination and checksums replaced;
* `SentOut`: the frames that carry a packet to a client (`forward_outbound_pkt`) replace the source;
* `SynOf`: the SYN for a packet keeps the client and takes one off both numbers.
-/

namespace Miresga.Frontend

variable {rc : RuleController} {d : Byte} {r b f : Mbuf} {server : ServerInfo}

/-- The MAC addresses and the two checksums. -/
def LinkByte (i : Nat) : Prop := i < 12 ∨ i = 24 ∨ i = 25 ∨ i = 50 ∨ i = 51

/-- `f` is the first `n` bytes of `m`, sent to `server`. -/
structure SentTo (server : ServerInfo) (m : Mem) (n : Nat) (f : Mbuf) : Prop where
  rest : ∀ i, i < n → ¬ LinkByte i → (i < 30 ∨ 34 ≤ i) → (i < 36 ∨ 38 ≤ i) → f.data i = m i
  dst_addr : dst_addr f.data = htonl server.ip
  dst_port : dst_port f.data = htons server.port

/-- `f` is the first `n` bytes of `m`, sent by `server`. -/
structure SentOut (server : ServerInfo) (m : Mem) (n : Nat) (f : Mbuf) : Prop where
  rest : ∀ i, i < n → ¬ LinkByte i → (i < 26 ∨ 30 ≤ i) → (i < 34 ∨ 36 ≤ i) → f.data i = m i
  src_addr : src_addr f.data = htonl server.ip
  src_port : src_port f.data = htons server.port

/-- `f` is the SYN that opens a connection to `server` for the packet `m`. -/
structure SynOf (server : ServerInfo) (m : Mem) (f : Mbuf) : Prop where
  isTcp : isTcp f.data ↔ isTcp m
  src_addr : src_addr f.data = src_addr m
  src_port : src_port f.data = src_port m
  dst_addr : dst_addr f.data = htonl server.ip
  dst_port : dst_port f.data = htons server.port
  seqNo : seqNo f.data = seqNo m - 1
  ackNo : ackNo f.data = ackNo m - 1
  tcp_flags : tcp_flags f.data = TCP_SYN_FLAG
  data_off : data_off f.data = 0x80
  total_length : total_length f.data = htons 52

/-! ### Stores of addresses -/

/-- The bytes behind the MAC addresses after both are written. -/
theorem write_macs {m : Mem} {l l' : List Byte} {o o' i : Nat} (hl : l.length = 6)
    (hl' : l'.length = 6) (ho : o ≤ 6) (ho' : o' ≤ 6) (hi : 12 ≤ i) :
    ((m.write o l).write o' l') i = m i := by
  rw [Mem.write_outside _ (by omega), Mem.write_outside _ (by omega)]

/-- An address, a zero checksum, a port and a zero checksum are stored. -/
theorem st_addr_port {m : Mem} {o o' : Nat} {ip : BitVec 32} {port : BitVec 16} {i : Nat}
    (hi : ¬ LinkByte i) (ho : i < o ∨ o + 4 ≤ i) (ho' : i < o' ∨ o' + 2 ≤ i) :
    ((((m.st32 o ip).st16 24 0).st16 o' port).st16 50 0) i = m i := by
  unfold LinkByte at hi
  rw [Mem.st16_outside _ (by omega), Mem.st16_outside _ ho', Mem.st16_outside _ (by omega),
    Mem.st32_outside _ ho]

theorem st_addr_port_addr (m : Mem) {o o' : Nat} (ip : BitVec 32) (port : BitVec 16)
    (ho : 26 ≤ o) (ho' : o + 4 ≤ o') (h50 : o' + 2 ≤ 50) :
    ((((m.st32 o ip).st16 24 0).st16 o' port).st16 50 0).ld32 o = ip := by
  rw [Mem.ld32_congr (n := m.st32 o ip) fun i _ _ => ?_, Mem.ld32_st32]
  rw [Mem.st16_outside _ (by omega), Mem.st16_outside _ (by omega), Mem.st16_outside _ (by omega)]

theorem st_addr_port_port (m : Mem) {o o' : Nat} (ip : BitVec 32) (port : BitVec 16)
    (h50 : o' + 2 ≤ 50) : ((((m.st32 o ip).st16 24 0).st16 o' port).st16 50 0).ld16 o' = port := by
  rw [Mem.ld16_congr (n := ((m.st32 o ip).st16 24 0).st16 o' port) fun i _ _ => ?_, Mem.ld16_st16]
  rw [Mem.st16_outside _ (by omega)]

/-! ### Packets sent to a backend -/

theorem local_mac_length : local_mac.length = 6 := rfl

/-- A copied packet under MAC addresses, destination and zero checksums. -/
theorem SentTo.of_stores {m m' : Mem} {n : Nat} {l l' : List Byte} {o o' : Nat}
    (hl : l.length = 6) (hl' : l'.length = 6) (ho : o ≤ 6) (ho' : o' ≤ 6)
    (hf : f.data = (((((((m'.copy m n).write o l).write o' l').st32 30 (htonl server.ip)).st16
      24 0)).st16 36 (htons server.port)).st16 50 0) : SentTo server m n f where
  rest i hi hn h₁ h₂ := by
    have h12 : 12 ≤ i := Nat.le_of_not_lt fun h => hn (.inl h)
    rw [hf, st_addr_port hn h₁ h₂, write_macs hl hl' ho ho' h12, Mem.copy_apply, if_pos hi]
  dst_addr := by
    rw [hf]
    exact st_addr_port_addr _ _ _ (by omega) (by omega) (by omega)
  dst_port := by
    rw [hf]
    exact st_addr_port_port _ _ _ (by omega)

theorem forward_inbound_sentTo (h : forward_inbound_pkt rc d r b = some (.OK, f)) :
    ∃ server, rc.lookup_backend_server_info d = some server ∧
      SentTo server r.data r.data_len.toNat f := by
  unfold forward_inbound_pkt at h
  dsimp only at h
  split at h
  · cases h
  next server hs =>
    cases h
    exact ⟨server, hs, .of_stores local_mac_length server.mac.length_toList (by omega) (by omega) rfl⟩

theorem forward_inbound_len (h : forward_inbound_pkt rc d r b = some (.OK, f)) :
    f.data_len = ntohs (total_length f.data) + 14 := by
  unfold forward_inbound_pkt at h
  dsimp only at h
  split at h
  · cases h
  · cases h
    rfl

theorem send_cached_sentTo {m : Mem} {n : Nat}
    (h : send_cached_pkt rc d m n b = some (.OK, f)) :
    ∃ server, rc.lookup_backend_server_info d = some server ∧ SentTo server m n f := by
  unfold send_cached_pkt at h
  dsimp only at h
  split at h
  · cases h
  next server hs =>
    cases h
    exact ⟨server, hs, .of_stores server.mac.length_toList local_mac_length (by omega) (by omega) rfl⟩

theorem forward_outbound_sentOut (h : forward_outbound_pkt rc r b = some (.OK, f)) :
    SentOut rc.get_virtual_server_info r.data r.data_len.toNat f := by
  have hm : (rc.get_virtual_server_info.mac.toList).length = 6 := Vector.length_toList
  cases h
  refine ⟨fun i hi hn h₁ h₂ => ?_, ?_, ?_⟩
  · have h12 : 12 ≤ i := Nat.le_of_not_lt fun h => hn (.inl h)
    dsimp only
    rw [st_addr_port hn h₁ h₂, write_macs local_mac_length hm (by omega) (by omega) h12,
      Mem.copy_apply, if_pos hi]
  · exact st_addr_port_addr _ _ _ (by omega) (by omega) (by omega)
  · exact st_addr_port_port _ _ _ (by omega)

theorem forward_outbound_len (h : forward_outbound_pkt rc r b = some (.OK, f)) :
    f.data_len = ntohs (total_length f.data) + 14 := by
  cases h
  rfl

namespace SentTo

variable {m : Mem} {n : Nat} (h : SentTo server m n f) (hn : 54 ≤ n)

include h hn

theorem tcp_flags : tcp_flags f.data = tcp_flags m :=
  h.rest 47 (by omega) (by simp [LinkByte]) (by omega) (by omega)

theorem data_off : data_off f.data = data_off m :=
  h.rest 46 (by omega) (by simp [LinkByte]) (by omega) (by omega)

theorem total_length : total_length f.data = total_length m :=
  Mem.ld16_congr fun i _ _ =>
    h.rest i (by omega) (by unfold LinkByte; omega) (by omega) (by omega)

theorem src_addr : src_addr f.data = src_addr m :=
  Mem.ld32_congr fun i _ _ =>
    h.rest i (by omega) (by unfold LinkByte; omega) (by omega) (by omega)

theorem src_port : src_port f.data = src_port m :=
  Mem.ld16_congr fun i _ _ =>
    h.rest i (by omega) (by unfold LinkByte; omega) (by omega) (by omega)

theorem seqNo : seqNo f.data = seqNo m :=
  congrArg ntohl (Mem.ld32_congr fun i _ _ =>
    h.rest i (by omega) (by unfold LinkByte; omega) (by omega) (by omega))

theorem ackNo : ackNo f.data = ackNo m :=
  congrArg ntohl (Mem.ld32_congr fun i _ _ =>
    h.rest i (by omega) (by unfold LinkByte; omega) (by omega) (by omega))

theorem isTcp : isTcp f.data ↔ isTcp m := by
  have he : ether_type f.data = ether_type m := Mem.ld16_congr fun i _ _ =>
    h.rest i (by omega) (by unfold LinkByte; omega) (by omega) (by omega)
  have hp : next_proto_id f.data = next_proto_id m :=
    h.rest 23 (by omega) (by simp [LinkByte]) (by omega) (by omega)
  rw [Miresga.isTcp, he, hp, Miresga.isTcp]

end SentTo

/-! ### The SYN and the RST -/

/-- What `send_syn_pkt` writes in front of the two numbers, whatever it finds at byte 14. -/
def syn_front (m : Mem) (server : ServerInfo) (v : Byte) : Mem :=
  (((((((m.write 0 server.mac.toList).st32 30 (htonl server.ip)).st8 14 v).st16 16 (htons 52)).st16
    24 0).st16 36 (htons server.port)).st8 47 TCP_SYN_FLAG).st8 46 (8 <<< 4)

/-- All that it writes, with the numbers given. -/
def syn_image (m : Mem) (server : ServerInfo) (v : Byte) (seq ack : BitVec 32) : Mem :=
  ((((syn_front m server v).st32 38 seq).st32 42 ack).st16 50 0).write 54 option_char

section syn

variable (m : Mem) (server : ServerInfo) (v : Byte) (seq ack : BitVec 32)

theorem syn_front_ld32 {o : Nat} (ho : 38 ≤ o) (ho' : o + 4 ≤ 46) :
    (syn_front m server v).ld32 o = m.ld32 o := by
  have hm : server.mac.toList.length = 6 := Vector.length_toList
  unfold syn_front
  simp (disch := omega) only [Mem.ld32_st8_ne, Mem.ld32_st16_ne, Mem.ld32_st32_ne,
    Mem.ld32_write_ne]

/-- In front of byte 38 only the first stores matter. -/
theorem syn_image_front {i : Nat} (hi : i < 38) :
    syn_image m server v seq ack i = syn_front m server v i := by
  unfold syn_image
  rw [Mem.write_outside _ (by omega), Mem.st16_outside _ (by omega), Mem.st32_outside _ (by omega),
    Mem.st32_outside _ (by omega)]

/-- What the first stores leave alone. -/
theorem syn_front_rest {i : Nat} (h₁ : 6 ≤ i ∧ i < 14 ∨ 18 ≤ i ∧ i < 24 ∨ 26 ≤ i ∧ i < 30 ∨
    34 ≤ i ∧ i < 36) : syn_front m server v i = m i := by
  have hm : server.mac.toList.length = 6 := Vector.length_toList
  unfold syn_front
  rw [Mem.st8_outside _ (by omega), Mem.st8_outside _ (by omega), Mem.st16_outside _ (by omega),
    Mem.st16_outside _ (by omega), Mem.st16_outside _ (by omega), Mem.st8_outside _ (by omega),
    Mem.st32_outside _ (by omega), Mem.write_outside _ (by omega)]

theorem syn_image_rest {i : Nat} (h₁ : 6 ≤ i ∧ i < 14 ∨ 18 ≤ i ∧ i < 24 ∨ 26 ≤ i ∧ i < 30 ∨
    34 ≤ i ∧ i < 36) : syn_image m server v seq ack i = m i := by
  rw [syn_image_front _ _ _ _ _ (by omega), syn_front_rest _ _ _ h₁]

theorem isTcp_syn_image : isTcp (syn_image m server v seq ack) ↔ isTcp m := by
  have he : ether_type (syn_image m server v seq ack) = ether_type m :=
    Mem.ld16_congr fun i _ _ => syn_image_rest _ _ _ _ _ (by omega)
  have hp : next_proto_id (syn_image m server v seq ack) = next_proto_id m :=
    syn_image_rest _ _ _ _ _ (by omega)
  rw [isTcp, he, hp, isTcp]

theorem src_addr_syn_image : src_addr (syn_image m server v seq ack) = src_addr m :=
  Mem.ld32_congr fun i _ _ => syn_image_rest _ _ _ _ _ (by omega)

theorem src_port_syn_image : src_port (syn_image m server v seq ack) = src_port m :=
  Mem.ld16_congr fun i _ _ => syn_image_rest _ _ _ _ _ (by omega)

theorem version_ihl_syn_image : version_ihl (syn_image m server v seq ack) = v := by
  rw [version_ihl, syn_image_front _ _ _ _ _ (by omega), syn_front, Mem.st8_outside _ (by omega),
    Mem.st8_outside _ (by omega), Mem.st16_outside _ (by omega), Mem.st16_outside _ (by omega),
    Mem.st16_outside _ (by omega), Mem.st8_same]

theorem total_length_syn_image : total_length (syn_image m server v seq ack) = htons 52 := by
  rw [total_length, Mem.ld16_congr fun i _ _ => syn_image_front _ _ _ _ _ (by omega), syn_front,
    Mem.ld16_st8_ne _ (by omega), Mem.ld16_st8_ne _ (by omega), Mem.ld16_st16_ne _ (by omega),
    Mem.ld16_st16_ne _ (by omega), Mem.ld16_st16]

theorem dst_addr_syn_image : dst_addr (syn_image m server v seq ack) = htonl server.ip := by
  rw [dst_addr, Mem.ld32_congr fun i _ _ => syn_image_front _ _ _ _ _ (by omega), syn_front,
    Mem.ld32_st8_ne _ (by omega), Mem.ld32_st8_ne _ (by omega), Mem.ld32_st16_ne _ (by omega),
    Mem.ld32_st16_ne _ (by omega), Mem.ld32_st16_ne _ (by omega), Mem.ld32_st8_ne _ (by omega),
    Mem.ld32_st32]

theorem dst_port_syn_image : dst_port (syn_image m server v seq ack) = htons server.port := by
  rw [dst_port, Mem.ld16_congr fun i _ _ => syn_image_front _ _ _ _ _ (by omega), syn_front,
    Mem.ld16_st8_ne _ (by omega), Mem.ld16_st8_ne _ (by omega), Mem.ld16_st16]

theorem sent_seq_syn_image : sent_seq (syn_image m server v seq ack) = seq := by
  rw [sent_seq, syn_image, Mem.ld32_write_ne _ (by omega), Mem.ld32_st16_ne _ (by omega),
    Mem.ld32_st32_ne _ (by omega), Mem.ld32_st32]

theorem recv_ack_syn_image : recv_ack (syn_image m server v seq ack) = ack := by
  rw [recv_ack, syn_image, Mem.ld32_write_ne _ (by omega), Mem.ld32_st16_ne _ (by omega),
    Mem.ld32_st32]

/-- The flags and the data offset. -/
theorem control_syn_image : tcp_flags (syn_image m server v seq ack) = TCP_SYN_FLAG ∧
    data_off (syn_image m server v seq ack) = 0x80 := by
  have behind {i : Nat} (h₁ : 46 ≤ i) (h₂ : i < 50) :
      syn_image m server v seq ack i = syn_front m server v i := by
    unfold syn_image
    rw [Mem.write_outside _ (by omega), Mem.st16_outside _ (by omega),
      Mem.st32_outside _ (by omega), Mem.st32_outside _ (by omega)]
  refine ⟨?_, ?_⟩
  · rw [tcp_flags, behind (by omega) (by omega), syn_front, Mem.st8_outside _ (by omega),
      Mem.st8_same]
  · rw [data_off, behind (by omega) (by omega), syn_front, Mem.st8_same]
    rfl

end syn

/-- The SYN is the copied packet with these stores made, its numbers one less. -/
theorem send_syn_image (h : send_syn_pkt rc d r b = some (.OK, f)) :
    ∃ server v, rc.lookup_backend_server_info d = some server ∧
      f.data = syn_image (b.data.copy r.data 66) server (ihl5 v) (htonl (seqNo r.data - 1))
        (htonl (ackNo r.data - 1)) := by
  unfold send_syn_pkt at h
  dsimp only at h
  split at h
  · cases h
  next server hs =>
    have front (v : Byte) (o : Nat) (h₁ : 38 ≤ o) (h₂ : o + 4 ≤ 46) :
        (syn_front (b.data.copy r.data 66) server v).ld32 o = r.data.ld32 o := by
      rw [syn_front_ld32 _ _ _ h₁ h₂, Mem.ld32_copy _ (by omega)]
    have hseq (v : Byte) : sent_seq (syn_front (b.data.copy r.data 66) server v) =
        sent_seq r.data := front v 38 (by omega) (by omega)
    have hack (v : Byte) (x : BitVec 32) : recv_ack
        ((syn_front (b.data.copy r.data 66) server v).st32 38 x) = recv_ack r.data :=
      (Mem.ld32_st32_ne _ (by omega)).trans (front v 42 (by omega) (by omega))
    cases h
    refine ⟨server, (((b.data.copy r.data 66).write 0 server.mac.toList).st32 30
      (htonl server.ip)) 14, hs, ?_⟩
    rw [seqNo, ackNo, ← hseq, ← hack]
    rfl

theorem send_syn_synOf (h : send_syn_pkt rc d r b = some (.OK, f)) :
    ∃ server, rc.lookup_backend_server_info d = some server ∧ SynOf server r.data f := by
  obtain ⟨server, v, hs, hf⟩ := send_syn_image h
  have htype : ether_type (b.data.copy r.data 66) = ether_type r.data := Mem.ld16_copy _ (by omega)
  have hproto : next_proto_id (b.data.copy r.data 66) = next_proto_id r.data := by
    rw [next_proto_id, Mem.copy_apply, if_pos (by omega), next_proto_id]
  obtain ⟨hflags, hoff⟩ := control_syn_image (b.data.copy r.data 66) server (ihl5 v)
    (htonl (seqNo r.data - 1)) (htonl (ackNo r.data - 1))
  refine ⟨server, hs, ?_, ?_, ?_, ?_, ?_, ?_, ?_, ?_, ?_, ?_⟩
  · rw [hf, isTcp_syn_image, isTcp, htype, hproto, isTcp]
  · rw [hf, src_addr_syn_image]
    exact Mem.ld32_copy _ (by omega)
  · rw [hf, src_port_syn_image]
    exact Mem.ld16_copy _ (by omega)
  · rw [hf, dst_addr_syn_image]
  · rw [hf, dst_port_syn_image]
  · rw [hf, seqNo, sent_seq_syn_image]
    exact bswap32_bswap32 _
  · rw [hf, ackNo, recv_ack_syn_image]
    exact bswap32_bswap32 _
  · rw [hf, hflags]
  · rw [hf, hoff]
  · rw [hf, total_length_syn_image]

theorem send_syn_len (h : send_syn_pkt rc d r b = some (.OK, f)) : f.data_len = 66 := by
  have hl : f.data_len = ntohs (total_length f.data) + 14 := by
    unfold send_syn_pkt at h
    dsimp only at h
    split at h
    · cases h
    · cases h
      rfl
  obtain ⟨server, -, hs⟩ := send_syn_synOf h
  rw [hl, hs.total_length]
  rfl

/-- The frame of `send_rst_pkt` has the RST flag, and no other. -/
theorem send_rst_flags (h : send_rst_pkt rc d r b = some (.OK, f)) :
    tcp_flags f.data = TCP_RST_FLAG := by
  unfold send_rst_pkt at h
  dsimp only at h
  split at h
  · cases h
  · cases h
    simp (disch := omega) only [tcp_flags, Mem.st16_outside, Mem.st8_outside, Mem.st8_same]

end Miresga.Frontend
