import Miresga.Frontend.BuilderSpec
import Miresga.Frontend.Transition
import Miresga.Switch.Spec

/-!
# System — the fast path and the slow path

A segment of an offloaded connection is rewritten by the switch alone (`Switch.switch`); before, the
same segment went through the front-end (`Frontend.process_pkts`).  Both ways give the same segment.

* `Holds`: a receive buffer of the front-end holds the bytes the switch received.
* `SameSegment`: the frame that leaves the switch and the buffer that the front-end fills agree in
  every header field but the checksums and in every byte up to the IPv4 total length.
* `fast_path_same`: the two paths agree.
-/

namespace Miresga.System

open Switch Frontend

variable {X : Externs} {T : Tables} {port : BitVec 9} {hdr : Header} {rc : RuleController}
  {p f : Mbuf} {e e' : Ethernet} {ipv4 : Ipv4} {tcp : Tcp} {rest pkt : List Byte}

/-! ### The two views of a frame -/

/-- The buffer holds the packet. -/
structure Holds (p : Mbuf) (pkt : List Byte) : Prop where
  data_len : p.data_len.toNat = pkt.length
  data : ∀ i, i < pkt.length → p.data i = toMem pkt i

theorem length_tcp_frame (e : Ethernet) (ipv4 : Ipv4) (tcp : Tcp) (rest : List Byte) :
    (tcp_frame e ipv4 tcp rest).length = 54 + rest.length := by
  simp only [tcp_frame, List.length_append, Format.length_emit]
  exact (Nat.add_assoc 14 20 _).symm.trans ((Nat.add_assoc 34 20 _).symm)

namespace Holds

variable (h : Holds p (tcp_frame e ipv4 tcp rest))

include h

theorem frame_bound {i : Nat} (hi : i < 54) : p.data i = toMem (tcp_frame e ipv4 tcp rest) i :=
  h.data i (by rw [length_tcp_frame]; omega)

/-- The IPv4 header, read off the buffer. -/
theorem ipv4_eq : ipv4_h.decode (p.data.drop 14) = ipv4 := by
  rw [← ipv4_h.decode_drop (ethernet_h.emit e) ipv4 (tcp_h.emit tcp ++ rest)]
  refine ipv4_h.decode_congr fun i hi => ?_
  have hi : i < 20 := hi
  exact h.frame_bound (by omega)

/-- The TCP header, read off the buffer. -/
theorem tcp_eq : tcp_h.decode (p.data.drop 34) = tcp := by
  rw [← tcp_h.decode_drop (ethernet_h.emit e ++ ipv4_h.emit ipv4) tcp rest]
  refine tcp_h.decode_congr fun i hi => ?_
  have hi : i < 20 := hi
  rw [List.append_assoc]
  exact h.frame_bound (by omega)

/-- The Ethernet header, read off the buffer. -/
theorem ethernet_eq : ethernet_h.decode p.data = e := by
  rw [← ethernet_h.decode_emit e (ipv4_h.emit ipv4 ++ (tcp_h.emit tcp ++ rest))]
  refine ethernet_h.decode_congr fun i hi => ?_
  have hi : i < 14 := hi
  exact h.frame_bound (by omega)

theorem isTcp (he : e.ether_type = ETHERTYPE_IPV4) (hp : ipv4.protocol = IP_PROTOCOLS_TCP) :
    isTcp p.data := by
  have h₁ : bswap16 (p.data.ld16 12) = e.ether_type :=
    (Mem.bswap16_ld16 _ _).trans (congrArg Ethernet.ether_type h.ethernet_eq)
  have h₂ : p.data 23 = ipv4.protocol := congrArg Ipv4.protocol h.ipv4_eq
  refine ⟨?_, h₂.trans hp⟩
  rw [he] at h₁
  exact (bswap16_bswap16 _).symm.trans (congrArg bswap16 h₁)

theorem srcClient : srcClient p.data = ⟨htonl ipv4.src_addr, htons tcp.src_port⟩ := by
  have h₁ : bswap32 (p.data.ld32 26) = ipv4.src_addr :=
    (Mem.bswap32_ld32 _ _).trans (congrArg Ipv4.src_addr h.ipv4_eq)
  have h₂ : bswap16 (p.data.ld16 34) = tcp.src_port :=
    (Mem.bswap16_ld16 _ _).trans (congrArg Tcp.src_port h.tcp_eq)
  simp only [htonl, htons, ← h₁, ← h₂, bswap32_bswap32, bswap16_bswap16]
  rfl

theorem dstClient : dstClient p.data = ⟨htonl ipv4.dst_addr, htons tcp.dst_port⟩ := by
  have h₁ : bswap32 (p.data.ld32 30) = ipv4.dst_addr :=
    (Mem.bswap32_ld32 _ _).trans (congrArg Ipv4.dst_addr h.ipv4_eq)
  have h₂ : bswap16 (p.data.ld16 36) = tcp.dst_port :=
    (Mem.bswap16_ld16 _ _).trans (congrArg Tcp.dst_port h.tcp_eq)
  simp only [htonl, htons, ← h₁, ← h₂, bswap32_bswap32, bswap16_bswap16]
  rfl

theorem total_length : ntohs (total_length p.data) = ipv4.total_len :=
  (Mem.bswap16_ld16 _ _).trans (congrArg Ipv4.total_len h.ipv4_eq)

theorem doff : doff p.data = tcp.data_offset.toNat := by
  have hd : (p.data 46 ++ p.data 47).extractLsb' 12 4 = tcp.data_offset :=
    congrArg Tcp.data_offset h.tcp_eq
  rw [BitVec.extractLsb'_append_eq_of_le (by omega)] at hd
  rw [← hd]
  exact toNat_high_half _

theorem fin : fin p.data = decide (tcp.fin = 1) := by
  have hd : (p.data 46 ++ p.data 47).extractLsb' 0 1 = tcp.fin := congrArg Tcp.fin h.tcp_eq
  rw [BitVec.extractLsb'_append_eq_of_add_le (by omega)] at hd
  rw [← hd]
  exact getLsbD_eq_field _ _

theorem rst : rst p.data = decide (tcp.rst = 1) := by
  have hd : (p.data 46 ++ p.data 47).extractLsb' 2 1 = tcp.rst := congrArg Tcp.rst h.tcp_eq
  rw [BitVec.extractLsb'_append_eq_of_add_le (by omega)] at hd
  rw [← hd]
  exact getLsbD_eq_field _ _

end Holds

/-! ### The frames the front-end builds, as headers -/

section headers

variable {server : ServerInfo} {m : Mem} {n : Nat}

/-- A number in network order that was stored with `htonl`. -/
theorem nb32_of_ld32 {m : Mem} {o : Nat} {v : BitVec 32} (h : m.ld32 o = htonl v) :
    m.nb32 o = v := by
  have := (Mem.bswap32_ld32 m o).symm.trans (congrArg bswap32 h)
  rwa [bswap32_bswap32] at this

theorem nb16_of_ld16 {m : Mem} {o : Nat} {v : BitVec 16} (h : m.ld16 o = htons v) :
    m.nb16 o = v := by
  have := (Mem.bswap16_ld16 m o).symm.trans (congrArg bswap16 h)
  rwa [bswap16_bswap16] at this

theorem sentTo_ipv4 (h : SentTo server m n f) (hn : 54 ≤ n) :
    ∃ c, ipv4_h.decode (f.data.drop 14) =
      { ipv4_h.decode (m.drop 14) with dst_addr := server.ip, hdr_checksum := c } := by
  have byte : ∀ i, i < 16 → i ≠ 10 → i ≠ 11 → f.data (14 + i) = m (14 + i) := fun i _ _ _ =>
    h.rest _ (by omega) (by unfold LinkByte; omega) (by omega) (by omega)
  refine ⟨(f.data.drop 14).nb16 10, ?_⟩
  have hd : (f.data.drop 14).nb32 16 = server.ip := nb32_of_ld32 h.dst_addr
  simp only [ipv4_h, hd]
  simp (disch := omega) only [Mem.nb16, Mem.nb32, Mem.drop, byte]

theorem sentTo_tcp (h : SentTo server m n f) (hn : 54 ≤ n) :
    ∃ c, tcp_h.decode (f.data.drop 34) =
      { tcp_h.decode (m.drop 34) with dst_port := server.port, checksum := c } := by
  have byte : ∀ i, i < 20 → i ≠ 2 → i ≠ 3 → i ≠ 16 → i ≠ 17 → f.data (34 + i) = m (34 + i) :=
    fun i _ _ _ _ _ => h.rest _ (by omega) (by unfold LinkByte; omega) (by omega) (by omega)
  refine ⟨(f.data.drop 34).nb16 16, ?_⟩
  have hd : (f.data.drop 34).nb16 2 = server.port := nb16_of_ld16 h.dst_port
  simp only [tcp_h, hd]
  simp (disch := omega) only [Mem.nb16, Mem.nb32, Mem.drop, byte]

theorem sentOut_ipv4 (h : SentOut server m n f) (hn : 54 ≤ n) :
    ∃ c, ipv4_h.decode (f.data.drop 14) =
      { ipv4_h.decode (m.drop 14) with src_addr := server.ip, hdr_checksum := c } := by
  have byte : ∀ i, i < 20 → i ≠ 10 → i ≠ 11 → (i < 12 ∨ 16 ≤ i) → f.data (14 + i) = m (14 + i) :=
    fun i _ _ _ _ => h.rest _ (by omega) (by unfold LinkByte; omega) (by omega) (by omega)
  refine ⟨(f.data.drop 14).nb16 10, ?_⟩
  have hd : (f.data.drop 14).nb32 12 = server.ip := nb32_of_ld32 h.src_addr
  simp only [ipv4_h, hd]
  simp (disch := omega) only [Mem.nb16, Mem.nb32, Mem.drop, byte]

theorem sentOut_tcp (h : SentOut server m n f) (hn : 54 ≤ n) :
    ∃ c, tcp_h.decode (f.data.drop 34) =
      { tcp_h.decode (m.drop 34) with src_port := server.port, checksum := c } := by
  have byte : ∀ i, i < 20 → 2 ≤ i → i ≠ 16 → i ≠ 17 → f.data (34 + i) = m (34 + i) :=
    fun i _ _ _ _ => h.rest _ (by omega) (by unfold LinkByte; omega) (by omega) (by omega)
  refine ⟨(f.data.drop 34).nb16 16, ?_⟩
  have hd : (f.data.drop 34).nb16 0 = server.port := nb16_of_ld16 h.src_port
  simp only [tcp_h, hd]
  simp (disch := omega) only [Mem.nb16, Mem.nb32, Mem.drop, byte]

end headers

/-! ### Comparing the two frames -/

/-- The frame `out` and the frame in `f` are the same segment: the header fields agree, checksums
apart, and so do all bytes of the IPv4 packet behind them.  Bytes of `out` behind the packet are
padding. -/
structure SameSegment (out : List Byte) (f : Mbuf) : Prop where
  length : 54 ≤ out.length
  ipv4 : ∃ c, ipv4_h.decode ((toMem out).drop 14) =
    { ipv4_h.decode (f.data.drop 14) with hdr_checksum := c }
  tcp : ∃ c, tcp_h.decode ((toMem out).drop 34) = { tcp_h.decode (f.data.drop 34) with checksum := c }
  data_len : f.data_len.toNat = 14 + (ipv4_h.decode (f.data.drop 14)).total_len.toNat
  bytes : ∀ i, 54 ≤ i → i < f.data_len.toNat → out[i]? = some (f.data i)

theorem toMem_tcp_frame (j : Nat) :
    toMem (tcp_frame e ipv4 tcp rest) (54 + j) = toMem rest j := by
  have h₁ := toMem_append (ethernet_h.emit e) (ipv4_h.emit ipv4 ++ (tcp_h.emit tcp ++ rest))
    (20 + (20 + j))
  have h₂ := toMem_append (ipv4_h.emit ipv4) (tcp_h.emit tcp ++ rest) (20 + j)
  have h₃ := toMem_append (tcp_h.emit tcp) rest j
  rw [show 54 + j = 14 + (20 + (20 + j)) by omega]
  exact h₁.trans (h₂.trans h₃)

theorem decode_tcp_frame : ipv4_h.decode ((toMem (tcp_frame e ipv4 tcp rest)).drop 14) = ipv4 ∧
    tcp_h.decode ((toMem (tcp_frame e ipv4 tcp rest)).drop 34) = tcp := by
  refine ⟨ipv4_h.decode_drop (ethernet_h.emit e) ipv4 (tcp_h.emit tcp ++ rest), ?_⟩
  have h := tcp_h.decode_drop (ethernet_h.emit e ++ ipv4_h.emit ipv4) tcp rest
  rwa [List.append_assoc] at h

/-- A frame with the same rest and a buffer whose headers are the same. -/
theorem SameSegment.of_headers (ipv4' : Ipv4) (tcp' : Tcp) {c₁ c₂ : BitVec 16}
    (hp : Holds p (tcp_frame e ipv4 tcp rest))
    (hlen : 14 + ipv4.total_len.toNat ≤ (tcp_frame e ipv4 tcp rest).length)
    (h4 : ∃ c, ipv4_h.decode (f.data.drop 14) = { ipv4' with hdr_checksum := c })
    (ht : ∃ c, tcp_h.decode (f.data.drop 34) = { tcp' with checksum := c })
    (htot : ipv4'.total_len = ipv4.total_len)
    (hdl : f.data_len = ntohs (total_length f.data) + 14)
    (hrest : ∀ i, 54 ≤ i → i < p.data_len.toNat → f.data i = p.data i) :
    SameSegment (tcp_frame e' { ipv4' with hdr_checksum := c₁ } { tcp' with checksum := c₂ } rest)
      f := by
  obtain ⟨c, h4⟩ := h4
  obtain ⟨c', ht⟩ := ht
  have htl : (ipv4_h.decode (f.data.drop 14)).total_len = ipv4.total_len := by rw [h4, ← htot]
  have hfl : ntohs (total_length f.data) = ipv4.total_len := (Mem.bswap16_ld16 _ _).trans htl
  have hn : f.data_len.toNat = 14 + ipv4.total_len.toNat := by
    have := hp.data_len
    have := p.data_len.isLt
    rw [hdl, hfl, BitVec.toNat_add]
    change (ipv4.total_len.toNat + 14) % 65536 = _
    omega
  refine ⟨?_, ⟨c₁, ?_⟩, ⟨c₂, ?_⟩, ?_, ?_⟩
  · rw [length_tcp_frame]
    omega
  · rw [decode_tcp_frame.1, h4]
  · rw [decode_tcp_frame.2, ht]
  · rw [htl, hn]
  · intro i h54 hi
    rw [hn] at hi
    have hlt : i < (tcp_frame e' { ipv4' with hdr_checksum := c₁ } { tcp' with checksum := c₂ }
        rest).length := by
      rw [length_tcp_frame] at hlen ⊢
      omega
    rw [List.getElem?_eq_getElem hlt, ← toMem_lt hlt, hrest i h54 (by rw [hp.data_len]; omega),
      hp.data i (by omega)]
    obtain ⟨j, rfl⟩ := Nat.exists_eq_add_of_le h54
    rw [toMem_tcp_frame, toMem_tcp_frame]

/-! ### The slow path -/

/-- The front-end has a flow for `c` in state OFFLOAD or COMPLETE toward backend `d`. -/
def Toward (s : Shared) (c : Client) (d : Byte) : Prop :=
  ∃ a, s.find c = some a ∧ (s.flow a).Established ∧ (s.flow a).entry_data.d_index = d

section slow

variable {mem : Alloc} {s : Proc} {d : Byte} {server : ServerInfo}

/-- A client's packet without RST, FIN and payload is forwarded to its backend. -/
theorem process_inbound (ht : isTcp p.data) (hs : Toward s.shared (srcClient p.data) d)
    (hr : Miresga.rst p.data = false) (hf : Miresga.fin p.data = false)
    (hp : payload_flag p.data = false)
    (hb : forward_inbound_pkt rc d p (s.sends.send_pkts s.sends.send_size) = some (.OK, f)) :
    process_pkt rc mem p s = .next (s.filled (.forward_inbound_pkt d p) f).bump := by
  obtain ⟨a, ha, hst, rfl⟩ := hs
  have est : client_established none rc mem p s a =
      .next (s.filled (.forward_inbound_pkt (s.shared.flow a).entry_data.d_index p) f).bump := by
    simp [client_established, hr, hf, hp, call, Call.build, hb]
  unfold process_pkt process_pkt_within
  rw [if_neg (not_not.mpr ht.1), if_neg (not_not.mpr ht.2), ha]
  dsimp only
  obtain hst | hst := hst <;> rw [hst] <;> exact est

/-- A packet without RST and FIN to a client is forwarded to it. -/
theorem process_outbound (ht : isTcp p.data) (hn : s.shared.find (srcClient p.data) = none)
    (hs : Toward s.shared (dstClient p.data) d)
    (hr : Miresga.rst p.data = false) (hf : Miresga.fin p.data = false)
    (hb : forward_outbound_pkt rc p (s.sends.send_pkts s.sends.send_size) = some (.OK, f)) :
    process_pkt rc mem p s = .next (s.filled (.forward_outbound_pkt p) f).bump := by
  obtain ⟨a, ha, hst, rfl⟩ := hs
  have est : backend_established rc p s a = .next (s.filled (.forward_outbound_pkt p) f).bump := by
    simp [backend_established, hr, hf, call, Call.build, hb]
  unfold process_pkt process_pkt_within
  rw [if_neg (not_not.mpr ht.1), if_neg (not_not.mpr ht.2), hn]
  dsimp only
  unfold from_backend
  rw [ha]
  dsimp only
  obtain hst | hst := hst <;> rw [hst] <;> exact est

end slow

/-- The lengths in `calculate_payload_table` are those of segments without payload. -/
theorem no_payload_length {len : BitVec 16} {off : BitVec 4} (h : (len, off) ∈ Ingress.no_payload) :
    len.toNat = 20 + off.toNat * 4 := by
  have all : Ingress.no_payload.all fun x => decide (x.1.toNat = 20 + x.2.toNat * 4) := by decide
  exact of_decide_eq_true (List.all_eq_true.mp all _ h)

theorem payload_flag_of_no_payload (hp : Holds p (tcp_frame e ipv4 tcp rest))
    (h : (ipv4.total_len, tcp.data_offset) ∈ Ingress.no_payload) : payload_flag p.data = false := by
  unfold payload_flag header_size tcp_hdr_len
  rw [hp.total_length, hp.doff, no_payload_length h]
  simp

/-! ### The two paths -/

section paths

variable {mem : Alloc} {s : Proc} {d : Byte} {server : ServerInfo}

/-- The way to a backend. -/
theorem inbound_same (hd : T.d_index_to_ip_port_table d = some (server.ip, server.port))
    (hd' : rc.d_index_map d = some server) (hflow : Toward s.shared (srcClient p.data) d)
    (hoff : T.offload_connection_table (ntohl (srcClient p.data).addr)
      (ntohs (srcClient p.data).port) = some d)
    (hparse : SwitchIngressParser pkt = some (hdr, rest))
    (htype : (toMem pkt).nb16 12 = ETHERTYPE_IPV4)
    (hlen : 14 + (ipv4_h.decode ((toMem pkt).drop 14)).total_len.toNat ≤ pkt.length)
    (hp : Holds p pkt) (hflag : (SwitchIngress X T port hdr).bridged.d_flag = 1) :
    ∃ eport out f, switch X T port pkt = some (eport, out) ∧
      process_pkt rc mem p s = .next (s.filled (.forward_inbound_pkt d p) f).bump ∧
      SameSegment out f ∧ payload_flag p.data = false := by
  obtain ⟨ipv4, tcp, d', h4, ht, -, -, -, hfin, hrst, hpay, hoff', ⟨b, hb⟩, hh⟩ :=
    ingress_d_flag hflag
  obtain ⟨e, e', ipv4', c₁, c₂, rfl, rfl, he, hprot, hsw⟩ :=
    switch_direct hparse htype ht hh (by rw [hb])
  obtain rfl : ipv4' = ipv4 := Option.some.inj h4
  have hn : 54 ≤ p.data_len.toNat := by
    rw [hp.data_len, length_tcp_frame]
    omega
  -- the connection is the one that is offloaded to `d`
  obtain rfl : d' = d := by
    rw [hp.srcClient] at hoff
    simpa [htonl, htons, hoff'] using hoff
  have hpay := payload_flag_of_no_payload hp hpay
  obtain ⟨f, hf⟩ : ∃ f, forward_inbound_pkt rc d' p (s.sends.send_pkts s.sends.send_size) =
      some (.OK, f) := by
    unfold forward_inbound_pkt RuleController.lookup_backend_server_info
    rw [hd']
    exact ⟨_, rfl⟩
  obtain ⟨server', hs', hsent⟩ := forward_inbound_sentTo hf
  obtain rfl : server' = server := Option.some.inj (hs'.symm.trans hd')
  refine ⟨_, _, f, hsw, process_inbound (hp.isTcp he hprot) hflow ?_ ?_ hpay hf, ?_, hpay⟩
  · rw [hp.rst, decide_eq_false hrst]
  · rw [hp.fin, decide_eq_false hfin]
  · rw [hb, rewrite_to rfl hd]
    rw [decode_tcp_frame.1] at hlen
    have h4 := sentTo_ipv4 hsent hn
    have ht := sentTo_tcp hsent hn
    rw [hp.ipv4_eq] at h4
    rw [hp.tcp_eq] at ht
    exact .of_headers { ipv4' with dst_addr := server'.ip }
      { tcp with dst_port := server'.port } hp hlen h4 ht rfl (forward_inbound_len hf)
      fun i h54 hi => hsent.rest i hi (by unfold LinkByte; omega) (by omega) (by omega)

/-- The way to a client. -/
theorem outbound_same (hvip : rc.virtual_server_info.ip = VIRTUAL_IP)
    (hvport : rc.virtual_server_info.port = VIRTUAL_PORT)
    (hdip : ∀ b : Client, T.dip_lookup_table (ntohl b.addr) (ntohs b.port) = true →
      s.shared.find b = none)
    (hflow : Toward s.shared (dstClient p.data) d)
    (hparse : SwitchIngressParser pkt = some (hdr, rest))
    (htype : (toMem pkt).nb16 12 = ETHERTYPE_IPV4)
    (hlen : 14 + (ipv4_h.decode ((toMem pkt).drop 14)).total_len.toNat ≤ pkt.length)
    (hp : Holds p pkt) (hflag : (SwitchIngress X T port hdr).bridged.v_flag = 1) :
    ∃ eport out f, switch X T port pkt = some (eport, out) ∧
      process_pkt rc mem p s = .next (s.filled (.forward_outbound_pkt p) f).bump ∧
      SameSegment out f := by
  obtain ⟨ipv4, tcp, d', h4, ht, hsrc, hfin, hrst, -, ⟨b, hb⟩, hh⟩ := ingress_v_flag hflag
  obtain ⟨e, e', ipv4', c₁, c₂, rfl, rfl, he, hprot, hsw⟩ :=
    switch_direct hparse htype ht hh (by rw [hb])
  obtain rfl : ipv4' = ipv4 := Option.some.inj h4
  have hn : 54 ≤ p.data_len.toNat := by
    rw [hp.data_len, length_tcp_frame]
    omega
  -- the sender is a backend, so that the flow is looked up by the destination
  have hnone : s.shared.find (srcClient p.data) = none := by
    refine hdip _ ?_
    rw [hp.srcClient]
    simpa [htonl, htons] using hsrc
  obtain ⟨f, hf⟩ : ∃ f, forward_outbound_pkt rc p (s.sends.send_pkts s.sends.send_size) =
      some (.OK, f) := ⟨_, rfl⟩
  have hsent := forward_outbound_sentOut hf
  refine ⟨_, _, f, hsw, process_outbound (hp.isTcp he hprot) hnone hflow ?_ ?_ hf, ?_⟩
  · rw [hp.rst, decide_eq_false hrst]
  · rw [hp.fin, decide_eq_false hfin]
  · rw [hb, rewrite_out rfl rfl]
    rw [decode_tcp_frame.1] at hlen
    have h4 := sentOut_ipv4 hsent hn
    have ht := sentOut_tcp hsent hn
    rw [hp.ipv4_eq, RuleController.get_virtual_server_info, hvip] at h4
    rw [hp.tcp_eq, RuleController.get_virtual_server_info, hvport] at ht
    exact .of_headers { ipv4' with src_addr := VIRTUAL_IP } { tcp with src_port := VIRTUAL_PORT }
      hp hlen h4 ht rfl (forward_outbound_len hf)
      fun i h54 hi => hsent.rest i hi (by unfold LinkByte; omega) (by omega) (by omega)

end paths

/-- **Offloading is transparent**: whatever the tables hold besides, a segment of the connection of
`c` that the switch forwards by itself leaves it as the front-end would have sent it, had it got the
segment instead.  A segment that goes to a backend is one without payload for the front-end too.
Neither side looks at the IPv4 header length: both take the TCP header to follow byte 34. -/
theorem fast_path_same {mem : Alloc} {s : Proc} {c : Client} {d : Byte} {server : ServerInfo}
    -- the tables of the switch and of the front-end
    (hoff : T.offload_connection_table (ntohl c.addr) (ntohs c.port) = some d)
    (hd : T.d_index_to_ip_port_table d = some (server.ip, server.port))
    (hd' : rc.d_index_map d = some server)
    (hvip : rc.virtual_server_info.ip = VIRTUAL_IP)
    (hvport : rc.virtual_server_info.port = VIRTUAL_PORT)
    (hdip : ∀ b : Client, T.dip_lookup_table (ntohl b.addr) (ntohs b.port) = true →
      s.shared.find b = none)
    (hflow : Toward s.shared c d)
    -- the frame
    (hparse : SwitchIngressParser pkt = some (hdr, rest))
    (htype : (toMem pkt).nb16 12 = ETHERTYPE_IPV4)
    (hlen : 14 + (ipv4_h.decode ((toMem pkt).drop 14)).total_len.toNat ≤ pkt.length)
    (hp : Holds p pkt) :
    ((SwitchIngress X T port hdr).bridged.d_flag = 1 → srcClient p.data = c →
      ∃ eport out f, switch X T port pkt = some (eport, out) ∧
        (∀ ps, process_pkts ((rc, mem, p) :: ps) s =
          process_pkts ps (s.filled (.forward_inbound_pkt d p) f).bump) ∧
        SameSegment out f ∧ payload_flag p.data = false) ∧
    ((SwitchIngress X T port hdr).bridged.v_flag = 1 → dstClient p.data = c →
      ∃ eport out f, switch X T port pkt = some (eport, out) ∧
        (∀ ps, process_pkts ((rc, mem, p) :: ps) s =
          process_pkts ps (s.filled (.forward_outbound_pkt p) f).bump) ∧
        SameSegment out f) := by
  constructor
  · rintro hflag rfl
    obtain ⟨eport, out, f, hsw, hpr, hsame, hpay⟩ :=
      inbound_same hd hd' hflow hoff hparse htype hlen hp hflag
    exact ⟨eport, out, f, hsw, fun ps => by rw [process_pkts, hpr], hsame, hpay⟩
  · rintro hflag rfl
    obtain ⟨eport, out, f, hsw, hpr, hsame⟩ :=
      outbound_same hvip hvport hdip hflow hparse htype hlen hp hflag
    exact ⟨eport, out, f, hsw, fun ps => by rw [process_pkts, hpr], hsame⟩

/-- The client `192.168.0.2:40000`. -/
def offloadedClient : Client := ⟨htonl 0xC0A80002, htons 40000⟩

/-- Server 3 is the backend of the client. -/
def offloadedTables : Tables where
  arp_table _ _ := none
  dip_lookup_table ip port := ip == 0x0A000103 && port == 8083
  offload_connection_table ip port := if ip = 0xC0A80002 ∧ port = 40000 then some 3 else none
  dest_to_egress_port_table _ := none
  d_index_to_egress_port_table d := if d = 3 then some ⟨1, 2, 12⟩ else none
  lb_index_to_egress_port_table _ := none
  d_index_to_ip_port_table d := if d = 3 then some (0x0A000103, 8083) else none
  invalid_key := 0

def offloadedRules : RuleController where
  rule_map _ := none
  d_index_map d := if d = 3 then some ⟨sampleMac 1, 0x0A000103, 8083⟩ else none
  virtual_server_info := ⟨sampleMac 3, VIRTUAL_IP, VIRTUAL_PORT⟩

def offloadedProc : Proc where
  shared :=
    { flow_hash_map := upd (fun _ => none) offloadedClient.slot (some 0)
      flows := .empty ⟨.OFFLOAD, ⟨1, 3⟩, none, 0⟩
      cached := .empty fun _ => 0
      enqueued := [] }
  sends := ⟨fun _ => ⟨fun _ => 0, 0, 0, 0, 0⟩, 0, []⟩

/-- An acknowledgement of the client. -/
def offloadedAck : List Byte :=
  headers (0xC0A80002, 40000) (VIRTUAL_IP, VIRTUAL_PORT) 1000 5000 TCP_ACK_FLAG 40

/-- A response of the backend, with padding. -/
def offloadedResponse : List Byte :=
  headers (0x0A000103, 8083) (0xC0A80002, 40000) 5000 1000 TCP_ACK_FLAG 42 ++ [1, 2, 0, 0]

theorem holds_ofBytes {pkt : List Byte} (h : pkt.length < 65536) : Holds (.ofBytes pkt) pkt := by
  refine ⟨Nat.mod_eq_of_lt h, fun i hi => ?_⟩
  have hw := Mem.write_inside (m := fun _ => 0) (o := 0) hi
  rw [Nat.zero_add] at hw
  rw [toMem_lt hi]
  exact hw

theorem offloaded_toward : Toward offloadedProc.shared offloadedClient 3 :=
  ⟨0, by decide +kernel, .inr rfl, rfl⟩

theorem offloaded_dip (b : Client)
    (h : offloadedTables.dip_lookup_table (ntohl b.addr) (ntohs b.port) = true) :
    offloadedProc.shared.find b = none := by
  have hb : b ≠ offloadedClient := by
    rintro rfl
    exact absurd h (by decide +kernel)
  have hs : b.slot ≠ offloadedClient.slot := fun hs => hb (Client.slot_inj.mp hs)
  unfold Shared.find offloadedProc
  dsimp only
  rw [upd_other _ _ _ hs]

theorem fast_path_same_sample :
    (∃ eport out f, switch standard_externs offloadedTables 1 offloadedAck = some (eport, out) ∧
      (∀ ps, process_pkts ((offloadedRules, ⟨1, 1⟩, .ofBytes offloadedAck) :: ps) offloadedProc =
        process_pkts ps
          (offloadedProc.filled (.forward_inbound_pkt 3 (.ofBytes offloadedAck)) f).bump) ∧
      SameSegment out f ∧ payload_flag (Mbuf.ofBytes offloadedAck).data = false) ∧
    (∃ eport out f, switch standard_externs offloadedTables 1 offloadedResponse =
        some (eport, out) ∧
      (∀ ps, process_pkts ((offloadedRules, ⟨1, 1⟩, .ofBytes offloadedResponse) :: ps)
        offloadedProc = process_pkts ps
          (offloadedProc.filled (.forward_outbound_pkt (.ofBytes offloadedResponse)) f).bump) ∧
      SameSegment out f) := by
  have h₁ : (SwitchIngressParser offloadedAck).isSome := by decide +kernel
  have h₂ : (SwitchIngressParser offloadedResponse).isSome := by decide +kernel
  have hoff : offloadedTables.offload_connection_table (ntohl offloadedClient.addr)
      (ntohs offloadedClient.port) = some 3 := by decide +kernel
  constructor
  · exact (fast_path_same hoff rfl rfl rfl rfl offloaded_dip offloaded_toward
      (Option.some_get h₁).symm (by decide +kernel) (by decide +kernel)
      (holds_ofBytes (by decide +kernel))).1 (by decide +kernel) (by decide +kernel)
  · exact (fast_path_same hoff rfl rfl rfl rfl offloaded_dip offloaded_toward
      (Option.some_get h₂).symm (by decide +kernel) (by decide +kernel)
      (holds_ofBytes (by decide +kernel))).2 (by decide +kernel) (by decide +kernel)

end Miresga.System
