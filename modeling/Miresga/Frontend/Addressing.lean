import Miresga.Frontend.BuilderSpec

/-!
# Frontend — how the builders address a backend

Four builders send to a backend.  `AddressedTo` says of a frame that it carries the server's MAC
address, and its address and port in network byte order, and keeps the client of the packet it was
built from; the ports are read where the frame's own IPv4 header length puts them.

Three of the four convert the server's address and port with `htonl` and `htons`; `send_rst_pkt`
stores them as the host holds them, so its frame goes astray unless both read the same in either
order (`alike_iff`).
-/

namespace Miresga.Frontend

variable {rc : RuleController} {d : Byte} {r b f : Mbuf} {server : ServerInfo} {m : Mem} {n : Nat}

/-- `f` goes to `server` and comes from the client of the packet `m`. -/
structure AddressedTo (server : ServerInfo) (m : Mem) (f : Mem) : Prop where
  mac : f.bytes 0 6 = server.mac.toList
  ip : dst_addr f = htonl server.ip
  port : f.ld16 (tcp_at f + 2) = htons server.port
  client_ip : src_addr f = src_addr m
  client_port : f.ld16 (tcp_at f) = m.ld16 (tcp_at m)

/-- A received frame of type IPv4 and protocol TCP that holds both headers in full. -/
structure TcpFrame (r : Mbuf) : Prop where
  isTcp : isTcp r.data
  ihl : 5 ≤ ihl r.data
  whole : tcp_at r.data + 20 ≤ r.data_len.toNat

/-- The call returns, whatever the send buffer held, a frame addressed to `server`. -/
def Call.Addresses (rc : RuleController) (server : ServerInfo) (m : Mem) (c : Call) : Prop :=
  ∀ b, ∃ f, c.build rc b = some (.OK, f) ∧ AddressedTo server m f.data

/-- The four builders address `server` alike for the received frame `r`, which `send_cached_pkt`
finds copied. -/
structure Alike (rc : RuleController) (d : Byte) (server : ServerInfo) (r : Mbuf) : Prop where
  forward_inbound_pkt : (Call.forward_inbound_pkt d r).Addresses rc server r.data
  send_syn_pkt : (Call.send_syn_pkt d r).Addresses rc server r.data
  send_cached_pkt : (Call.send_cached_pkt d r.data r.data_len.toNat).Addresses rc server r.data
  send_rst_pkt : (Call.send_rst_pkt d r).Addresses rc server r.data

/-- The server's address and port read the same in either byte order. -/
def Palindromic (server : ServerInfo) : Prop :=
  bswap32 server.ip = server.ip ∧ bswap16 server.port = server.port

/-- The packet has no IPv4 options; or the words in their place, which the builders take for the
ports, agree with the packet's own, and the port is already the server's. -/
def PortsInPlace (server : ServerInfo) (m : Mem) : Prop :=
  ihl m = 5 ∨
    (m.ld16 34 = m.ld16 (tcp_at m) ∧ m.ld16 (tcp_at m + 2) = htons server.port ∧
      (tcp_at m = 50 → m.ld16 50 = 0))

/-! ### Frames that carry the packet -/

/-- A copied packet under the server's MAC address, its own destination and zero checksums. -/
structure Carried (server : ServerInfo) (m : Mem) (n : Nat) (f : Mbuf) : Prop
    extends SentTo server m n f where
  mac : f.data.bytes 0 6 = server.mac.toList
  cksum : cksum f.data = 0

/-- The destination MAC address, once the stores behind it are made. -/
theorem bytes_mac {m : Mem} {mac : Vector Byte 6} (w : Mem)
    (h : ∀ i, i < 6 → m i = w.write 0 mac.toList i) : m.bytes 0 6 = mac.toList := by
  refine List.ext_getElem (by simp) fun i h₁ h₂ => ?_
  have hi : i < 6 := by simpa using h₁
  rw [Mem.getElem_bytes, Nat.zero_add, h i hi]
  conv_lhs => rw [← Nat.zero_add i]
  exact Mem.write_inside h₂

theorem forward_inbound_carried (hs : rc.lookup_backend_server_info d = some server) :
    ∃ f, forward_inbound_pkt rc d r b = some (.OK, f) ∧
      Carried server r.data r.data_len.toNat f := by
  have hm := server.mac.length_toList
  refine ⟨_, by rw [forward_inbound_pkt, hs], ?_, ?_, ?_⟩
  · exact .of_stores local_mac_length hm (by omega) (by omega) rfl
  · refine bytes_mac ((b.data.copy r.data r.data_len.toNat).write 6 local_mac) fun i hi => ?_
    dsimp only
    rw [Mem.st16_outside _ (by omega), Mem.st16_outside _ (by omega), Mem.st16_outside _ (by omega),
      Mem.st32_outside _ (by omega)]
  · exact Mem.ld16_st16 _ _ _

theorem send_cached_carried (hs : rc.lookup_backend_server_info d = some server) :
    ∃ f, send_cached_pkt rc d m n b = some (.OK, f) ∧ Carried server m n f := by
  have hm := server.mac.length_toList
  refine ⟨_, by rw [send_cached_pkt, hs], ?_, ?_, ?_⟩
  · exact .of_stores hm local_mac_length (by omega) (by omega) rfl
  · refine bytes_mac (b.data.copy m n) fun i hi => ?_
    dsimp only
    rw [Mem.st16_outside _ (by omega), Mem.st16_outside _ (by omega), Mem.st16_outside _ (by omega),
      Mem.st32_outside _ (by omega), Mem.write_outside _ (by omega)]
  · exact Mem.ld16_st16 _ _ _

namespace Carried

variable (h : Carried server m n f) (hn : tcp_at m + 20 ≤ n) (h5 : 5 ≤ ihl m)

include h hn h5

theorem tcp_at_eq : tcp_at f.data = tcp_at m := by
  have : version_ihl f.data = version_ihl m :=
    h.rest 14 (by unfold tcp_at at hn; omega) (by simp [LinkByte]) (by omega) (by omega)
  rw [tcp_at, ihl, this]
  rfl

/-- The source port the client's TCP header names: kept, unless it stands where the checksum of a
header without options would. -/
theorem client_port : f.data.ld16 (tcp_at m) = m.ld16 (tcp_at m) ↔
    (tcp_at m = 50 → m.ld16 50 = 0) := by
  have ho : tcp_at m = 14 + 4 * ihl m := rfl
  by_cases h50 : tcp_at m = 50
  · rw [h50]
    refine ⟨fun e _ => ?_, fun e => ?_⟩
    · rw [← e]
      exact h.cksum
    · rw [e rfl]
      exact h.cksum
  · refine iff_of_true (Mem.ld16_congr fun i hi hi' => ?_) fun e => absurd e h50
    exact h.rest i (by omega) (by unfold LinkByte; omega) (by omega) (by omega)

/-- The destination port: set by the builder when there are no options, else the packet's own. -/
theorem port : f.data.ld16 (tcp_at m + 2) = htons server.port ↔
    ihl m = 5 ∨ m.ld16 (tcp_at m + 2) = htons server.port := by
  have ho : tcp_at m = 14 + 4 * ihl m := rfl
  by_cases hi5 : ihl m = 5
  · rw [ho, hi5]
    exact iff_of_true h.dst_port (.inl rfl)
  · have : f.data.ld16 (tcp_at m + 2) = m.ld16 (tcp_at m + 2) :=
      Mem.ld16_congr fun i hi hi' =>
        h.rest i (by omega) (by unfold LinkByte; omega) (by omega) (by omega)
    rw [this, or_iff_right hi5]

/-- The frame is addressed to the server exactly when its ports are where the builder writes. -/
theorem addressed_iff : AddressedTo server m f.data ↔
    (ihl m = 5 ∨ m.ld16 (tcp_at m + 2) = htons server.port) ∧
      (tcp_at m = 50 → m.ld16 50 = 0) := by
  have ho : tcp_at m = 14 + 4 * ihl m := rfl
  have ht := h.tcp_at_eq hn h5
  rw [← h.port hn h5, ← h.client_port hn h5]
  constructor
  · rintro ⟨-, -, hp, -, hc⟩
    rw [ht] at hp hc
    exact ⟨hp, hc⟩
  · rintro ⟨hp, hc⟩
    exact ⟨h.mac, h.dst_addr, ht ▸ hp, h.toSentTo.src_addr (by omega), ht ▸ hc⟩

end Carried

/-! ### Frames built anew -/

/-- `5 + (version_ihl & 0xf0)` says that there are no options. -/
theorem ihl5_and (b : Byte) : ihl5 b &&& 0x0f = 5 := by
  have hd : (5 : Byte) &&& (b &&& 0xf0) = 0#8 := by
    rw [BitVec.and_comm, BitVec.and_assoc]
    exact BitVec.and_zero
  rw [ihl5, BitVec.add_eq_or_of_and_eq_zero _ _ hd, BitVec.and_or_distrib_right, BitVec.and_assoc]
  exact (congrArg _ BitVec.and_zero).trans rfl

theorem tcp_at_ihl5 {m : Mem} {b : Byte} (h : version_ihl m = ihl5 b) : tcp_at m = 34 := by
  rw [tcp_at, ihl, h, ihl5_and]
  rfl

/-- The frame names the server, and the client by the words a header without options has. -/
structure Opened (server : ServerInfo) (m : Mem) (f : Mbuf) : Prop where
  no_options : tcp_at f.data = 34
  mac : f.data.bytes 0 6 = server.mac.toList
  client_ip : src_addr f.data = src_addr m
  client_port : src_port f.data = src_port m

theorem Opened.addressed_iff (h : Opened server m f) : AddressedTo server m f.data ↔
    dst_addr f.data = htonl server.ip ∧ dst_port f.data = htons server.port ∧
      m.ld16 34 = m.ld16 (tcp_at m) := by
  have hc : f.data.ld16 34 = m.ld16 34 := h.client_port
  constructor
  · rintro ⟨-, hi, hp, -, hc'⟩
    rw [h.no_options] at hp hc'
    exact ⟨hi, hp, hc.symm.trans hc'⟩
  · rintro ⟨hi, hp, he⟩
    refine ⟨h.mac, hi, ?_, h.client_ip, ?_⟩
    · rw [h.no_options]
      exact hp
    · rw [h.no_options, hc, he]

theorem send_syn_opened (hs : rc.lookup_backend_server_info d = some server) :
    ∃ f, send_syn_pkt rc d r b = some (.OK, f) ∧ Opened server r.data f ∧
      SynOf server r.data f := by
  have hm := server.mac.length_toList
  have ho : option_char.length = 12 := rfl
  obtain ⟨f, hf⟩ : ∃ f, send_syn_pkt rc d r b = some (.OK, f) := ⟨_, by rw [send_syn_pkt, hs]⟩
  obtain ⟨server', hs', hsyn⟩ := send_syn_synOf hf
  obtain rfl : server = server' := Option.some.inj (hs.symm.trans hs')
  obtain ⟨server', v, hs', hdata⟩ := send_syn_image hf
  obtain rfl : server = server' := Option.some.inj (hs.symm.trans hs')
  refine ⟨f, hf, ⟨?_, ?_, hsyn.src_addr, hsyn.src_port⟩, hsyn⟩
  · refine tcp_at_ihl5 (b := v) ?_
    rw [hdata, version_ihl_syn_image]
  · refine bytes_mac (b.data.copy r.data 66) fun i hi => ?_
    rw [hdata, syn_image_front _ _ _ _ _ (by omega), syn_front, Mem.st8_outside _ (by omega),
      Mem.st8_outside _ (by omega), Mem.st16_outside _ (by omega), Mem.st16_outside _ (by omega),
      Mem.st16_outside _ (by omega), Mem.st8_outside _ (by omega), Mem.st32_outside _ (by omega)]

theorem send_rst_opened (hs : rc.lookup_backend_server_info d = some server) :
    ∃ f, send_rst_pkt rc d r b = some (.OK, f) ∧ Opened server r.data f ∧
      dst_addr f.data = server.ip ∧ dst_port f.data = server.port := by
  have hm := server.mac.length_toList
  have hl : local_mac.length = 6 := rfl
  refine ⟨_, by rw [send_rst_pkt, hs], ⟨?_, ?_, ?_, ?_⟩, ?_, ?_⟩
  · refine tcp_at_ihl5 (b := ((((b.data.copy r.data 54).write 0 server.mac.toList).write 6
      local_mac).st32 30 server.ip) 14) ?_
    simp (disch := omega) only [version_ihl, Mem.st16_outside, Mem.st8_outside, Mem.st8_same]
  · refine bytes_mac (b.data.copy r.data 54) fun i hi => ?_
    simp (disch := omega) only [Mem.write_outside (o := 6), Mem.st16_outside, Mem.st32_outside,
      Mem.st8_outside]
  · simp (disch := omega) only [src_addr, Mem.ld32_st8_ne,
      Mem.ld32_st16_ne, Mem.ld32_st32_ne, Mem.ld32_write_ne, Mem.ld32_copy]
  · simp (disch := omega) only [src_port, Mem.ld16_st8_ne,
      Mem.ld16_st16_ne, Mem.ld16_st32_ne, Mem.ld16_write_ne, Mem.ld16_copy]
  · simp (disch := omega) only [dst_addr, Mem.ld32_st8_ne, Mem.ld32_st16_ne, Mem.ld32_st32]
  · simp (disch := omega) only [dst_port, Mem.ld16_st8_ne, Mem.ld16_st16_ne, Mem.ld16_st16]

/-! ### The four together -/

/-- **When the builders address a backend alike.**  For every received TCP frame and every index
with a server, the four frames carry the server's MAC address, address and port in network byte
order and the client's, exactly when the server's address and port read the same in either byte
order and the frame's ports are where the builders look for them. -/
theorem alike_iff (hs : rc.lookup_backend_server_info d = some server) (hr : TcpFrame r) :
    Alike rc d server r ↔ Palindromic server ∧ PortsInPlace server r.data := by
  obtain ⟨-, h5, hw⟩ := hr
  have ho : tcp_at r.data = 14 + 4 * ihl r.data := rfl
  constructor
  · rintro ⟨hf, -, -, hr⟩
    obtain ⟨f, he, hf⟩ := hf r
    obtain ⟨f', he', hc⟩ := forward_inbound_carried (b := r) (r := r) hs
    obtain rfl : f = f' := by
      rw [Call.build, he'] at he
      cases he
      rfl
    obtain ⟨hp, hz⟩ := (hc.addressed_iff hw h5).mp hf
    obtain ⟨g, he, hg⟩ := hr r
    obtain ⟨g', he', hc, hip, hport⟩ := send_rst_opened (b := r) (r := r) hs
    obtain rfl : g = g' := by
      rw [Call.build, he'] at he
      cases he
      rfl
    obtain ⟨hi, hp', hsrc⟩ := hc.addressed_iff.mp hg
    refine ⟨⟨hi.symm.trans hip, hp'.symm.trans hport⟩, hp.imp_right fun hp => ⟨hsrc, hp, hz⟩⟩
  · rintro ⟨⟨hip, hport⟩, hp⟩
    have hcond : (ihl r.data = 5 ∨ r.data.ld16 (tcp_at r.data + 2) = htons server.port) ∧
        (tcp_at r.data = 50 → r.data.ld16 50 = 0) :=
      ⟨hp.imp_right fun h => h.2.1, fun e => hp.elim (by omega) fun h => h.2.2 e⟩
    have hsrc : r.data.ld16 34 = r.data.ld16 (tcp_at r.data) := by
      rcases hp with hp | hp
      · rw [ho, hp]
      · exact hp.1
    refine ⟨fun b => ?_, fun b => ?_, fun b => ?_, fun b => ?_⟩
    · obtain ⟨f, he, hc⟩ := forward_inbound_carried (b := b) (r := r) hs
      exact ⟨f, he, (hc.addressed_iff hw h5).mpr hcond⟩
    · obtain ⟨f, he, hc, hsyn⟩ := send_syn_opened (b := b) (r := r) hs
      exact ⟨f, he, hc.addressed_iff.mpr ⟨hsyn.dst_addr, hsyn.dst_port, hsrc⟩⟩
    · obtain ⟨f, he, hc⟩ := send_cached_carried (b := b) (m := r.data) (n := r.data_len.toNat) hs
      exact ⟨f, he, (hc.addressed_iff hw h5).mpr hcond⟩
    · obtain ⟨f, he, hc, hd, hd'⟩ := send_rst_opened (b := b) (r := r) hs
      exact ⟨f, he, hc.addressed_iff.mpr ⟨hd.trans hip.symm, hd'.trans hport.symm, hsrc⟩⟩

/-- A request of 192.168.0.7:40000 to the virtual address. -/
def addressedSample : Mbuf :=
  .ofBytes (headers (0xc0a80007, 40000) (0x0a000001, 80) 1000 2000 TCP_ACK_FLAG 40)

/-- Index 1 is the server given. -/
def addressedRules (server : ServerInfo) : RuleController :=
  { rule_map := fun _ => none
    d_index_map := fun d => if d = 1 then some server else none
    virtual_server_info := ⟨Vector.replicate 6 0, 0x0a000001, 80⟩ }

/-- 10.0.0.10, port 20560 (`0x5050`). -/
def palindromicServer : ServerInfo := ⟨sampleMac 1, 0x0a00000a, 0x5050⟩

/-- 10.0.1.1, port 8081. -/
def plainServer : ServerInfo := ⟨sampleMac 1, 0x0a000101, 8081⟩

theorem addressedSample_tcp : TcpFrame addressedSample :=
  ⟨by decide +kernel, by decide +kernel, by decide +kernel⟩

theorem alike_palindromic :
    Alike (addressedRules palindromicServer) 1 palindromicServer addressedSample :=
  (alike_iff rfl addressedSample_tcp).mpr
    ⟨⟨by decide +kernel, by decide +kernel⟩, .inl (by decide +kernel)⟩

/-- For an ordinary server the RST carries 1.1.0.10, port 37151, and not the server's address. -/
theorem plain_server_not_alike : TcpFrame addressedSample ∧
    (addressedRules plainServer).lookup_backend_server_info 1 = some plainServer ∧
    ¬ Alike (addressedRules plainServer) 1 plainServer addressedSample := by
  refine ⟨addressedSample_tcp, rfl, fun h => ?_⟩
  obtain ⟨f, he, hf⟩ := h.send_rst_pkt addressedSample
  have hip : dst_addr f.data = plainServer.ip := by
    cases he
    decide +kernel
  rw [hf.ip] at hip
  exact absurd hip (by decide)

end Miresga.Frontend
