import Miresga.Switch.Parsing
import Miresga.Wire

/-!
# Switch — from ingress to the wire

Two parsers and two deparsers list the headers separately.

* `relayed_iff_untagged`: for an IPv4 frame that goes on to egress, the egress parser reads back
  what ingress held and the whole frame is emitted again, MAC addresses, addresses, ports and
  checksums apart, exactly when the frame is untagged.  Neither deparser emits `vlan_tag`, so the
  egress parser takes the first bytes of the IPv4 header of a tagged frame for the tag.
* `on_wire_iff`: what leaves the switch starts with the Ethernet header exactly when the frame goes
  through egress or is dropped.  The ingress deparser always emits the bridge header, which only the
  egress parser takes off again.
-/

namespace Miresga.Switch

open Ingress

variable {X : Externs} {T : Tables} {port : BitVec 9} {hdr : Header} {pkt rest : List Byte}

/-! ### Ingress, whatever the frame -/

section ingress

variable (X : Externs) (T : Tables) (port : BitVec 9)

/-- Ingress changes the MAC addresses of a frame that is not ARP, and no other header. -/
theorem ingress_hdr (harp : hdr.arp = none) : SameButMac hdr (SwitchIngress X T port hdr).hdr := by
  have hc : ((init hdr).classify X T port).hdr = hdr := by
    unfold classify
    dsimp only [init]
    rw [harp]
    dsimp only
    split
    next ipv4 tcp h4 ht => exact (tcp_tables_init (X := X) (T := T) hdr ipv4 tcp).hdr
    · split <;> rfl
  have hr := route_hdr T port (((init hdr).classify X T port).mark
    (hdr.flag (·.syn)) (hdr.flag (·.fin)) (hdr.flag (·.rst)))
  rwa [(mark_rest _ _ _ _).1, hc] at hr

/-- Routing and marking neither drop a frame nor let it bypass egress. -/
theorem ingress_exit (hdr : Header) : (SwitchIngress X T port hdr).drop_ctl =
      ((init hdr).classify X T port).drop_ctl ∧
    (SwitchIngress X T port hdr).bypass_egress =
      ((init hdr).classify X T port).bypass_egress := by
  obtain ⟨-, hd, hb, -⟩ := mark_rest ((init hdr).classify X T port) (hdr.flag (·.syn))
    (hdr.flag (·.fin)) (hdr.flag (·.rst))
  exact ⟨(route_drop _).trans hd, (route_bypass _).trans hb⟩

/-- A frame without direction is marked to be forwarded by its destination. -/
theorem ingress_plain (hd : ((init hdr).classify X T port).direction = 0)
    (hb : ((init hdr).classify X T port).bridged = (init hdr).bridged) :
    (SwitchIngress X T port hdr).bridged = ⟨0, 0, 0, 0, 1, 0, 0, 1, 0⟩ := by
  rw [ingress_bridged]
  obtain ⟨b, hm, hcases⟩ := mark_marked ((init hdr).classify X T port) (hdr.flag (·.syn))
    (hdr.flag (·.fin)) (hdr.flag (·.rst))
  rw [hm]
  cases hcases with
  | to_dest =>
      rw [hb]
      rfl
  | unmarked h => exact absurd hd h
  | to_cpu h | respond h | client_lb h | to_backend h | backend_lb h | to_client h =>
      exact absurd (hd.symm.trans h) (by decide)

/-- A frame that leaves as the ingress deparser emits it. -/
structure Bypasses (s : Ingress) : Prop where
  drop_ctl : s.drop_ctl = 0
  bypass_egress : s.bypass_egress = 1
  bridged : s.bridged = ⟨0, 0, 0, 0, 1, 0, 0, 1, 0⟩

theorem ingress_udp {udp : Udp} (ha : hdr.arp = none) (ht : hdr.tcp = none)
    (hu : hdr.udp = some udp) : Bypasses (SwitchIngress X T port hdr) := by
  have hc : (init hdr).classify X T port = { init hdr with bypass_egress := 1 } := by
    unfold classify
    dsimp only [init]
    rw [ha, ht, hu]
    cases hdr.ipv4 <;> rfl
  have hp : (SwitchIngress X T port hdr).bridged = ⟨0, 0, 0, 0, 1, 0, 0, 1, 0⟩ :=
    ingress_plain X T port (by rw [hc]; rfl) (by rw [hc])
  obtain ⟨hd, hb⟩ := ingress_exit X T port hdr
  rw [hc] at hd hb
  exact ⟨hd, hb, hp⟩

/-- An ARP frame is answered past egress, or dropped. -/
theorem ingress_arp {arp : Arp} (ha : hdr.arp = some arp) :
    (T.arp_table arp.opcode arp.target_proto_addr ≠ none →
      Bypasses (SwitchIngress X T port hdr)) ∧
    (T.arp_table arp.opcode arp.target_proto_addr = none →
      (SwitchIngress X T port hdr).drop_ctl = 1) := by
  have hc : (init hdr).classify X T port =
      { (init hdr).arp_table T port arp with bypass_egress := 1 } := by
    unfold classify
    dsimp only [init]
    rw [ha]
  obtain ⟨hd, hb⟩ := ingress_exit X T port hdr
  rw [hc] at hd hb
  cases h : T.arp_table arp.opcode arp.target_proto_addr with
  | none =>
      refine ⟨fun h => absurd rfl h, fun _ => ?_⟩
      rw [hd, arp_table, h]
  | some mac =>
      have hs : (init hdr).arp_table T port arp = (init hdr).reply_arp port mac arp := by
        rw [arp_table, h]
      refine ⟨fun _ => ⟨?_, hb, ingress_plain X T port ?_ ?_⟩, nofun⟩
      · rw [hd, hs]
        rfl
      · rw [hc, hs]
        rfl
      · rw [hc, hs]
        rfl

/-- A frame that is neither ARP nor UDP goes on to egress. -/
theorem ingress_onward (ha : hdr.arp = none) (hu : hdr.udp = none) :
    (SwitchIngress X T port hdr).drop_ctl = 0 ∧
      (SwitchIngress X T port hdr).bypass_egress = 0 := by
  obtain ⟨hd, hb⟩ := ingress_exit X T port hdr
  rw [hd, hb]
  unfold classify
  dsimp only [init]
  rw [ha, hu]
  dsimp only
  split
  next ipv4 tcp h4 ht =>
    have hcl := tcp_tables_init (X := X) (T := T) hdr ipv4 tcp
    exact ⟨hcl.drop_ctl, hcl.bypass_egress⟩
  · exact ⟨rfl, rfl⟩

end ingress

/-! ### Bytes behind the type field -/

/-- What ingress emits for a frame whose headers differ from the received ones in the MAC addresses
at most: the bridge header, the Ethernet header, and what stood behind the last type field. -/
theorem Parsed.deparsed {e : Ethernet} {v : Option VlanTag} {type : BitVec 16} {l : List Byte}
    (h : Parsed (link_headers e v) type hdr l) {s : Ingress} (hs : SameButMac hdr s.hdr)
    (rest : List Byte) :
    ∃ e', e'.ether_type = e.ether_type ∧ s.hdr = { hdr with ethernet := some e' } ∧
      SwitchIngressDeparser s rest =
        bridge_h.emit s.bridged ++ (ethernet_h.emit e' ++ (l ++ rest)) := by
  obtain ⟨f, hf, hs⟩ := hs
  rw [h.link.1] at hs
  refine ⟨f e, hf e, hs, ?_⟩
  rw [ingress_deparser_eq (by rw [hs]; rfl)]
  congr 2
  unfold Ingress.behind
  rw [hs]
  cases h <;> simp [emit, link_headers]

/-- The headers in the order of the wire. -/
def Header.bytes (hdr : Header) : List Byte :=
  emit ethernet_h hdr.ethernet ++ (emit vlan_tag_h hdr.vlan_tag ++ (emit arp_h hdr.arp ++
    (emit ipv4_h hdr.ipv4 ++ (emit tcp_h hdr.tcp ++ emit udp_h hdr.udp))))

/-- The fields of an IPv4 header that no rewrite touches. -/
def Ipv4.kept (h : Ipv4) : Ipv4 := { h with hdr_checksum := 0, src_addr := 0, dst_addr := 0 }

/-- The fields of a TCP header that no rewrite touches. -/
def Tcp.kept (h : Tcp) : Tcp := { h with src_port := 0, dst_port := 0, checksum := 0 }

/-- The same headers, with other MAC addresses, addresses, ports and checksums. -/
structure Rewritten (hdr hdr' : Header) : Prop where
  ethernet : hdr'.ethernet.map Ethernet.ether_type = hdr.ethernet.map Ethernet.ether_type
  vlan_tag : hdr'.vlan_tag = hdr.vlan_tag
  arp : hdr'.arp = hdr.arp
  ipv4 : hdr'.ipv4.map Ipv4.kept = hdr.ipv4.map Ipv4.kept
  tcp : hdr'.tcp.map Tcp.kept = hdr.tcp.map Tcp.kept
  udp : hdr'.udp = hdr.udp

/-- The egress parser reads back what ingress, `s`, held, and the frame leaves with all its headers
and with the bytes behind them. -/
structure Relayed (X : Externs) (T : Tables) (port : BitVec 9) (pkt : List Byte) (hdr : Header)
    (rest : List Byte) (s : Ingress) : Prop where
  reparsed : ∃ g r, SwitchEgressParser X (SwitchIngressDeparser s rest) = some (g, r) ∧
    g.bridged = s.bridged ∧ g.hdr.ethernet = s.hdr.ethernet ∧ g.hdr.vlan_tag = s.hdr.vlan_tag ∧
    g.hdr.ipv4 = s.hdr.ipv4 ∧ g.hdr.tcp = s.hdr.tcp
  wire : ∃ hdr', Rewritten hdr hdr' ∧
    switch X T port pkt = some (s.ucast_egress_port, hdr'.bytes ++ rest)

theorem length_emit_map {α β : Type} (F : Format α) (f : α → β) {x y : Option α}
    (h : x.map f = y.map f) : (emit F x).length = (emit F y).length := by
  cases x <;> cases y
  · rfl
  · cases h
  · cases h
  · exact (F.length_emit _).trans (F.length_emit _).symm

theorem Rewritten.length {hdr' : Header} (h : Rewritten hdr hdr') :
    hdr'.bytes.length = hdr.bytes.length := by
  simp only [Header.bytes, List.length_append, length_emit_map _ _ h.ethernet, h.vlan_tag, h.arp,
    length_emit_map _ _ h.ipv4, length_emit_map _ _ h.tcp, h.udp]

/-- Of a parsed frame nothing is lost. -/
theorem Parsed.bytes {e : Ethernet} {v : Option VlanTag} {type : BitVec 16} {l : List Byte}
    (h : Parsed (link_headers e v) type hdr l) :
    hdr.bytes = ethernet_h.emit e ++ (emit vlan_tag_h v ++ l) := by
  cases h <;> simp [Header.bytes, emit, link_headers]

/-! ### Untagged frames -/

theorem rewrite_kept (T : Tables) (b : Bridge) (ipv4 : Ipv4) (tcp : Tcp) :
    (rewrite T b ipv4 tcp).1.kept = ipv4.kept ∧ (rewrite T b ipv4 tcp).2.kept = tcp.kept := by
  unfold rewrite
  by_cases hd : b.d_flag = 1
  · rw [if_pos hd]
    cases T.d_index_to_ip_port_table b.index <;> exact ⟨rfl, rfl⟩
  · rw [if_neg hd]
    split <;> exact ⟨rfl, rfl⟩

/-- The egress parser on a frame without transport header. -/
theorem egress_parser_ipv4 (X : Externs) (b : Bridge) (rest : List Byte) {e : Ethernet}
    {ipv4 : Ipv4} (he : e.ether_type = ETHERTYPE_IPV4)
    (ht : ¬ (ipv4.protocol = IP_PROTOCOLS_TCP ∧ ipv4.frag_offset = 0))
    (hu : ¬ (ipv4.protocol = IP_PROTOCOLS_UDP ∧ ipv4.frag_offset = 0)) :
    SwitchEgressParser X (bridge_h.emit b ++ (ethernet_h.emit e ++ (ipv4_h.emit ipv4 ++ rest))) =
      some (⟨{ link_headers e none with ipv4 := some ipv4 }, b, 0⟩, rest) := by
  unfold SwitchEgressParser Egress.parse_ipv4
  simp only [Format.extract_emit, Option.bind_some, he]
  rw [if_neg (by decide), if_pos trivial, if_neg ht, if_neg hu]
  rfl

section untagged

variable {e : Ethernet} {ipv4 : Ipv4} {s : Ingress}

theorem relayed_tcp {tcp : Tcp} (he : e.ether_type = ETHERTYPE_IPV4)
    (hp : ipv4.protocol = IP_PROTOCOLS_TCP) (hf : ipv4.frag_offset = 0)
    (hs : s.hdr = tcp_headers e ipv4 tcp) (hsyn : s.bridged.syn_respond = 0)
    (hdep : SwitchIngressDeparser s rest = bridge_h.emit s.bridged ++ tcp_frame e ipv4 tcp rest)
    (hsw : switch X T port pkt = (egress X T (SwitchIngressDeparser s rest)).map
      fun pkt => (s.ucast_egress_port, pkt)) {e₀ : Ethernet}
    (he₀ : e.ether_type = e₀.ether_type) :
    Relayed X T port pkt (tcp_headers e₀ ipv4 tcp) rest s := by
  obtain ⟨c₁, c₂, heg⟩ := egress_tcp X T tcp rest hsyn he hp hf
  obtain ⟨k₁, k₂⟩ := rewrite_kept T s.bridged ipv4 tcp
  refine ⟨⟨_, rest, by rw [hdep]; exact egress_parser_tcp (by rw [hsyn]; decide) he hp hf, rfl, ?_⟩,
    tcp_headers e { (rewrite T s.bridged ipv4 tcp).1 with hdr_checksum := c₁ }
      { (rewrite T s.bridged ipv4 tcp).2 with checksum := c₂ },
    ⟨congrArg some he₀, rfl, rfl, congrArg some k₁, congrArg some k₂, rfl⟩, ?_⟩
  · rw [hs]
    exact ⟨rfl, rfl, rfl, rfl⟩
  · rw [hsw, hdep, heg]
    simp [Header.bytes, tcp_headers, tcp_frame, emit]

theorem relayed_ipv4 (he : e.ether_type = ETHERTYPE_IPV4)
    (ht : ¬ (ipv4.protocol = IP_PROTOCOLS_TCP ∧ ipv4.frag_offset = 0))
    (hu : ¬ (ipv4.protocol = IP_PROTOCOLS_UDP ∧ ipv4.frag_offset = 0))
    (hs : s.hdr = { link_headers e none with ipv4 := some ipv4 })
    (hdep : SwitchIngressDeparser s rest =
      bridge_h.emit s.bridged ++ (ethernet_h.emit e ++ (ipv4_h.emit ipv4 ++ rest)))
    (hsw : switch X T port pkt = (egress X T (SwitchIngressDeparser s rest)).map
      fun pkt => (s.ucast_egress_port, pkt)) {e₀ : Ethernet}
    (he₀ : e.ether_type = e₀.ether_type) :
    Relayed X T port pkt { link_headers e₀ none with ipv4 := some ipv4 } rest s := by
  have hparse := egress_parser_ipv4 X s.bridged rest he ht hu
  refine ⟨⟨_, rest, by rw [hdep]; exact hparse, rfl, ?_⟩,
    { link_headers e none with ipv4 := some { ipv4 with hdr_checksum := X.update ipv4.summed } },
    ⟨congrArg some he₀, rfl, rfl, rfl, rfl, rfl⟩, ?_⟩
  · rw [hs]
    exact ⟨rfl, rfl, rfl, rfl⟩
  · rw [hsw, hdep, egress, hparse]
    simp [SwitchEgress, SwitchEgressDeparser, update_checksums, Header.bytes, link_headers, emit]

end untagged

/-- **Ingress deparser and egress parser agree on untagged frames.**  For every IPv4 frame that the
ingress parser accepts and that ingress sends on to egress, SYNs that are answered apart: the egress
parser reads back what ingress held and the frame leaves with everything it had, MAC addresses,
addresses, ports and checksums apart, exactly when it has no tag. -/
theorem relayed_iff_untagged (hparse : SwitchIngressParser pkt = some (hdr, rest))
    (hip : hdr.ipv4 ≠ none) (hd : (SwitchIngress X T port hdr).drop_ctl = 0)
    (hb : (SwitchIngress X T port hdr).bypass_egress = 0)
    (hsyn : (SwitchIngress X T port hdr).bridged.syn_respond = 0) :
    Relayed X T port pkt hdr rest (SwitchIngress X T port hdr) ↔
      (toMem pkt).nb16 12 ≠ ETHERTYPE_VLAN := by
  obtain ⟨e, v, l, hv, hl, hpkt⟩ := ingress_parser_cases hparse
  have harp : hdr.arp = none := hl.arp_or.resolve_right fun h => hip h.1
  obtain ⟨e', he', hs, hdep⟩ := hl.deparsed (ingress_hdr X T port harp) rest
  have hsw := switch_eq hparse rfl hd hb
  have htype : (toMem pkt).nb16 12 = e.ether_type := by
    rw [hpkt]
    exact nb16_type _ _
  rw [htype]
  constructor
  · -- a tag is emitted by neither deparser, and a second one is taken off by the egress parser
    rintro ⟨-, hdr', hr, hout⟩ hvlan
    rw [hsw, hdep] at hout
    obtain ⟨out, heg, heq⟩ := Option.map_eq_some_iff.mp hout
    obtain ⟨-, rfl⟩ := Prod.mk.inj heq
    have hlen := egress_length hsyn heg
    rw [he', hvlan, List.length_append, hr.length, hl.bytes] at hlen
    simp only [List.length_append, ethernet_h.length_emit] at hlen
    have h₁ : Egress.untag ETHERTYPE_VLAN = 4 := rfl
    have h₂ : ethernet_h.size = 14 := rfl
    omega
  · intro hvlan
    obtain rfl : v = none := not_not.mp fun hn => hvlan (hv.mpr hn)
    generalize htp : last_type e none = type at hl
    cases hl with
    | arp => exact absurd rfl hip
    | other => exact absurd rfl hip
    | udp ipv4 udp =>
        have := (ingress_udp X T port harp rfl rfl).bypass_egress
        exact absurd (hb.symm.trans this) (by decide)
    | tcp ipv4 tcp hp hf =>
        rw [List.append_assoc] at hdep
        exact relayed_tcp (he'.trans htp) hp hf hs hsyn hdep hsw he'
    | ipv4 ipv4 ht hu => exact relayed_ipv4 (he'.trans htp) ht hu hs hdep hsw he'

/-- A segment that the switch forwards by its destination, with two bytes of payload. -/
def plainFrame : List Byte :=
  headers (0xC0A80002, 40000) (0xC0A80009, 9000) 1000 5000 TCP_ACK_FLAG 42 ++ [1, 2]

/-- The same segment in VLAN 5. -/
def taggedFrame : List Byte := plainFrame.take 12 ++ [0x81, 0x00, 0x00, 0x05] ++ plainFrame.drop 12

def noTables : Tables where
  arp_table _ _ := none
  dip_lookup_table _ _ := false
  offload_connection_table _ _ := none
  dest_to_egress_port_table _ := none
  d_index_to_egress_port_table _ := none
  lb_index_to_egress_port_table _ := none
  d_index_to_ip_port_table _ := none
  invalid_key := 0

/-- Port 9 leads to 192.168.0.9. -/
def routeTables : Tables :=
  { noTables with
    dest_to_egress_port_table := fun a =>
      if a = 0xC0A80009 then some ⟨0x0202020202fe, 0x020202020209, 9⟩ else none }

/-- What the ingress parser makes of a frame it accepts. -/
def parsedFrame (pkt : List Byte) : Header × List Byte :=
  (SwitchIngressParser pkt).getD (.none_valid, [])

theorem relayed_plainFrame :
    SwitchIngressParser plainFrame = some (parsedFrame plainFrame) ∧
    Relayed standard_externs routeTables 1 plainFrame (parsedFrame plainFrame).1
      (parsedFrame plainFrame).2
      (SwitchIngress standard_externs routeTables 1 (parsedFrame plainFrame).1) := by
  have h : SwitchIngressParser plainFrame = some (parsedFrame plainFrame) := by rfl
  exact ⟨h, (relayed_iff_untagged h (by decide +kernel) (by decide +kernel) (by decide +kernel)
    (by decide +kernel)).mpr (by decide +kernel)⟩

/-- The egress parser takes the first four bytes of the IPv4 header for the tag, and the total
length in them, 42, for a type, which it rejects. -/
theorem taggedFrame_not_relayed :
    SwitchIngressParser taggedFrame = some (parsedFrame taggedFrame) ∧
    (parsedFrame taggedFrame).1.ipv4 ≠ none ∧
    (SwitchIngress standard_externs routeTables 1 (parsedFrame taggedFrame).1).drop_ctl = 0 ∧
    (SwitchIngress standard_externs routeTables 1 (parsedFrame taggedFrame).1).bypass_egress = 0 ∧
    (SwitchIngress standard_externs routeTables 1
      (parsedFrame taggedFrame).1).bridged.syn_respond = 0 ∧
    ¬ Relayed standard_externs routeTables 1 taggedFrame (parsedFrame taggedFrame).1
      (parsedFrame taggedFrame).2
      (SwitchIngress standard_externs routeTables 1 (parsedFrame taggedFrame).1) := by
  have hrej : SwitchEgressParser standard_externs (SwitchIngressDeparser
      (SwitchIngress standard_externs routeTables 1 (parsedFrame taggedFrame).1)
      (parsedFrame taggedFrame).2) = none := by
    refine Option.isNone_iff_eq_none.mp ?_
    decide +kernel
  refine ⟨by rfl, by decide +kernel, by decide +kernel, by decide +kernel, by decide +kernel, ?_⟩
  rintro ⟨⟨g, r, hg, -⟩, -⟩
  rw [hrej] at hg
  cases hg

/-! ### The start of the frame on the wire -/

/-- The frame that leaves the switch, if one does, starts with the Ethernet header that ingress
held for it. -/
def OnWire (X : Externs) (T : Tables) (port : BitVec 9) (pkt : List Byte) : Prop :=
  ∀ q out, switch X T port pkt = some (q, out) →
    ∃ hdr rest e r, SwitchIngressParser pkt = some (hdr, rest) ∧
      (SwitchIngress X T port hdr).hdr.ethernet = some e ∧ out = ethernet_h.emit e ++ r

/-- The frame is a UDP datagram, or an ARP frame that `arp_table` answers. -/
def Unbridged (T : Tables) (pkt : List Byte) : Prop :=
  ∃ hdr rest, SwitchIngressParser pkt = some (hdr, rest) ∧
    (hdr.udp ≠ none ∨
      ∃ arp, hdr.arp = some arp ∧ T.arp_table arp.opcode arp.target_proto_addr ≠ none)

theorem reply_arp_ethernet (s : Ingress) (port : BitVec 9) (mac : BitVec 48) (arp : Arp) :
    (s.reply_arp port mac arp).hdr.ethernet =
      s.hdr.ethernet.map fun e => { e with dst_addr := e.src_addr, src_addr := mac } := by
  unfold reply_arp
  cases s.hdr.ethernet <;> rfl

/-- Ingress leaves an Ethernet header of the received type. -/
theorem ingress_ethernet (X : Externs) (T : Tables) (port : BitVec 9) {e : Ethernet}
    (he : hdr.ethernet = some e) : ∃ e', e'.ether_type = e.ether_type ∧
      (SwitchIngress X T port hdr).hdr.ethernet = some e' := by
  have hc : ∃ e', e'.ether_type = e.ether_type ∧
      ((init hdr).classify X T port).hdr.ethernet = some e' := by
    unfold classify
    dsimp only [init]
    split
    next arp ha =>
      unfold arp_table
      split
      next mac _ =>
        exact ⟨{ e with dst_addr := e.src_addr, src_addr := mac }, rfl,
          (reply_arp_ethernet (init hdr) port mac arp).trans (congrArg (Option.map _) he)⟩
      · exact ⟨e, rfl, he⟩
    · split
      next ipv4 tcp h4 ht =>
        refine ⟨e, rfl, ?_⟩
        rw [← he]
        exact congrArg _ (tcp_tables_init (X := X) (T := T) hdr ipv4 tcp).hdr
      · split <;> exact ⟨e, rfl, he⟩
  obtain ⟨e', ht, he'⟩ := hc
  obtain ⟨f, hf, hr⟩ := route_hdr T port (((init hdr).classify X T port).mark
    (hdr.flag (·.syn)) (hdr.flag (·.fin)) (hdr.flag (·.rst)))
  refine ⟨f e', (hf e').trans ht, (congrArg Header.ethernet hr).trans ?_⟩
  rw [(mark_rest _ _ _ _).1]
  exact congrArg (Option.map f) he'

/-- An Ethernet header behind two bytes stands there again at the start only if its type repeats
the two. -/
theorem type_of_shift {e : Ethernet} {a b : Byte} {x r : List Byte}
    (h : [a, b] ++ (ethernet_h.emit e ++ x) = ethernet_h.emit e ++ r) : e.ether_type = a ++ b := by
  have h14 : (ethernet_h.emit e).length = 14 := ethernet_h.length_emit e
  have hstep : ∀ i, i < 14 → toMem (ethernet_h.emit e ++ r) (2 + i) =
      toMem (ethernet_h.emit e ++ r) i := by
    intro i hi
    rw [← h]
    refine (toMem_append [a, b] _ i).trans ?_
    rw [h, toMem_lt (by rw [List.length_append]; omega), toMem_lt (by rw [List.length_append]; omega),
      List.getElem_append_left (by omega), List.getElem_append_left (by omega)]
  have h₀ : toMem (ethernet_h.emit e ++ r) 0 = a := by rw [← h]; rfl
  have h₁ : toMem (ethernet_h.emit e ++ r) 1 = b := by rw [← h]; rfl
  have h12 : toMem (ethernet_h.emit e ++ r) 12 = a := by
    rw [hstep 10 (by omega), hstep 8 (by omega), hstep 6 (by omega), hstep 4 (by omega),
      hstep 2 (by omega), hstep 0 (by omega), h₀]
  have h13 : toMem (ethernet_h.emit e ++ r) 13 = b := by
    rw [hstep 11 (by omega), hstep 9 (by omega), hstep 7 (by omega), hstep 5 (by omega),
      hstep 3 (by omega), hstep 1 (by omega), h₁]
  rw [← nb16_type e r, Mem.nb16, h12, h13]

/-- The type of a parsed ARP or UDP frame. -/
theorem type_of_unbridged {e : Ethernet} {v : Option VlanTag} {l : List Byte}
    (hv : e.ether_type = ETHERTYPE_VLAN ↔ v ≠ none)
    (hl : Parsed (link_headers e v) (last_type e v) hdr l) (h : hdr.udp ≠ none ∨ hdr.arp ≠ none) :
    e.ether_type ≠ 0x0900 := by
  cases v with
  | some v =>
      rw [hv.mpr (by simp)]
      decide
  | none =>
      generalize htp : last_type e none = type at hl
      have htp' : e.ether_type = type := htp
      rw [htp']
      cases hl with
      | arp | tcp | udp | ipv4 => decide
      | other => exact absurd h (by simp [link_headers])

theorem bypass_not_onWire (hparse : SwitchIngressParser pkt = some (hdr, rest))
    (hs : Bypasses (SwitchIngress X T port hdr)) (h : hdr.udp ≠ none ∨ hdr.arp ≠ none) :
    ¬ OnWire X T port pkt := by
  intro hw
  obtain ⟨e, v, l, hv, hl, -⟩ := ingress_parser_cases hparse
  obtain ⟨e', ht, he'⟩ := ingress_ethernet X T port hl.link.1
  have hsw : switch X T port pkt = some ((SwitchIngress X T port hdr).ucast_egress_port,
      SwitchIngressDeparser (SwitchIngress X T port hdr) rest) := by
    unfold switch
    rw [hparse, Option.bind_some]
    dsimp only
    rw [if_neg (by rw [hs.drop_ctl]; decide), if_pos hs.bypass_egress]
  obtain ⟨hdr', rest', e₁, r, hp, he₁, hout⟩ := hw _ _ hsw
  obtain ⟨rfl, -⟩ := Prod.mk.inj (Option.some.inj (hparse.symm.trans hp))
  obtain rfl : e' = e₁ := Option.some.inj (he'.symm.trans he₁)
  rw [ingress_deparser_eq he', hs.bridged] at hout
  have htype := type_of_shift hout
  rw [ht] at htype
  exact type_of_unbridged hv hl h (htype.trans (by decide))

/-- **Where the bridge header stays.**  For every received frame and all table contents: what leaves
the switch starts with its Ethernet header exactly when the frame is neither a UDP datagram nor an
ARP frame that is answered. -/
theorem on_wire_iff : OnWire X T port pkt ↔ ¬ Unbridged T pkt := by
  constructor
  · rintro hw ⟨hdr, rest, hparse, hu⟩
    obtain ⟨e, v, l, -, hl, -⟩ := ingress_parser_cases hparse
    rcases hu with hu | ⟨arp, ha, hmiss⟩
    · obtain ⟨udp, hu'⟩ := Option.ne_none_iff_exists'.mp hu
      have ha := hl.arp_or.resolve_right fun h => hu h.2.2
      have ht := hl.tcp_or.resolve_right hu
      exact bypass_not_onWire hparse (ingress_udp X T port ha ht hu') (.inl hu) hw
    · refine bypass_not_onWire hparse ((ingress_arp X T port ha).1 hmiss) (.inr ?_) hw
      rw [ha]
      simp
  · intro h q out hout
    cases hparse : SwitchIngressParser pkt with
    | none =>
        rw [switch, hparse] at hout
        cases hout
    | some p =>
        obtain ⟨hdr, rest⟩ := p
        obtain ⟨e, v, l, -, hl, -⟩ := ingress_parser_cases hparse
        obtain ⟨e', -, he'⟩ := ingress_ethernet X T port hl.link.1
        have hn : hdr.udp = none ∧ ∀ arp, hdr.arp = some arp →
            T.arp_table arp.opcode arp.target_proto_addr = none :=
          ⟨not_not.mp fun hu => h ⟨hdr, rest, hparse, .inl hu⟩,
            fun arp ha => not_not.mp fun hm => h ⟨hdr, rest, hparse, .inr ⟨arp, ha, hm⟩⟩⟩
        cases ha : hdr.arp with
        | some arp =>
            -- an ARP frame without entry is dropped
            have hd := (ingress_arp X T port ha).2 (hn.2 arp ha)
            rw [switch, hparse, Option.bind_some] at hout
            dsimp only at hout
            rw [if_pos (by rw [hd]; decide)] at hout
            cases hout
        | none =>
            obtain ⟨hd, hb⟩ := ingress_onward X T port ha hn.1
            rw [switch_eq hparse rfl hd hb, ingress_deparser_eq he'] at hout
            obtain ⟨out', heg, heq⟩ := Option.map_eq_some_iff.mp hout
            obtain ⟨-, rfl⟩ := Prod.mk.inj heq
            obtain ⟨r, hr⟩ := egress_starts heg
            exact ⟨hdr, rest, e', r, rfl, he', hr⟩

/-- A UDP datagram without payload. -/
def udpFrame : List Byte :=
  List.replicate 12 0 ++ be16 ETHERTYPE_IPV4 ++ [0x45, 0, 0, 28, 0, 0, 0, 0, 64, IP_PROTOCOLS_UDP, 0, 0]
    ++ be32 0xC0A80002 ++ be32 0xC0A80009 ++ be16 5353 ++ be16 53 ++ be16 8 ++ be16 0

/-- The datagram leaves behind the bytes `09 00` of the bridge header. -/
theorem udpFrame_not_onWire :
    switch standard_externs routeTables 1 udpFrame = some (9, [0x09, 0x00] ++
      [2, 2, 2, 2, 2, 9, 2, 2, 2, 2, 2, 0xfe] ++ udpFrame.drop 12) ∧
    ¬ OnWire standard_externs routeTables 1 udpFrame := by
  have hsw : switch standard_externs routeTables 1 udpFrame = some (9, [0x09, 0x00] ++
      [2, 2, 2, 2, 2, 9, 2, 2, 2, 2, 2, 0xfe] ++ udpFrame.drop 12) := by
    decide +kernel
  refine ⟨hsw, fun h => ?_⟩
  obtain ⟨hdr, rest, e, r, hp, he, hout⟩ := h _ _ hsw
  have hp' : SwitchIngressParser udpFrame = some (parsedFrame udpFrame) := by rfl
  obtain ⟨rfl, -⟩ := Prod.mk.inj (Option.some.inj (hp'.symm.trans hp))
  obtain rfl : ⟨0x020202020209, 0x0202020202fe, ETHERTYPE_IPV4⟩ = e :=
    Option.some.inj (.trans (by decide +kernel) he)
  have hhead : (some 0x09 : Option Byte) = some 2 := congrArg List.head? hout
  exact absurd hhead (by decide)

end Miresga.Switch
