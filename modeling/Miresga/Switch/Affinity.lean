import Miresga.Switch.Parsing
import Miresga.Wire

/-!
# Switch — both directions of a connection reach one front-end

The state of a flow exists in one front-end only, and the switch chooses the front-end by a hash.
In front of the hash three tables write who the client is: the source of a segment for the virtual
address, the destination of a segment that comes from a backend.  So for a client that is no backend
itself, `lb_index_to_egress_port_table` is looked up with the hash of the client's address and port
in both directions (`hash_of_client`), and what is sent to a front-end leaves on the port and with
the destination MAC address of that entry (`front_end_affinity`).
-/

namespace Miresga.Switch

open Ingress

variable {X : Externs} {T : Tables} {port port' : BitVec 9} {hdr hdr' : Header}
  {pkt pkt' rest rest' : List Byte} {c : BitVec 32 × BitVec 16}

/-- A segment from the client `c` to the virtual address, or from a backend to `c`. -/
def OfClient (T : Tables) (c : BitVec 32 × BitVec 16) (ipv4 : Ipv4) (tcp : Tcp) : Prop :=
  ((ipv4.src_addr, tcp.src_port) = c ∧ ipv4.dst_addr = VIRTUAL_IP ∧ tcp.dst_port = VIRTUAL_PORT) ∨
    (T.dip_lookup_table ipv4.src_addr tcp.src_port = true ∧ (ipv4.dst_addr, tcp.dst_port) = c)

/-- The frame `pkt`, received on `port`, is a TCP segment of `c`, by the addresses and ports that the
parser extracts, and ingress marks it for a front-end; `s` is what ingress made of it. -/
structure ToFrontEnd (X : Externs) (T : Tables) (c : BitVec 32 × BitVec 16) (port : BitVec 9)
    (pkt : List Byte) (s : Ingress) : Prop where
  parsed : ∃ hdr rest ipv4 tcp, SwitchIngressParser pkt = some (hdr, rest) ∧
    s = SwitchIngress X T port hdr ∧ hdr.ipv4 = some ipv4 ∧ hdr.tcp = some tcp ∧
    OfClient T c ipv4 tcp
  lb_flag : s.bridged.lb_flag = 1

/-- The frame leaves on `q` for the MAC address `mac`: ingress chooses both, whatever is sent for
the frame has both, and an untagged frame is sent. -/
structure LeavesFor (X : Externs) (T : Tables) (port : BitVec 9) (pkt : List Byte) (s : Ingress)
    (q : BitVec 9) (mac : BitVec 48) : Prop where
  egress_port : s.ucast_egress_port = q
  dst_mac : s.hdr.ethernet.map Ethernet.dst_addr = some mac
  wire : ∀ q' out, switch X T port pkt = some (q', out) → q' = q ∧ (toMem out).nb48 0 = mac
  sent : (toMem pkt).nb16 12 ≠ ETHERTYPE_VLAN → ∃ out, switch X T port pkt = some (q, out)

/-! ### The hash -/

/-- **The hash is the client's.**  Direction, address and port are written by the two lookups of
virtual address and backends, of which the second wins. -/
theorem hash_of_client (hc : T.dip_lookup_table c.1 c.2 = false) {ipv4 : Ipv4} {tcp : Tcp}
    (h : OfClient T c ipv4 tcp) (s : Ingress) :
    (s.tcp_tables X T ipv4 tcp).hash_result = X.crc8 c.1 c.2 := by
  have ho : ∀ s : Ingress, (s.offload_connection_table T).hash_result = s.hash_result := by
    intro s
    unfold offload_connection_table
    split <;> rfl
  have hcip : ∀ s : Ingress, (((s.calculate_payload_table ipv4 tcp).vip_lookup_table ipv4
      tcp).dip_lookup_table T ipv4 tcp).cip = c.1 ∧ (((s.calculate_payload_table ipv4
      tcp).vip_lookup_table ipv4 tcp).dip_lookup_table T ipv4 tcp).cport = c.2 := by
    intro s
    unfold dip_lookup_table
    rcases h with ⟨rfl, hv⟩ | ⟨hd, rfl⟩
    · rw [if_neg (by rw [hc]; decide), vip_lookup_table, if_pos hv]
      exact ⟨rfl, rfl⟩
    · rw [if_pos hd]
      exact ⟨rfl, rfl⟩
  unfold tcp_tables
  rw [ho, calculate_crc8]
  obtain ⟨h₁, h₂⟩ := hcip s
  rw [h₁, h₂]

/-- Routing of a segment marked for a front-end. -/
theorem route_lb {s : Ingress} (h : s.bridged.lb_flag = 1) :
    s.route T port = s.apply_egress_port (T.lb_index_to_egress_port_table s.hash_result) := by
  unfold route
  dsimp only
  rw [if_pos h]

/-! ### The frame -/

/-- An untagged TCP segment has type IPv4. -/
theorem type_of_tcp {tcp : Tcp} (h : SwitchIngressParser pkt = some (hdr, rest))
    (ht : hdr.tcp = some tcp) (hu : (toMem pkt).nb16 12 ≠ ETHERTYPE_VLAN) :
    (toMem pkt).nb16 12 = ETHERTYPE_IPV4 := by
  obtain ⟨e, v, l, hv, hl, rfl⟩ := ingress_parser_cases h
  rw [nb16_type] at hu ⊢
  obtain rfl : v = none := not_not.mp fun hn => hu (hv.mpr hn)
  generalize htype : last_type e none = type at hl
  cases hl with
  | tcp | udp | ipv4 => exact htype
  | arp | other => exact nomatch ht

/-- Ingress on a segment of `c` that it marks for a front-end: nothing behind the hash writes it,
and the segment is routed by the entry of its hash. -/
theorem ingress_lb {ipv4 : Ipv4} {tcp : Tcp} (hc : T.dip_lookup_table c.1 c.2 = false)
    (harp : hdr.arp = none) (h4 : hdr.ipv4 = some ipv4) (ht : hdr.tcp = some tcp)
    (hof : OfClient T c ipv4 tcp) (hlb : (SwitchIngress X T port hdr).bridged.lb_flag = 1) :
    ∃ s : Ingress, SwitchIngress X T port hdr =
        s.apply_egress_port (T.lb_index_to_egress_port_table (X.crc8 c.1 c.2)) ∧
      s.hash_result = X.crc8 c.1 c.2 ∧ s.hdr = hdr ∧ s.bridged.syn_respond = 0 ∧
      Handed hdr (SwitchIngress X T port hdr) := by
  have hcl : (init hdr).classify X T port = (init hdr).tcp_tables X T ipv4 tcp := by
    unfold classify
    dsimp only [init]
    rw [harp, h4, ht]
  have hcls : Classified T ipv4 tcp (init hdr) ((init hdr).classify X T port) := by
    rw [hcl]
    exact tcp_tables_init hdr ipv4 tcp
  have hhash : ((init hdr).classify X T port).hash_result = X.crc8 c.1 c.2 := by
    rw [hcl]
    exact hash_of_client hc hof _
  have hlb₀ : ((init hdr).classify X T port).bridged.lb_flag = 0 := by
    rw [hcls.flags]
    rfl
  rw [ingress_bridged] at hlb
  refine ⟨((init hdr).classify X T port).mark (hdr.flag (·.syn)) (hdr.flag (·.fin))
    (hdr.flag (·.rst)), ?_, (mark_rest _ _ _ _).2.2.2.trans hhash, (mark_rest _ _ _ _).1.trans hcls.hdr,
    ?_, handed_of_classified hcls⟩
  · rw [← hhash, ← (mark_rest _ (hdr.flag (·.syn)) (hdr.flag (·.fin)) (hdr.flag (·.rst))).2.2.2]
    exact route_lb hlb
  · rw [mark_lb_flag hlb₀ hlb, hcls.flags]
    rfl

/-- What becomes of a segment of `c` that is marked for a front-end. -/
theorem ToFrontEnd.lookup {s : Ingress} (hc : T.dip_lookup_table c.1 c.2 = false)
    (h : ToFrontEnd X T c port pkt s) : s.hash_result = X.crc8 c.1 c.2 ∧
      ∀ p, T.lb_index_to_egress_port_table (X.crc8 c.1 c.2) = some p →
        LeavesFor X T port pkt s p.dst_port p.dst_mac := by
  obtain ⟨⟨hdr, rest, ipv4, tcp, hp, rfl, h4, ht, hof⟩, hlb⟩ := h
  obtain ⟨e, v, l, -, hl, -⟩ := ingress_parser_cases hp
  have harp : hdr.arp = none := hl.arp_or.resolve_right fun h => nomatch ht.symm.trans h.2.1
  obtain ⟨s, hs, hhash, hhdr, hsyn, hh⟩ := ingress_lb hc harp h4 ht hof hlb
  refine ⟨?_, fun p hpt => ?_⟩
  · rw [hs, ← hhash]
    cases T.lb_index_to_egress_port_table _ <;> rfl
  rw [hpt] at hs
  have hport : (SwitchIngress X T port hdr).ucast_egress_port = p.dst_port := by
    rw [hs]
    rfl
  have heth : (SwitchIngress X T port hdr).hdr.ethernet =
      some { e with src_addr := p.src_mac, dst_addr := p.dst_mac } := by
    rw [hs, apply_egress_port, set_egress_port, hhdr]
    dsimp only
    rw [hl.link.1]
    rfl
  refine ⟨hport, by rw [heth]; rfl, fun q' out hout => ?_, fun hu => ?_⟩
  · rw [switch_eq hp rfl hh.drop_ctl hh.bypass_egress, ingress_deparser_eq heth] at hout
    obtain ⟨out', heg, heq⟩ := Option.map_eq_some_iff.mp hout
    obtain ⟨rfl, rfl⟩ := Prod.mk.inj heq
    obtain ⟨r', rfl⟩ := egress_starts heg
    exact ⟨hport, nb48_dst _ _⟩
  · have hsyn' : (SwitchIngress X T port hdr).bridged.syn_respond = 0 := by
      rw [hs, apply_egress_port_bridged, hsyn]
    obtain ⟨e₁, e', ipv4', c₁, c₂, -, -, -, -, hsw⟩ :=
      switch_direct hp (type_of_tcp hp ht hu) ht hh hsyn'
    rw [hport] at hsw
    exact ⟨_, hsw⟩

/-- **Affinity.**  For all table contents and every client that is no backend: any two of its
segments that ingress marks for a front-end, in whichever direction, with whatever flags and
payload, look up `lb_index_to_egress_port_table` with the same hash; and if the table has an entry,
both leave on its port for its MAC address. -/
theorem front_end_affinity {s s' : Ingress} (hc : T.dip_lookup_table c.1 c.2 = false)
    (h : ToFrontEnd X T c port pkt s) (h' : ToFrontEnd X T c port' pkt' s') :
    s.hash_result = s'.hash_result ∧
      ∀ p, T.lb_index_to_egress_port_table s.hash_result = some p →
        LeavesFor X T port pkt s p.dst_port p.dst_mac ∧
        LeavesFor X T port' pkt' s' p.dst_port p.dst_mac := by
  obtain ⟨hh, hl⟩ := h.lookup hc
  obtain ⟨hh', hl'⟩ := h'.lookup hc
  refine ⟨hh.trans hh'.symm, fun p hp => ?_⟩
  rw [hh] at hp
  exact ⟨hl p hp, hl' p hp⟩

/-- One backend, no offloaded connection, front-ends on port 5. -/
def affinityTables : Tables where
  arp_table _ _ := none
  dip_lookup_table ip port := ip == 0x0A000103 && port == 8083
  offload_connection_table _ _ := none
  dest_to_egress_port_table _ := none
  d_index_to_egress_port_table _ := none
  lb_index_to_egress_port_table _ := some ⟨1, 2, 5⟩
  d_index_to_ip_port_table _ := none
  invalid_key := 0

def affinityClient : BitVec 32 × BitVec 16 := (0xC0A80002, 40000)

/-- A request of the client. -/
def affinityRequest : List Byte :=
  headers affinityClient (VIRTUAL_IP, VIRTUAL_PORT) 1000 5000 TCP_ACK_FLAG 42 ++ [1, 2]

/-- An RST of the backend. -/
def affinityRst : List Byte := headers (0x0A000103, 8083) affinityClient 5000 1000 TCP_RST_FLAG 40

/-- The headers of a frame that the ingress parser accepts. -/
def parsedHeader (pkt : List Byte) : Header := ((SwitchIngressParser pkt).map (·.1)).getD .none_valid

theorem affinity_request : ToFrontEnd standard_externs affinityTables affinityClient 1
    affinityRequest (SwitchIngress standard_externs affinityTables 1 (parsedHeader affinityRequest))
    where
  parsed := ⟨_, [1, 2], (ipv4_h.decode ((toMem affinityRequest).drop 14)),
    (tcp_h.decode ((toMem affinityRequest).drop 34)), by rfl, rfl, by rfl, by rfl,
    .inl (by decide +kernel)⟩
  lb_flag := by decide +kernel

theorem affinity_rst : ToFrontEnd standard_externs affinityTables affinityClient 9
    affinityRst (SwitchIngress standard_externs affinityTables 9 (parsedHeader affinityRst)) where
  parsed := ⟨_, [], (ipv4_h.decode ((toMem affinityRst).drop 14)),
    (tcp_h.decode ((toMem affinityRst).drop 34)), by rfl, rfl, by rfl, by rfl,
    .inr (by decide +kernel)⟩
  lb_flag := by decide +kernel

theorem front_end_affinity_sample :
    LeavesFor standard_externs affinityTables 1 affinityRequest
      (SwitchIngress standard_externs affinityTables 1 (parsedHeader affinityRequest)) 5 2 ∧
    LeavesFor standard_externs affinityTables 9 affinityRst
      (SwitchIngress standard_externs affinityTables 9 (parsedHeader affinityRst)) 5 2 :=
  (front_end_affinity rfl affinity_request affinity_rst).2 ⟨1, 2, 5⟩ rfl

end Miresga.Switch
