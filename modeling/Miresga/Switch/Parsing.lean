import Miresga.Switch.Spec

/-!
# Switch — what the parsers take off a frame

`Parsed` lists the shapes of a frame behind its last type field, with the bytes each consists of:
`ingress_parser_cases` says of every frame the ingress parser accepts which of them it has.  The
egress parser sees the bytes the ingress deparser emitted: the bridge header, the Ethernet header
and what follows.  `egress_starts` and `egress_length` say how much of that is on the wire again,
for every frame it accepts.
-/

namespace Miresga.Switch

variable {X : Externs} {T : Tables} {port : BitVec 9} {h₀ hdr : Header} {pkt rest : List Byte}

/-- What can stand behind a type field: the headers valid afterwards, and their bytes. -/
inductive Parsed (h₀ : Header) : BitVec 16 → Header → List Byte → Prop where
  | arp (arp : Arp) : Parsed h₀ ETHERTYPE_ARP { h₀ with arp := some arp } (arp_h.emit arp)
  | tcp (ipv4 : Ipv4) (tcp : Tcp) (hp : ipv4.protocol = IP_PROTOCOLS_TCP)
      (hf : ipv4.frag_offset = 0) :
      Parsed h₀ ETHERTYPE_IPV4 { h₀ with ipv4 := some ipv4, tcp := some tcp }
        (ipv4_h.emit ipv4 ++ tcp_h.emit tcp)
  | udp (ipv4 : Ipv4) (udp : Udp) (hp : ipv4.protocol = IP_PROTOCOLS_UDP)
      (hf : ipv4.frag_offset = 0) :
      Parsed h₀ ETHERTYPE_IPV4 { h₀ with ipv4 := some ipv4, udp := some udp }
        (ipv4_h.emit ipv4 ++ udp_h.emit udp)
  | ipv4 (ipv4 : Ipv4) (ht : ¬ (ipv4.protocol = IP_PROTOCOLS_TCP ∧ ipv4.frag_offset = 0))
      (hu : ¬ (ipv4.protocol = IP_PROTOCOLS_UDP ∧ ipv4.frag_offset = 0)) :
      Parsed h₀ ETHERTYPE_IPV4 { h₀ with ipv4 := some ipv4 } (ipv4_h.emit ipv4)
  | other (type : BitVec 16) (ha : type ≠ ETHERTYPE_ARP) (hi : type ≠ ETHERTYPE_IPV4) :
      Parsed h₀ type h₀ []

/-! ### Ingress -/

theorem parse_arp_parsed (h : parse_arp h₀ pkt = some (hdr, rest)) :
    ∃ l, Parsed h₀ ETHERTYPE_ARP hdr l ∧ pkt = l ++ rest := by
  obtain ⟨⟨arp, r⟩, hx, heq⟩ := Option.map_eq_some_iff.mp h
  obtain ⟨rfl, rfl⟩ := Prod.mk.inj heq
  exact ⟨_, .arp arp, (arp_h.emit_of_extract hx).symm⟩

theorem parse_ipv4_parsed (h : parse_ipv4 h₀ pkt = some (hdr, rest)) :
    ∃ l, Parsed h₀ ETHERTYPE_IPV4 hdr l ∧ pkt = l ++ rest := by
  obtain ⟨⟨ipv4, r⟩, hx, hb⟩ := Option.bind_eq_some_iff.mp h
  have hpkt := (ipv4_h.emit_of_extract hx).symm
  dsimp only at hb
  split_ifs at hb with hp hu
  · obtain ⟨tcp, rfl, rfl⟩ := parse_tcp_eq hb
    exact ⟨_, .tcp ipv4 tcp hp.1 hp.2, by rw [hpkt, List.append_assoc]⟩
  · obtain ⟨⟨udp, r'⟩, hx', heq⟩ := Option.map_eq_some_iff.mp hb
    obtain ⟨rfl, rfl⟩ := Prod.mk.inj heq
    refine ⟨_, .udp ipv4 udp hu.1 hu.2, ?_⟩
    rw [hpkt, List.append_assoc, udp_h.emit_of_extract hx']
  · obtain ⟨rfl, rfl⟩ := Prod.mk.inj (Option.some.inj hb)
    exact ⟨_, .ipv4 ipv4 hp hu, hpkt⟩

/-- The headers of a frame of which only the Ethernet header, and the tag if any, were parsed. -/
def link_headers (e : Ethernet) (v : Option VlanTag) : Header :=
  ⟨some e, v, none, none, none, none, none⟩

/-- The last type field of a frame. -/
def last_type (e : Ethernet) (v : Option VlanTag) : BitVec 16 :=
  (v.map VlanTag.ether_type).getD e.ether_type

/-- **What the ingress parser takes off a frame**: the Ethernet header, a tag exactly when the type
says so, and one of the shapes behind the last type field. -/
theorem ingress_parser_cases (h : SwitchIngressParser pkt = some (hdr, rest)) :
    ∃ e v l, (e.ether_type = ETHERTYPE_VLAN ↔ v ≠ none) ∧
      Parsed (link_headers e v) (last_type e v) hdr l ∧
      pkt = ethernet_h.emit e ++ (emit vlan_tag_h v ++ (l ++ rest)) := by
  obtain ⟨⟨e, r⟩, hx, hb⟩ := Option.bind_eq_some_iff.mp h
  have hpkt := (ethernet_h.emit_of_extract hx).symm
  have untagged (ht : e.ether_type ≠ ETHERTYPE_VLAN) {l : List Byte}
      (hp : Parsed (link_headers e none) e.ether_type hdr l) (hr : r = l ++ rest) :
      ∃ e v l, (e.ether_type = ETHERTYPE_VLAN ↔ v ≠ none) ∧
        Parsed (link_headers e v) (last_type e v) hdr l ∧
        pkt = ethernet_h.emit e ++ (emit vlan_tag_h v ++ (l ++ rest)) :=
    ⟨e, none, l, iff_of_false ht (not_not.mpr rfl), hp, by rw [hpkt, hr]; rfl⟩
  dsimp only at hb
  split_ifs at hb with h₁ h₂ h₃
  · obtain ⟨l, hp, hr⟩ := parse_arp_parsed hb
    exact untagged (by rw [h₁]; decide) (h₁ ▸ hp) hr
  · obtain ⟨l, hp, hr⟩ := parse_ipv4_parsed hb
    exact untagged (by rw [h₂]; decide) (h₂ ▸ hp) hr
  · obtain ⟨⟨v, r'⟩, hx', hb⟩ := Option.bind_eq_some_iff.mp hb
    have hr := (vlan_tag_h.emit_of_extract hx').symm
    have tagged {l : List Byte} (hp : Parsed (link_headers e (some v)) v.ether_type hdr l)
        (hr' : r' = l ++ rest) :
        ∃ e v l, (e.ether_type = ETHERTYPE_VLAN ↔ v ≠ none) ∧
          Parsed (link_headers e v) (last_type e v) hdr l ∧
          pkt = ethernet_h.emit e ++ (emit vlan_tag_h v ++ (l ++ rest)) :=
      ⟨e, some v, l, iff_of_true h₃ (by simp), hp, by rw [hpkt, hr, hr']; rfl⟩
    dsimp only at hb
    split_ifs at hb with h₄ h₅
    · obtain ⟨l, hp, hr'⟩ := parse_arp_parsed hb
      exact tagged (h₄ ▸ hp) hr'
    · obtain ⟨l, hp, hr'⟩ := parse_ipv4_parsed hb
      exact tagged (h₅ ▸ hp) hr'
    · obtain ⟨rfl, rfl⟩ := Prod.mk.inj (Option.some.inj hb)
      exact tagged (.other _ h₄ h₅) rfl
  · obtain ⟨rfl, rfl⟩ := Prod.mk.inj (Option.some.inj hb)
    exact untagged h₃ (.other _ h₁ h₂) rfl

/-- Only the headers behind the type field are new. -/
theorem Parsed.link {type : BitVec 16} {l : List Byte} (h : Parsed h₀ type hdr l) :
    hdr.ethernet = h₀.ethernet ∧ hdr.vlan_tag = h₀.vlan_tag ∧ hdr.options = h₀.options := by
  cases h <;> exact ⟨rfl, rfl, rfl⟩

/-- A frame has an ARP header or headers of IPv4. -/
theorem Parsed.arp_or {type : BitVec 16} {l : List Byte} (h : Parsed h₀ type hdr l) :
    hdr.arp = h₀.arp ∨ (hdr.ipv4 = h₀.ipv4 ∧ hdr.tcp = h₀.tcp ∧ hdr.udp = h₀.udp) := by
  cases h with
  | arp => exact .inr ⟨rfl, rfl, rfl⟩
  | tcp | udp | ipv4 | other => exact .inl rfl

/-- A frame has a TCP header, a UDP header or neither. -/
theorem Parsed.tcp_or {type : BitVec 16} {l : List Byte} (h : Parsed h₀ type hdr l) :
    hdr.tcp = h₀.tcp ∨ hdr.udp = h₀.udp := by
  cases h with
  | udp => exact .inl rfl
  | arp | tcp | ipv4 | other => exact .inr rfl

/-- What the ingress deparser emits behind the Ethernet header. -/
def Ingress.behind (s : Ingress) (rest : List Byte) : List Byte :=
  emit arp_h s.hdr.arp ++ (emit ipv4_h s.hdr.ipv4 ++ (emit tcp_h s.hdr.tcp ++
    (emit udp_h s.hdr.udp ++ rest)))

theorem ingress_deparser_eq {s : Ingress} {e : Ethernet} (he : s.hdr.ethernet = some e)
    (rest : List Byte) : SwitchIngressDeparser s rest =
      bridge_h.emit s.bridged ++ (ethernet_h.emit e ++ s.behind rest) := by
  unfold SwitchIngressDeparser Ingress.behind
  rw [he]
  simp only [List.append_assoc]
  rfl

/-- The type field of a frame with the given Ethernet header. -/
theorem nb16_type (e : Ethernet) (r : List Byte) :
    (toMem (ethernet_h.emit e ++ r)).nb16 12 = e.ether_type :=
  congrArg Ethernet.ether_type (ethernet_h.decode_emit e r)

/-- The destination MAC address of a frame with the given Ethernet header. -/
theorem nb48_dst (e : Ethernet) (r : List Byte) :
    (toMem (ethernet_h.emit e ++ r)).nb48 0 = e.dst_addr :=
  congrArg Ethernet.dst_addr (ethernet_h.decode_emit e r)

/-- A frame that ingress neither drops nor lets past egress. -/
theorem switch_eq {s : Ingress} (h : SwitchIngressParser pkt = some (hdr, rest))
    (hs : SwitchIngress X T port hdr = s) (hd : s.drop_ctl = 0) (hb : s.bypass_egress = 0) :
    switch X T port pkt =
      (egress X T (SwitchIngressDeparser s rest)).map fun pkt => (s.ucast_egress_port, pkt) := by
  unfold switch
  rw [h, Option.bind_some]
  dsimp only
  rw [hs, if_neg (by rw [hd]; decide), if_neg (by rw [hb]; decide)]

/-! ### Egress -/

/-- The bytes that the egress deparser emits behind the Ethernet header, options apart. -/
def Egress.behind (s : Egress) (rest : List Byte) : Nat :=
  (emit ipv4_h s.hdr.ipv4).length + (emit tcp_h s.hdr.tcp).length + rest.length

/-- `s'` and `rest` are what a parser state makes of `s` and `pkt`: the link layer, the bridged
metadata and the options are as they were, and nothing is emitted that was not there, less `n`
bytes. -/
structure Egress.Took (n : Nat) (s : Egress) (pkt : List Byte) (s' : Egress) (rest : List Byte) :
    Prop where
  ethernet : s'.hdr.ethernet = s.hdr.ethernet
  options : s'.hdr.options = s.hdr.options
  bridged : s'.bridged = s.bridged
  behind : s'.behind rest + n ≤ s.behind pkt

namespace Egress

variable {s s' : Egress}

theorem length_extract {α : Type} {F : Format α} {x : α} (h : F.extract pkt = some (x, rest)) :
    pkt.length = F.size + rest.length := by
  rw [← F.emit_of_extract h, List.length_append, F.length_emit]

theorem length_emit {α : Type} (F : Format α) (x : α) : (emit F (some x)).length = F.size :=
  F.length_emit x

theorem parse_arp_took (h : s.parse_arp pkt = some (s', rest)) : Took 0 s pkt s' rest := by
  obtain ⟨⟨arp, r⟩, hx, heq⟩ := Option.map_eq_some_iff.mp h
  obtain ⟨rfl, rfl⟩ := Prod.mk.inj heq
  have hl := length_extract hx
  exact ⟨rfl, rfl, rfl, by simp only [Egress.behind]; omega⟩

theorem parse_udp_took (h : s.parse_udp pkt = some (s', rest)) : Took 0 s pkt s' rest := by
  obtain ⟨⟨udp, r⟩, hx, heq⟩ := Option.map_eq_some_iff.mp h
  obtain ⟨rfl, rfl⟩ := Prod.mk.inj heq
  have hl := length_extract hx
  exact ⟨rfl, rfl, rfl, by simp only [Egress.behind]; omega⟩

theorem parse_tcp_took {ipv4 : Ipv4} (h : s.parse_tcp X ipv4 pkt = some (s', rest)) :
    Took 0 s pkt s' rest := by
  obtain ⟨⟨tcp, r⟩, hx, hb⟩ := Option.bind_eq_some_iff.mp h
  have hl := length_extract hx
  have ht : (emit tcp_h (some tcp)).length = tcp_h.size := length_emit _ _
  dsimp only at hb
  split_ifs at hb
  · unfold parse_tcp_options at hb
    split_ifs at hb
    cases hb
    refine ⟨rfl, rfl, rfl, ?_⟩
    simp only [Egress.behind, List.length_drop]
    omega
  · cases hb
    exact ⟨rfl, rfl, rfl, by simp only [Egress.behind]; omega⟩

theorem parse_ipv4_took (h : s.parse_ipv4 X pkt = some (s', rest)) : Took 0 s pkt s' rest := by
  obtain ⟨⟨ipv4, r⟩, hx, hb⟩ := Option.bind_eq_some_iff.mp h
  have hl := length_extract hx
  have hi : (emit ipv4_h (some ipv4)).length = ipv4_h.size := length_emit _ _
  have step (t : Took 0 { s with hdr := { s.hdr with ipv4 := some ipv4 } } r s' rest) :
      Took 0 s pkt s' rest := by
    refine ⟨t.ethernet, t.options, t.bridged, ?_⟩
    have := t.behind
    simp only [Egress.behind] at this ⊢
    omega
  dsimp only at hb
  split_ifs at hb
  · exact step (parse_tcp_took hb)
  · exact step (parse_udp_took hb)
  · cases hb
    exact step ⟨rfl, rfl, rfl, le_refl _⟩

/-- A tag is taken off and never emitted. -/
theorem parse_vlan_took (h : s.parse_vlan X pkt = some (s', rest)) : Took 4 s pkt s' rest := by
  obtain ⟨⟨v, r⟩, hx, hb⟩ := Option.bind_eq_some_iff.mp h
  have hl : pkt.length = 4 + r.length := length_extract hx
  have step (t : Took 0 { s with hdr := { s.hdr with vlan_tag := some v } } r s' rest) :
      Took 4 s pkt s' rest := by
    refine ⟨t.ethernet, t.options, t.bridged, ?_⟩
    have := t.behind
    simp only [Egress.behind] at this ⊢
    omega
  dsimp only at hb
  split_ifs at hb
  · exact step (parse_arp_took hb)
  · exact step (parse_ipv4_took hb)

/-- The bytes that are missing from the wire for a frame of the given type. -/
def untag (type : BitVec 16) : Nat := if type = ETHERTYPE_VLAN then 4 else 0

end Egress

section emitted

open Egress

variable {b : Bridge} {e : Ethernet} {r out : List Byte}

theorem egress_parser_took {s : Egress}
    (h : SwitchEgressParser X (bridge_h.emit b ++ (ethernet_h.emit e ++ r)) = some (s, rest)) :
    Took (untag e.ether_type) ⟨link_headers e none, b, 0⟩ r s rest := by
  unfold SwitchEgressParser at h
  simp only [Format.extract_emit, Option.bind_some] at h
  unfold untag
  split_ifs at h with h₁ h₂ h₃
  · rw [if_neg (by rw [h₁]; decide)]
    exact parse_arp_took h
  · rw [if_neg (by rw [h₂]; decide)]
    exact parse_ipv4_took h
  · rw [if_pos h₃]
    exact parse_vlan_took h

/-- Rewriting keeps the headers that are valid. -/
theorem egress_control (s : Egress) :
    (SwitchEgress X T s).hdr.ethernet = s.hdr.ethernet ∧
      (s.bridged.syn_respond = 0 → (SwitchEgress X T s).hdr.options = s.hdr.options ∧
        ∀ rest, (SwitchEgress X T s).behind rest = s.behind rest) := by
  unfold SwitchEgress
  split
  next ipv4 tcp h4 ht =>
    split_ifs with h₁ h₂ h₃
    · refine ⟨rfl, fun h => ?_⟩
      rw [h] at h₁
      exact absurd h₁ (by decide)
    · split
      · exact ⟨rfl, fun _ => ⟨rfl, fun _ => rfl⟩⟩
      · exact ⟨rfl, fun _ => ⟨rfl, fun _ => by simp only [Egress.behind, length_emit, h4, ht]⟩⟩
    · exact ⟨rfl, fun _ => ⟨rfl, fun _ => by simp only [Egress.behind, length_emit, h4, ht]⟩⟩
    · exact ⟨rfl, fun _ => ⟨rfl, fun _ => rfl⟩⟩
  · exact ⟨rfl, fun _ => ⟨rfl, fun _ => rfl⟩⟩

/-- The checksum units change no header's length. -/
theorem length_egress_deparser {s : Egress} (he : s.hdr.ethernet = some e)
    (ho : s.hdr.options = none) : (SwitchEgressDeparser X s rest).length = 14 + s.behind rest := by
  have h4 : (emit ipv4_h (update_checksums X s).ipv4).length = (emit ipv4_h s.hdr.ipv4).length := by
    unfold update_checksums
    cases s.hdr.ipv4 <;> rfl
  have ht : (emit tcp_h (update_checksums X s).tcp).length = (emit tcp_h s.hdr.tcp).length := by
    unfold update_checksums
    cases s.hdr.ipv4 <;> cases s.hdr.tcp <;> rfl
  have he' : (update_checksums X s).ethernet = some e := he
  have ho' : (update_checksums X s).options = none := ho
  have h14 : ethernet_h.size = 14 := rfl
  simp only [SwitchEgressDeparser, List.length_append, he', ho', length_emit, h4, ht,
    Egress.behind, h14, Option.map_none, Option.getD_none, List.length_nil]
  omega

/-- **A frame that passes egress starts with the Ethernet header that ingress emitted.** -/
theorem egress_starts (h : egress X T (bridge_h.emit b ++ (ethernet_h.emit e ++ r)) = some out) :
    ∃ r', out = ethernet_h.emit e ++ r' := by
  obtain ⟨⟨s, rest⟩, hs, rfl⟩ := Option.map_eq_some_iff.mp h
  have he : (SwitchEgress X T s).hdr.ethernet = some e :=
    (egress_control s).1.trans (egress_parser_took hs).ethernet
  have he' : (update_checksums X (SwitchEgress X T s)).ethernet = some e := he
  dsimp only [SwitchEgressDeparser]
  rw [he']
  exact ⟨_, by rw [List.append_assoc, List.append_assoc, List.append_assoc]; rfl⟩

/-- Egress puts no more on the wire than ingress emitted, and a tag less for a tagged type. -/
theorem egress_length (hb : b.syn_respond = 0)
    (h : egress X T (bridge_h.emit b ++ (ethernet_h.emit e ++ r)) = some out) :
    out.length + untag e.ether_type ≤ 14 + r.length := by
  obtain ⟨⟨s, rest⟩, hs, rfl⟩ := Option.map_eq_some_iff.mp h
  have ht := egress_parser_took hs
  obtain ⟨he, hctl⟩ := egress_control (X := X) (T := T) s
  obtain ⟨ho, hw⟩ := hctl (by rw [ht.bridged]; exact hb)
  have hle : s.behind rest + untag e.ether_type ≤ r.length := by
    have := ht.behind
    have h₀ : Egress.behind ⟨link_headers e none, b, 0⟩ r = r.length := by
      simp [Egress.behind, link_headers, emit]
    omega
  dsimp only
  rw [length_egress_deparser (he.trans ht.ethernet) (ho.trans ht.options), hw]
  omega

end emitted

end Miresga.Switch
