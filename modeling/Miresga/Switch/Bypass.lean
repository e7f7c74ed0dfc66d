import Miresga.Switch.Relay

/-!
# Switch — with and without offloaded connections

`Tables.unoffloaded` are the tables of a switch that has learnt no connection.  What would it do with
a frame?

* A frame that ingress marks neither for a backend nor for a client (`Direct`) is sent as before,
  byte for byte (`switch_unoffloaded`).  The look-up still sets the hit flag and the index in the
  bridge header, which no later stage reads without `d_flag`.
* A frame that is marked for one of them goes to the front-end instead, with its headers unchanged,
  MAC addresses and checksums apart (`direct_relayed`).
-/

namespace Miresga.Switch

open Ingress

variable {X : Externs} {T : Tables} {port : BitVec 9} {hdr : Header} {pkt rest : List Byte}

/-- The tables without any offloaded connection. -/
def Tables.unoffloaded (T : Tables) : Tables :=
  { T with offload_connection_table := fun _ _ => none }

/-- Ingress marks the frame to be forwarded by the switch itself, to a backend or to a client. -/
def Direct (X : Externs) (T : Tables) (port : BitVec 9) (hdr : Header) : Prop :=
  (SwitchIngress X T port hdr).bridged.d_flag = 1 ∨ (SwitchIngress X T port hdr).bridged.v_flag = 1

instance : Decidable (Direct X T port hdr) := inferInstanceAs (Decidable (_ ∨ _))

/-! ### Ingress without the hit -/

/-- The bridge header as a missed look-up leaves it. -/
def Bridge.missed (b : Bridge) : Bridge := { b with index := 0, hit_flag := 0 }

/-- The state as a missed look-up leaves it. -/
def Ingress.missed (s : Ingress) : Ingress := { s with bridged := s.bridged.missed }

theorem missed_eq {s : Ingress} (h : s.bridged.missed = s.bridged) : s.missed = s := by
  rw [Ingress.missed, h]

/-- The tables in front of the look-up leave its results as they are at the start. -/
theorem unhit (s : Ingress) (ipv4 : Ipv4) (tcp : Tcp) (h : s.bridged.missed = s.bridged) :
    (((s.calculate_payload_table ipv4 tcp).vip_lookup_table ipv4 tcp).dip_lookup_table T ipv4
      tcp).bridged.missed =
    (((s.calculate_payload_table ipv4 tcp).vip_lookup_table ipv4 tcp).dip_lookup_table T ipv4
      tcp).bridged := by
  have dip : ∀ s : Ingress, (s.dip_lookup_table T ipv4 tcp).bridged = s.bridged := fun s => by
    unfold dip_lookup_table
    split_ifs <;> rfl
  have vip : ∀ s : Ingress, (s.vip_lookup_table ipv4 tcp).bridged = s.bridged := fun s => by
    unfold vip_lookup_table
    split_ifs <;> rfl
  rw [dip, vip]
  unfold calculate_payload_table
  split_ifs
  · have h := congrArg (fun b : Bridge => { b with payload_flag := 0 }) h
    exact h
  · exact h

theorem offload_unoffloaded (s : Ingress) (h : s.bridged.missed = s.bridged) :
    s.offload_connection_table T.unoffloaded = (s.offload_connection_table T).missed := by
  have hs : s.offload_connection_table T.unoffloaded = s := rfl
  rw [hs]
  unfold offload_connection_table
  split
  · exact (missed_eq h).symm
  next d hd =>
    rw [← missed_eq h]
    rfl

theorem classify_unoffloaded :
    (init hdr).classify X T.unoffloaded port = ((init hdr).classify X T port).missed := by
  unfold classify
  dsimp only [init]
  split
  · unfold arp_table
    dsimp only [Tables.unoffloaded]
    split <;> rfl
  · split
    next ipv4 tcp h4 ht =>
      exact offload_unoffloaded (((((init hdr).calculate_payload_table ipv4 tcp).vip_lookup_table
        ipv4 tcp).dip_lookup_table T ipv4 tcp).calculate_crc8 X) (unhit _ _ _ rfl)
    · split <;> rfl

theorem bit (b : BitVec 1) : b = 0 ∨ b = 1 := by
  revert b
  decide

theorem hit_ne_miss : ¬ (1 : BitVec 1) = 0 := by decide

theorem miss_ne_hit : ¬ (0 : BitVec 1) = 1 := by decide

/-- Without the hit, a segment that was not marked for a backend or a client keeps its mark. -/
theorem mark_missed {s : Ingress} {syn fin rst : BitVec 1}
    (hd : (s.mark syn fin rst).bridged.d_flag ≠ 1) (hv : (s.mark syn fin rst).bridged.v_flag ≠ 1) :
    s.missed.mark syn fin rst = (s.mark syn fin rst).missed := by
  unfold mark at hd hv ⊢
  dsimp only [Ingress.missed, Bridge.missed] at hd hv ⊢
  by_cases h0 : s.direction = 0b000
  · simp only [if_pos h0]
  by_cases h4 : s.direction = 0b100
  · simp only [if_neg h0, if_pos h4]
  by_cases h1 : s.direction = 0b001
  · -- with a hit, the segment goes to the front-end for its payload only
    simp only [if_neg h0, if_neg h4, if_pos h1] at hd hv ⊢
    by_cases hsyn : syn = 1
    · simp only [if_pos hsyn]
    by_cases hend : fin = 1 ∨ rst = 1
    · simp only [if_neg hsyn, if_pos hend]
    simp only [if_neg hsyn, if_neg hend] at hd hv ⊢
    obtain hh | hh := bit s.bridged.hit_flag
    · simp only [if_pos hh, if_true]
    · by_cases hpay : s.bridged.payload_flag = 1
      · simp only [hh, hpay, and_self, if_true, if_neg hit_ne_miss]
      · simp only [hh, hpay, and_false, if_true, if_false, if_neg hit_ne_miss] at hd
        exact absurd rfl hd
  by_cases h2 : s.direction = 0b010
  · simp only [if_neg h0, if_neg h4, if_neg h1, if_pos h2] at hd hv ⊢
    by_cases hend : fin = 1 ∨ rst = 1
    · simp only [if_pos hend]
    simp only [if_neg hend] at hd hv ⊢
    obtain hh | hh := bit s.bridged.hit_flag
    · simp only [hh, if_neg miss_ne_hit, if_true]
    · simp only [if_pos hh] at hv
      exact absurd rfl hv
  · simp only [if_neg h0, if_neg h4, if_neg h1, if_neg h2]

/-- The port does not depend on the hit, unless the frame is marked for a backend. -/
theorem route_missed {s : Ingress} (hd : s.bridged.d_flag ≠ 1) :
    s.missed.route T.unoffloaded port = (s.route T port).missed := by
  have apply_missed : ∀ (s : Ingress) (p : Option EgressPort),
      s.missed.apply_egress_port p = (s.apply_egress_port p).missed := fun s p => by
    cases p <;> rfl
  unfold route
  dsimp only [Ingress.missed, Bridge.missed] at hd ⊢
  simp only [hd, if_false]
  split_ifs
  · exact apply_missed s _
  · rfl
  · rfl
  · exact apply_missed s _
  · rfl

/-- A frame that is not direct leaves ingress as without offloaded connections, the results of the
look-up apart. -/
theorem ingress_unoffloaded (h : ¬ Direct X T port hdr) :
    SwitchIngress X T.unoffloaded port hdr = (SwitchIngress X T port hdr).missed := by
  unfold Direct at h
  rw [ingress_bridged, not_or] at h
  unfold SwitchIngress
  dsimp only
  rw [classify_unoffloaded, mark_missed h.1 h.2, route_missed h.1]

/-! ### Egress without the hit -/

/-- The state with another bridge header. -/
def Egress.with_bridge (b : Bridge) (s : Egress) : Egress := { s with bridged := b }

section egress

variable {b b' : Bridge}

theorem parse_tcp_bridge (ipv4 : Ipv4) (s : Egress) (l : List Byte)
    (hb : b'.syn_respond = s.bridged.syn_respond) :
    (s.with_bridge b').parse_tcp X ipv4 l =
      (s.parse_tcp X ipv4 l).map (Prod.map (Egress.with_bridge b') id) := by
  unfold Egress.parse_tcp
  cases tcp_h.extract l with
  | none => rfl
  | some x =>
      simp only [Option.bind_some, Egress.with_bridge, hb]
      by_cases hs : s.bridged.syn_respond = 1
      · rw [if_pos hs, if_pos hs, parse_tcp_options, parse_tcp_options]
        split_ifs <;> rfl
      · rw [if_neg hs, if_neg hs]
        rfl

theorem parse_ipv4_bridge (s : Egress) (l : List Byte)
    (hb : b'.syn_respond = s.bridged.syn_respond) :
    (s.with_bridge b').parse_ipv4 X l =
      (s.parse_ipv4 X l).map (Prod.map (Egress.with_bridge b') id) := by
  unfold Egress.parse_ipv4
  cases ipv4_h.extract l with
  | none => rfl
  | some x =>
      obtain ⟨ipv4, l⟩ := x
      simp only [Option.bind_some]
      split_ifs
      · exact parse_tcp_bridge ipv4 { s with hdr := { s.hdr with ipv4 := some ipv4 } } l hb
      · unfold Egress.parse_udp
        cases udp_h.extract l <;> rfl
      · rfl

theorem parse_vlan_bridge (s : Egress) (l : List Byte)
    (hb : b'.syn_respond = s.bridged.syn_respond) :
    (s.with_bridge b').parse_vlan X l =
      (s.parse_vlan X l).map (Prod.map (Egress.with_bridge b') id) := by
  unfold Egress.parse_vlan
  cases vlan_tag_h.extract l with
  | none => rfl
  | some x =>
      obtain ⟨vlan_tag, l⟩ := x
      simp only [Option.bind_some]
      split_ifs
      · unfold Egress.parse_arp
        cases arp_h.extract l <;> rfl
      · exact parse_ipv4_bridge { s with hdr := { s.hdr with vlan_tag := some vlan_tag } } l hb
      · rfl

/-- The egress parser reads the bridge header to know whether a SYN is answered, and no more. -/
theorem egress_parser_bridge (l : List Byte) (hb : b'.syn_respond = b.syn_respond) :
    SwitchEgressParser X (bridge_h.emit b' ++ l) =
      (SwitchEgressParser X (bridge_h.emit b ++ l)).map (Prod.map (Egress.with_bridge b') id) := by
  unfold SwitchEgressParser
  simp only [Format.extract_emit, Option.bind_some]
  cases ethernet_h.extract l with
  | none => rfl
  | some x =>
      obtain ⟨ethernet, l⟩ := x
      simp only [Option.bind_some]
      let s : Egress := ⟨{ Header.none_valid with ethernet := some ethernet }, b, 0⟩
      split_ifs
      · unfold Egress.parse_arp
        cases arp_h.extract l <;> rfl
      · exact parse_ipv4_bridge s l hb
      · exact parse_vlan_bridge s l hb
      · rfl

/-- What the egress parser accepts carries the bridge header it read. -/
theorem egress_parser_bridged {l r : List Byte} {s : Egress}
    (h : SwitchEgressParser X (bridge_h.emit b ++ l) = some (s, r)) : s.bridged = b := by
  have h' := egress_parser_bridge (X := X) l (rfl : b.syn_respond = b.syn_respond)
  rw [h, Option.map_some] at h'
  exact congrArg (fun x : Egress × List Byte => x.1.bridged) (Option.some.inj h')

/-- Egress after a hit that no mark uses is egress after a miss. -/
theorem egress_missed (l : List Byte) (hd : b.d_flag ≠ 1) :
    egress X T.unoffloaded (bridge_h.emit b.missed ++ l) = egress X T (bridge_h.emit b ++ l) := by
  have hp : SwitchEgressParser X (bridge_h.emit b.missed ++ l) =
      (SwitchEgressParser X (bridge_h.emit b ++ l)).map (Prod.map (Egress.with_bridge b.missed) id) :=
    egress_parser_bridge l rfl
  unfold egress
  rw [hp]
  cases h : SwitchEgressParser X (bridge_h.emit b ++ l) with
  | none => rfl
  | some x =>
      obtain ⟨s, r⟩ := x
      have hs : s.bridged = b := egress_parser_bridged h
      have hm : SwitchEgress X T.unoffloaded (s.with_bridge b.missed) =
          (SwitchEgress X T s).with_bridge b.missed := by
        unfold SwitchEgress
        dsimp only [Egress.with_bridge, Bridge.missed]
        rw [hs]
        cases s.hdr.ipv4 with
        | none => rfl
        | some ipv4 =>
            cases s.hdr.tcp with
            | none => rfl
            | some tcp =>
                by_cases hsyn : b.syn_respond = 1
                · simp only [hsyn, if_true]
                by_cases hv : b.v_flag = 1
                · simp only [hsyn, hd, hv, if_true, if_false]
                · simp only [hsyn, hd, hv, if_false]
      have hb : (SwitchEgress X T s).bridged = b := by
        rw [← hs]
        unfold SwitchEgress
        dsimp only
        repeat' split
        all_goals rfl
      simp only [Option.map_some, Prod.map, id]
      rw [hm]
      unfold SwitchEgressDeparser update_checksums tcp_checksum Egress.with_bridge
      rw [hb]
      rfl

end egress

/-- The ingress deparser emits the bridge header in front of the rest. -/
theorem deparser_missed (s : Ingress) (rest : List Byte) :
    ∃ l, SwitchIngressDeparser s rest = bridge_h.emit s.bridged ++ l ∧
      SwitchIngressDeparser s.missed rest = bridge_h.emit s.bridged.missed ++ l := by
  refine ⟨emit ethernet_h s.hdr.ethernet ++ (emit arp_h s.hdr.arp ++ (emit ipv4_h s.hdr.ipv4 ++
    (emit tcp_h s.hdr.tcp ++ (emit udp_h s.hdr.udp ++ rest)))), ?_, ?_⟩
  · unfold SwitchIngressDeparser
    simp only [List.append_assoc]
  · unfold SwitchIngressDeparser
    simp only [List.append_assoc]
    rfl

/-- A frame that bypasses egress was not looked up. -/
theorem bypass_missed (h : (SwitchIngress X T port hdr).bypass_egress = 1) :
    (SwitchIngress X T port hdr).missed = SwitchIngress X T port hdr := by
  obtain ⟨ipv4, tcp, -, -, hc⟩ | ⟨hd, hb⟩ := classify_cases X T port hdr
  · exact absurd ((handed_of_classified hc).bypass_egress.symm.trans h) (by decide)
  · exact missed_eq (by rw [ingress_plain X T port hd hb]; rfl)

/-- **A frame that is not direct** is sent as by a switch without offloaded connections. -/
theorem switch_unoffloaded (h : SwitchIngressParser pkt = some (hdr, rest))
    (hn : ¬ Direct X T port hdr) : switch X T.unoffloaded port pkt = switch X T port pkt := by
  have hd : (SwitchIngress X T port hdr).bridged.d_flag ≠ 1 := fun hd => hn (.inl hd)
  obtain ⟨l, hl, hm⟩ := deparser_missed (SwitchIngress X T port hdr) rest
  unfold switch
  rw [h, Option.bind_some, Option.bind_some]
  dsimp only
  rw [ingress_unoffloaded hn]
  have hdrop : (SwitchIngress X T port hdr).missed.drop_ctl =
    (SwitchIngress X T port hdr).drop_ctl := rfl
  have hby : (SwitchIngress X T port hdr).missed.bypass_egress =
    (SwitchIngress X T port hdr).bypass_egress := rfl
  rw [hdrop, hby]
  by_cases h₁ : (SwitchIngress X T port hdr).drop_ctl = 0
  · rw [if_neg (not_not.mpr h₁), if_neg (not_not.mpr h₁)]
    by_cases h₂ : (SwitchIngress X T port hdr).bypass_egress = 1
    · rw [if_pos h₂, if_pos h₂, bypass_missed h₂]
    · rw [if_neg h₂, if_neg h₂, hl, hm, egress_missed l hd]
      rfl
  · rw [if_pos h₁, if_pos h₁]

/-- A frame that is not direct is marked for a front-end or not, with or without offloaded
connections. -/
theorem lb_unoffloaded (hn : ¬ Direct X T port hdr) :
    (SwitchIngress X T.unoffloaded port hdr).bridged.lb_flag =
      (SwitchIngress X T port hdr).bridged.lb_flag := by
  rw [ingress_unoffloaded hn]
  rfl

/-! ### Direct frames -/

/-- Without the hit, a segment marked for a backend or a client is marked for a front-end. -/
theorem mark_direct {s : Ingress} {syn fin rst : BitVec 1} (hd : s.bridged.d_flag = 0)
    (hv : s.bridged.v_flag = 0)
    (h : (s.mark syn fin rst).bridged.d_flag = 1 ∨ (s.mark syn fin rst).bridged.v_flag = 1) :
    s.missed.mark syn fin rst = { s.missed with bridged := { s.bridged.missed with lb_flag := 1 } } := by
  rcases h with h | h
  · obtain ⟨hdir, hsyn, hfin, hrst, -⟩ := mark_d_flag hd h
    have hfr : ¬ (fin = 1 ∨ rst = 1) := not_or.mpr ⟨hfin, hrst⟩
    unfold mark Ingress.missed Bridge.missed
    dsimp only
    rw [hdir, if_neg (by decide), if_neg (by decide), if_pos rfl, if_neg hsyn, if_neg hfr, if_pos rfl]
  · obtain ⟨hdir, hfin, hrst, -⟩ := mark_v_flag hv h
    have hfr : ¬ (fin = 1 ∨ rst = 1) := not_or.mpr ⟨hfin, hrst⟩
    unfold mark Ingress.missed Bridge.missed
    dsimp only
    rw [hdir, if_neg (by decide), if_neg (by decide), if_neg (by decide), if_pos rfl, if_neg hfr,
      if_neg (by decide), if_pos rfl]

/-- What a direct frame is. -/
theorem direct_cases (h : Direct X T port hdr) :
    ∃ ipv4 tcp, hdr.ipv4 = some ipv4 ∧ hdr.tcp = some tcp ∧
      Classified T ipv4 tcp (init hdr) ((init hdr).classify X T port) := by
  unfold Direct at h
  rw [ingress_bridged] at h
  refine classified_of_direction ?_
  rcases h with h | h
  · rw [(mark_d_flag classify_unmarked.1 h).1]
    decide
  · rw [(mark_v_flag classify_unmarked.2 h).1]
    decide

/-- No table marks a segment for a front-end or for an answer. -/
theorem classify_not_lb : ((init hdr).classify X T port).bridged.lb_flag = 0 ∧
    ((init hdr).classify X T port).bridged.syn_respond = 0 := by
  obtain ⟨ipv4, tcp, -, -, hc⟩ | ⟨-, hb⟩ := classify_cases X T port hdr
  · rw [hc.flags]
    exact ⟨rfl, rfl⟩
  · rw [hb]
    exact ⟨rfl, rfl⟩

/-- What is marked for a front-end is not marked for anything else. -/
theorem ingress_lb_only (h : (SwitchIngress X T port hdr).bridged.lb_flag = 1) :
    (SwitchIngress X T port hdr).bridged.syn_respond = 0 ∧
      (SwitchIngress X T port hdr).bridged.d_flag = 0 ∧
      (SwitchIngress X T port hdr).bridged.v_flag = 0 := by
  rw [ingress_bridged] at h ⊢
  rw [mark_lb_flag classify_not_lb.1 h]
  exact ⟨classify_not_lb.2, classify_unmarked⟩

/-- A segment that egress has nothing to do with leaves with its headers unchanged, MAC addresses and
checksums apart. -/
theorem unmarked_relayed {tcp : Tcp} (h : SwitchIngressParser pkt = some (hdr, rest))
    (htype : (toMem pkt).nb16 12 = ETHERTYPE_IPV4) (ht : hdr.tcp = some tcp)
    (hh : Handed hdr (SwitchIngress X T port hdr))
    (hsyn : (SwitchIngress X T port hdr).bridged.syn_respond = 0)
    (hd : (SwitchIngress X T port hdr).bridged.d_flag = 0)
    (hv : (SwitchIngress X T port hdr).bridged.v_flag = 0) :
    ∃ e ipv4 e' c₁ c₂, hdr = tcp_headers e ipv4 tcp ∧ pkt = tcp_frame e ipv4 tcp rest ∧
      ipv4.protocol = IP_PROTOCOLS_TCP ∧ e'.ether_type = ETHERTYPE_IPV4 ∧
      switch X T port pkt = some ((SwitchIngress X T port hdr).ucast_egress_port,
        tcp_frame e' { ipv4 with hdr_checksum := c₁ } { tcp with checksum := c₂ } rest) := by
  obtain ⟨e, ipv4, rfl, he, hp, hf, hpkt⟩ := parser_tcp h htype ht
  obtain ⟨e', he', hdep⟩ := hh.deparsed he rest
  obtain ⟨c₁, c₂, heg⟩ := egress_tcp X T tcp rest hsyn he' hp hf
  have hrw : rewrite T (SwitchIngress X T port (tcp_headers e ipv4 tcp)).bridged ipv4 tcp =
      (ipv4, tcp) := by
    rw [rewrite, if_neg (by rw [hd]; decide), if_neg (by rw [hv]; decide)]
  rw [hrw] at heg
  refine ⟨e, ipv4, e', c₁, c₂, rfl, hpkt, hp, he', ?_⟩
  rw [switch_eq h rfl hh.drop_ctl hh.bypass_egress, hdep, heg]
  rfl

/-- **A direct frame** goes to the front-end if no connection is offloaded, with its headers
unchanged, MAC addresses and checksums apart. -/
theorem direct_relayed (h : SwitchIngressParser pkt = some (hdr, rest))
    (htype : (toMem pkt).nb16 12 = ETHERTYPE_IPV4) (hdirect : Direct X T port hdr) :
    (SwitchIngress X T.unoffloaded port hdr).bridged.lb_flag = 1 ∧
    ∃ e ipv4 tcp q e' c₁ c₂, hdr = tcp_headers e ipv4 tcp ∧ pkt = tcp_frame e ipv4 tcp rest ∧
      ipv4.protocol = IP_PROTOCOLS_TCP ∧ e'.ether_type = ETHERTYPE_IPV4 ∧
      switch X T.unoffloaded port pkt = some (q, tcp_frame e' { ipv4 with hdr_checksum := c₁ }
        { tcp with checksum := c₂ } rest) := by
  obtain ⟨ipv4₀, tcp, h4, ht, hc⟩ := direct_cases hdirect
  -- the mark, and what is left of the other marks
  unfold Direct at hdirect
  rw [ingress_bridged] at hdirect
  have hb : (SwitchIngress X T.unoffloaded port hdr).bridged =
      { ((init hdr).classify X T port).bridged.missed with lb_flag := 1 } := by
    rw [ingress_bridged, classify_unoffloaded,
      mark_direct classify_unmarked.1 classify_unmarked.2 hdirect]
  have hh : Handed hdr (SwitchIngress X T.unoffloaded port hdr) := by
    obtain ⟨ipv4', tcp', -, -, hc'⟩ | ⟨hd, hb'⟩ := classify_cases X T.unoffloaded port hdr
    · exact handed_of_classified hc'
    · rw [ingress_plain X T.unoffloaded port hd hb'] at hb
      exact absurd (congrArg Bridge.lb_flag hb) (by decide : (0 : BitVec 1) ≠ 1)
  obtain ⟨e, ipv4, e', c₁, c₂, hhdr, hpkt, hp, he', hsw⟩ := unmarked_relayed h htype ht hh
    (by rw [hb]; exact congrArg Bridge.syn_respond hc.flags)
    (by rw [hb]; exact classify_unmarked.1) (by rw [hb]; exact classify_unmarked.2)
  exact ⟨by rw [hb], e, ipv4, tcp, _, e', c₁, c₂, hhdr, hpkt, hp, he', hsw⟩

/-! ### The connection that was looked up -/

/-- Marking and routing leave the client that the tables found. -/
theorem ingress_client : (SwitchIngress X T port hdr).cip = ((init hdr).classify X T port).cip ∧
    (SwitchIngress X T port hdr).cport = ((init hdr).classify X T port).cport := by
  have hroute : ∀ s : Ingress, (s.route T port).cip = s.cip ∧ (s.route T port).cport = s.cport := by
    intro s
    have hp : ∀ p, (s.apply_egress_port p).cip = s.cip ∧ (s.apply_egress_port p).cport = s.cport :=
      fun p => by cases p <;> exact ⟨rfl, rfl⟩
    unfold route
    dsimp only
    split_ifs
    · exact hp _
    · exact hp _
    · exact ⟨rfl, rfl⟩
    · exact ⟨rfl, rfl⟩
    · exact hp _
    · exact ⟨rfl, rfl⟩
  obtain ⟨b, hb, -⟩ := mark_marked ((init hdr).classify X T port) (hdr.flag (·.syn))
    (hdr.flag (·.fin)) (hdr.flag (·.rst))
  have h := hroute (((init hdr).classify X T port).mark (hdr.flag (·.syn)) (hdr.flag (·.fin))
    (hdr.flag (·.rst)))
  rw [hb] at h
  unfold SwitchIngress
  dsimp only
  rw [hb]
  exact h

/-- A segment marked for a backend was looked up by its source. -/
theorem d_flag_client {ipv4 : Ipv4} {tcp : Tcp} (h4 : hdr.ipv4 = some ipv4) (ht : hdr.tcp = some tcp)
    (h : (SwitchIngress X T port hdr).bridged.d_flag = 1) :
    (SwitchIngress X T port hdr).cip = ipv4.src_addr ∧
      (SwitchIngress X T port hdr).cport = tcp.src_port := by
  obtain ⟨ipv4', tcp', h4', ht', hc⟩ := direct_cases (.inl h)
  cases Option.some.inj (h4.symm.trans h4')
  cases Option.some.inj (ht.symm.trans ht')
  rw [ingress_bridged] at h
  rw [ingress_client.1, ingress_client.2]
  exact (hc.inbound (mark_d_flag classify_unmarked.1 h).1).2.2

/-- A segment marked for a client was looked up by its destination. -/
theorem v_flag_client {ipv4 : Ipv4} {tcp : Tcp} (h4 : hdr.ipv4 = some ipv4) (ht : hdr.tcp = some tcp)
    (h : (SwitchIngress X T port hdr).bridged.v_flag = 1) :
    (SwitchIngress X T port hdr).cip = ipv4.dst_addr ∧
      (SwitchIngress X T port hdr).cport = tcp.dst_port := by
  obtain ⟨ipv4', tcp', h4', ht', hc⟩ := direct_cases (.inr h)
  cases Option.some.inj (h4.symm.trans h4')
  cases Option.some.inj (ht.symm.trans ht')
  rw [ingress_bridged] at h
  rw [ingress_client.1, ingress_client.2]
  exact (hc.outbound (mark_v_flag classify_unmarked.2 h).1).2

end Miresga.Switch
