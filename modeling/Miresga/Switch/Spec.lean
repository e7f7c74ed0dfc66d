import Miresga.Switch.Pipeline

/-!
# Switch — what the switch forwards by itself

* `ingress_d_flag`, `ingress_v_flag`: the segments that ingress marks for a backend or for a client,
  with all the guards they have passed.
* `egress_tcp`: what egress makes of the frame that ingress emitted for a TCP segment.  The egress
  parser reads back the headers ingress held, so that the frame on the wire is written in terms of
  the received one.
-/

namespace Miresga.Switch

variable {X : Externs} {T : Tables} {port : BitVec 9} {hdr : Header}

/-! ### Ingress -/

namespace Ingress

@[simp] theorem apply_egress_port_bridged (s : Ingress) (p : Option EgressPort) :
    (s.apply_egress_port p).bridged = s.bridged := by
  cases p <;> rfl

@[simp] theorem apply_egress_port_drop (s : Ingress) (p : Option EgressPort) :
    (s.apply_egress_port p).drop_ctl = s.drop_ctl := by
  cases p <;> rfl

@[simp] theorem apply_egress_port_bypass (s : Ingress) (p : Option EgressPort) :
    (s.apply_egress_port p).bypass_egress = s.bypass_egress := by
  cases p <;> rfl

/-- The headers differ in the MAC addresses at most. -/
def SameButMac (h h' : Header) : Prop :=
  ∃ f : Ethernet → Ethernet, (∀ e, (f e).ether_type = e.ether_type) ∧
    h' = { h with ethernet := h.ethernet.map f }

theorem SameButMac.refl (h : Header) : SameButMac h h := by
  refine ⟨id, fun _ => rfl, ?_⟩
  rw [Option.map_id_fun]
  rfl

theorem apply_egress_port_hdr (s : Ingress) (p : Option EgressPort) :
    SameButMac s.hdr (s.apply_egress_port p).hdr := by
  cases p with
  | none => exact .refl _
  | some p =>
      exact ⟨fun e => { e with src_addr := p.src_mac, dst_addr := p.dst_mac }, fun _ => rfl, rfl⟩

theorem route_bridged (s : Ingress) : (s.route T port).bridged = s.bridged := by
  unfold route
  dsimp only
  split_ifs <;> simp

theorem route_drop (s : Ingress) : (s.route T port).drop_ctl = s.drop_ctl := by
  unfold route
  dsimp only
  split_ifs <;> simp

theorem route_bypass (s : Ingress) : (s.route T port).bypass_egress = s.bypass_egress := by
  unfold route
  dsimp only
  split_ifs <;> simp

theorem route_hdr (T : Tables) (port : BitVec 9) (s : Ingress) :
    SameButMac s.hdr (s.route T port).hdr := by
  unfold route
  dsimp only
  split_ifs
  · exact apply_egress_port_hdr _ _
  · exact apply_egress_port_hdr _ _
  · exact .refl _
  · exact ⟨fun e => { e with dst_addr := e.src_addr, src_addr := 0xabababcdcdcd }, fun _ => rfl, rfl⟩
  · exact apply_egress_port_hdr _ _
  · exact .refl _

/-- The bridge header after marking, with the guards of the branch that wrote it. -/
inductive Marked (s : Ingress) (syn fin rst : BitVec 1) : Bridge → Prop where
  | to_dest (hd : s.direction = 0b000) : Marked s syn fin rst { s.bridged with forward_to_dest := 1 }
  | to_cpu (hd : s.direction = 0b100) : Marked s syn fin rst { s.bridged with cpu_flag := 1 }
  | respond (hd : s.direction = 0b001) (hs : syn = 1) :
      Marked s syn fin rst { s.bridged with syn_respond := 1 }
  | client_lb (hd : s.direction = 0b001) (hs : syn ≠ 1)
      (hl : (fin = 1 ∨ rst = 1) ∨ s.bridged.hit_flag = 0 ∨ s.bridged.payload_flag = 1) :
      Marked s syn fin rst { s.bridged with lb_flag := 1 }
  | to_backend (hd : s.direction = 0b001) (hs : syn ≠ 1) (hf : fin ≠ 1) (hr : rst ≠ 1)
      (hh : s.bridged.hit_flag = 1) (hp : s.bridged.payload_flag ≠ 1) :
      Marked s syn fin rst { s.bridged with d_flag := 1 }
  | backend_lb (hd : s.direction = 0b010) (hl : (fin = 1 ∨ rst = 1) ∨ s.bridged.hit_flag = 0) :
      Marked s syn fin rst { s.bridged with lb_flag := 1 }
  | to_client (hd : s.direction = 0b010) (hf : fin ≠ 1) (hr : rst ≠ 1)
      (hh : s.bridged.hit_flag = 1) :
      Marked s syn fin rst { s.bridged with v_flag := 1, forward_to_dest := 1 }
  | unmarked (hd : s.direction ≠ 0b000) : Marked s syn fin rst s.bridged

/-- **Marking** changes flags of the bridge header only. -/
theorem mark_marked (s : Ingress) (syn fin rst : BitVec 1) :
    ∃ b, s.mark syn fin rst = { s with bridged := b } ∧ Marked s syn fin rst b := by
  unfold mark
  dsimp only
  by_cases h₀ : s.direction = 0b000
  · exact ⟨_, if_pos h₀, .to_dest h₀⟩
  rw [if_neg h₀]
  by_cases h₁ : s.direction = 0b100
  · exact ⟨_, if_pos h₁, .to_cpu h₁⟩
  rw [if_neg h₁]
  by_cases h₂ : s.direction = 0b001
  · rw [if_pos h₂]
    by_cases hs : syn = 1
    · exact ⟨_, if_pos hs, .respond h₂ hs⟩
    rw [if_neg hs]
    by_cases hf : fin = 1 ∨ rst = 1
    · exact ⟨_, if_pos hf, .client_lb h₂ hs (.inl hf)⟩
    rw [if_neg hf]
    by_cases hh : s.bridged.hit_flag = 0
    · exact ⟨_, if_pos hh, .client_lb h₂ hs (.inr (.inl hh))⟩
    rw [if_neg hh]
    by_cases hp : s.bridged.hit_flag = 1 ∧ s.bridged.payload_flag = 1
    · exact ⟨_, if_pos hp, .client_lb h₂ hs (.inr (.inr hp.2))⟩
    rw [if_neg hp]
    by_cases hh' : s.bridged.hit_flag = 1
    · rw [not_or] at hf
      exact ⟨_, if_pos hh', .to_backend h₂ hs hf.1 hf.2 hh' fun h => hp ⟨hh', h⟩⟩
    · exact ⟨_, if_neg hh', .unmarked h₀⟩
  rw [if_neg h₂]
  by_cases h₃ : s.direction = 0b010
  · rw [if_pos h₃]
    by_cases hf : fin = 1 ∨ rst = 1
    · exact ⟨_, if_pos hf, .backend_lb h₃ (.inl hf)⟩
    rw [if_neg hf]
    by_cases hh : s.bridged.hit_flag = 1
    · rw [not_or] at hf
      exact ⟨_, if_pos hh, .to_client h₃ hf.1 hf.2 hh⟩
    rw [if_neg hh]
    by_cases hh' : s.bridged.hit_flag = 0
    · exact ⟨_, if_pos hh', .backend_lb h₃ (.inr hh')⟩
    · exact ⟨_, if_neg hh', .unmarked h₀⟩
  · exact ⟨_, if_neg h₃, .unmarked h₀⟩

theorem mark_rest (s : Ingress) (syn fin rst : BitVec 1) :
    (s.mark syn fin rst).hdr = s.hdr ∧ (s.mark syn fin rst).drop_ctl = s.drop_ctl ∧
      (s.mark syn fin rst).bypass_egress = s.bypass_egress ∧
      (s.mark syn fin rst).hash_result = s.hash_result := by
  obtain ⟨b, hb, -⟩ := mark_marked s syn fin rst
  rw [hb]
  exact ⟨rfl, rfl, rfl, rfl⟩

/-- A segment that is marked for a backend. -/
theorem mark_d_flag {s : Ingress} {syn fin rst : BitVec 1} (h₀ : s.bridged.d_flag = 0)
    (h : (s.mark syn fin rst).bridged.d_flag = 1) :
    s.direction = 0b001 ∧ syn ≠ 1 ∧ fin ≠ 1 ∧ rst ≠ 1 ∧ s.bridged.hit_flag = 1 ∧
      s.bridged.payload_flag ≠ 1 ∧
      (s.mark syn fin rst).bridged = { s.bridged with d_flag := 1 } := by
  obtain ⟨b, hb, hm⟩ := mark_marked s syn fin rst
  rw [hb] at h ⊢
  cases hm with
  | to_backend hd hs hf hr hh hp => exact ⟨hd, hs, hf, hr, hh, hp, rfl⟩
  -- every other branch leaves the flag as it was
  | _ => exact absurd (h₀.symm.trans h) (by decide)

/-- A segment that is marked for a client. -/
theorem mark_v_flag {s : Ingress} {syn fin rst : BitVec 1} (h₀ : s.bridged.v_flag = 0)
    (h : (s.mark syn fin rst).bridged.v_flag = 1) :
    s.direction = 0b010 ∧ fin ≠ 1 ∧ rst ≠ 1 ∧ s.bridged.hit_flag = 1 ∧
      (s.mark syn fin rst).bridged = { s.bridged with v_flag := 1, forward_to_dest := 1 } := by
  obtain ⟨b, hb, hm⟩ := mark_marked s syn fin rst
  rw [hb] at h ⊢
  cases hm with
  | to_client hd hf hr hh => exact ⟨hd, hf, hr, hh, rfl⟩
  | _ => exact absurd (h₀.symm.trans h) (by decide)

/-- A segment that is marked for a front-end carries no other mark. -/
theorem mark_lb_flag {s : Ingress} {syn fin rst : BitVec 1} (h₀ : s.bridged.lb_flag = 0)
    (h : (s.mark syn fin rst).bridged.lb_flag = 1) :
    (s.mark syn fin rst).bridged = { s.bridged with lb_flag := 1 } := by
  obtain ⟨b, hb, hm⟩ := mark_marked s syn fin rst
  rw [hb] at h ⊢
  cases hm with
  | client_lb | backend_lb => rfl
  | _ => exact absurd (h₀.symm.trans h) (by decide)

/-- What the tables have said about a segment so far. -/
structure Classified (T : Tables) (ipv4 : Ipv4) (tcp : Tcp) (s₀ s : Ingress) : Prop where
  hdr : s.hdr = s₀.hdr
  drop_ctl : s.drop_ctl = s₀.drop_ctl
  bypass_egress : s.bypass_egress = s₀.bypass_egress
  inbound : s.direction = 0b001 → ipv4.dst_addr = VIRTUAL_IP ∧ tcp.dst_port = VIRTUAL_PORT ∧
    s.cip = ipv4.src_addr ∧ s.cport = tcp.src_port
  outbound : s.direction = 0b010 → T.dip_lookup_table ipv4.src_addr tcp.src_port = true ∧
    s.cip = ipv4.dst_addr ∧ s.cport = tcp.dst_port
  flags : s.bridged = { s₀.bridged with
    payload_flag := s.bridged.payload_flag, hit_flag := s.bridged.hit_flag,
    index := s.bridged.index }
  no_payload : s.bridged.payload_flag ≠ 1 → (ipv4.total_len, tcp.data_offset) ∈ no_payload
  hit : s.bridged.hit_flag = 1 → T.offload_connection_table s.cip s.cport = some s.bridged.index

namespace Classified

variable {ipv4 : Ipv4} {tcp : Tcp} {s₀ s : Ingress}

theorem init (hdr : Header) : Classified T ipv4 tcp (Ingress.init hdr) (Ingress.init hdr) where
  hdr := rfl
  drop_ctl := rfl
  bypass_egress := rfl
  inbound h := absurd (a := (0b000 : BitVec 3) = 0b001) h (by decide)
  outbound h := absurd (a := (0b000 : BitVec 3) = 0b010) h (by decide)
  flags := rfl
  no_payload h := absurd rfl h
  hit h := absurd (a := (0 : BitVec 1) = 1) h (by decide)

theorem payload (h : Classified T ipv4 tcp s₀ s) :
    Classified T ipv4 tcp s₀ (s.calculate_payload_table ipv4 tcp) := by
  unfold calculate_payload_table
  split_ifs with hp
  · exact { h with flags := by rw [h.flags], no_payload := fun _ => hp }
  · exact h

theorem vip (h : Classified T ipv4 tcp s₀ s) (h₀ : s.bridged.hit_flag = 0) :
    Classified T ipv4 tcp s₀ (s.vip_lookup_table ipv4 tcp) := by
  have no_hit : s.bridged.hit_flag ≠ 1 := by rw [h₀]; decide
  unfold vip_lookup_table
  split_ifs with h₁ h₂
  · exact { h with
      inbound := fun _ => ⟨h₁.1, h₁.2, rfl, rfl⟩
      outbound := fun hd => absurd (a := (0b001 : BitVec 3) = 0b010) hd (by decide)
      hit := fun hh => absurd hh no_hit }
  · exact { h with
      inbound := fun hd => absurd (a := (0b100 : BitVec 3) = 0b001) hd (by decide)
      outbound := fun hd => absurd (a := (0b100 : BitVec 3) = 0b010) hd (by decide) }
  · exact h

theorem dip (h : Classified T ipv4 tcp s₀ s) (h₀ : s.bridged.hit_flag = 0) :
    Classified T ipv4 tcp s₀ (s.dip_lookup_table T ipv4 tcp) := by
  have no_hit : s.bridged.hit_flag ≠ 1 := by rw [h₀]; decide
  unfold dip_lookup_table
  split_ifs with h₁
  · exact { h with
      inbound := fun hd => absurd (a := (0b010 : BitVec 3) = 0b001) hd (by decide)
      outbound := fun _ => ⟨h₁, rfl, rfl⟩
      hit := fun hh => absurd hh no_hit }
  · exact h

theorem crc8 (h : Classified T ipv4 tcp s₀ s) : Classified T ipv4 tcp s₀ (s.calculate_crc8 X) :=
  { h with }

theorem offload (h : Classified T ipv4 tcp s₀ s) :
    Classified T ipv4 tcp s₀ (s.offload_connection_table T) := by
  unfold offload_connection_table
  split
  · exact h
  next d hd => exact { h with flags := by rw [h.flags], hit := fun _ => hd }

end Classified

/-- The tables in front of `offload_connection_table` leave the hit flag. -/
theorem dip_vip_hit_flag (s : Ingress) (ipv4 : Ipv4) (tcp : Tcp) :
    (s.vip_lookup_table ipv4 tcp).bridged.hit_flag = s.bridged.hit_flag ∧
      (s.calculate_payload_table ipv4 tcp).bridged.hit_flag = s.bridged.hit_flag := by
  unfold vip_lookup_table calculate_payload_table
  constructor <;> split_ifs <;> rfl

theorem tcp_tables_init (hdr : Header) (ipv4 : Ipv4) (tcp : Tcp) :
    Classified T ipv4 tcp (init hdr) ((init hdr).tcp_tables X T ipv4 tcp) := by
  have h₁ := (dip_vip_hit_flag (init hdr) ipv4 tcp).2
  have h₂ := (dip_vip_hit_flag ((init hdr).calculate_payload_table ipv4 tcp) ipv4 tcp).1.trans h₁
  exact ((((Classified.init hdr).payload.vip h₁).dip h₂).crc8).offload

/-- A frame is a TCP segment, classified by the tables, or it has no direction and no flags. -/
theorem classify_cases (X : Externs) (T : Tables) (port : BitVec 9) (hdr : Header) :
    (∃ ipv4 tcp, hdr.ipv4 = some ipv4 ∧ hdr.tcp = some tcp ∧
      Classified T ipv4 tcp (init hdr) ((init hdr).classify X T port)) ∨
    (((init hdr).classify X T port).direction = 0 ∧
      ((init hdr).classify X T port).bridged = (init hdr).bridged) := by
  unfold classify
  dsimp only [init]
  split
  · unfold arp_table
    right
    split <;> exact ⟨rfl, rfl⟩
  · split
    next ipv4 tcp h4 ht => exact .inl ⟨ipv4, tcp, h4, ht, tcp_tables_init hdr ipv4 tcp⟩
    · right
      split <;> exact ⟨rfl, rfl⟩

/-- No table marks a segment. -/
theorem classify_unmarked : ((init hdr).classify X T port).bridged.d_flag = 0 ∧
    ((init hdr).classify X T port).bridged.v_flag = 0 := by
  obtain ⟨ipv4, tcp, -, -, h⟩ | ⟨-, h⟩ := classify_cases X T port hdr
  · rw [h.flags]
    exact ⟨rfl, rfl⟩
  · rw [h]
    exact ⟨rfl, rfl⟩

theorem classified_of_direction (h : ((init hdr).classify X T port).direction ≠ 0) :
    ∃ ipv4 tcp, hdr.ipv4 = some ipv4 ∧ hdr.tcp = some tcp ∧
      Classified T ipv4 tcp (init hdr) ((init hdr).classify X T port) :=
  (classify_cases X T port hdr).resolve_right fun h' => h h'.1

end Ingress

open Ingress

/-- Routing changes the port and the MAC addresses only. -/
theorem ingress_bridged : (SwitchIngress X T port hdr).bridged =
    (((init hdr).classify X T port).mark (hdr.flag (·.syn)) (hdr.flag (·.fin))
      (hdr.flag (·.rst))).bridged :=
  route_bridged _

/-- What ingress hands to egress of a segment that it forwards by itself. -/
structure Handed (hdr : Header) (s : Ingress) : Prop where
  hdr : SameButMac hdr s.hdr
  drop_ctl : s.drop_ctl = 0
  bypass_egress : s.bypass_egress = 0

theorem handed_of_classified {ipv4 : Ipv4} {tcp : Tcp}
    (h : Classified T ipv4 tcp (init hdr) ((init hdr).classify X T port)) :
    Handed hdr (SwitchIngress X T port hdr) := by
  obtain ⟨h₁, h₂, h₃, -⟩ := mark_rest ((init hdr).classify X T port) (hdr.flag (·.syn))
    (hdr.flag (·.fin)) (hdr.flag (·.rst))
  refine ⟨?_, ?_, ?_⟩
  · have hr := route_hdr T port (((init hdr).classify X T port).mark
      (hdr.flag (·.syn)) (hdr.flag (·.fin)) (hdr.flag (·.rst)))
    rwa [h₁, h.hdr] at hr
  · exact (route_drop _).trans (h₂.trans h.drop_ctl)
  · exact (route_bypass _).trans (h₃.trans h.bypass_egress)

/-- **To a backend**: a segment that ingress marks with `d_flag` is a client's, without SYN, FIN and
RST, without payload, of a connection that is offloaded. -/
theorem ingress_d_flag (h : (SwitchIngress X T port hdr).bridged.d_flag = 1) :
    ∃ ipv4 tcp d, hdr.ipv4 = some ipv4 ∧ hdr.tcp = some tcp ∧
      ipv4.dst_addr = VIRTUAL_IP ∧ tcp.dst_port = VIRTUAL_PORT ∧
      tcp.syn ≠ 1 ∧ tcp.fin ≠ 1 ∧ tcp.rst ≠ 1 ∧
      (ipv4.total_len, tcp.data_offset) ∈ no_payload ∧
      T.offload_connection_table ipv4.src_addr tcp.src_port = some d ∧
      (∃ b, (SwitchIngress X T port hdr).bridged = ⟨0, 0, 1, 0, 0, 1, 0, b, d⟩) ∧
      Handed hdr (SwitchIngress X T port hdr) := by
  rw [ingress_bridged] at h ⊢
  obtain ⟨hd, hsyn, hfin, hrst, hhit, hp, hb⟩ := mark_d_flag classify_unmarked.1 h
  obtain ⟨ipv4, tcp, h4, ht, hc⟩ := classified_of_direction (by rw [hd]; decide)
  obtain ⟨hip, hport, hcip, hcport⟩ := hc.inbound hd
  have hl := hc.hit hhit
  rw [hcip, hcport] at hl
  have flag : ∀ f, hdr.flag f = f tcp := fun f => by rw [Header.flag, ht]; rfl
  rw [flag] at hsyn hfin hrst
  refine ⟨ipv4, tcp, _, h4, ht, hip, hport, hsyn, hfin, hrst, hc.no_payload hp, hl,
    ⟨((init hdr).classify X T port).bridged.payload_flag, ?_⟩, handed_of_classified hc⟩
  rw [hb, hc.flags, hhit]
  rfl

/-- **To a client**: a segment that ingress marks with `v_flag` is a backend's, without FIN and RST,
of a connection that is offloaded. -/
theorem ingress_v_flag (h : (SwitchIngress X T port hdr).bridged.v_flag = 1) :
    ∃ ipv4 tcp d, hdr.ipv4 = some ipv4 ∧ hdr.tcp = some tcp ∧
      T.dip_lookup_table ipv4.src_addr tcp.src_port = true ∧ tcp.fin ≠ 1 ∧ tcp.rst ≠ 1 ∧
      T.offload_connection_table ipv4.dst_addr tcp.dst_port = some d ∧
      (∃ b, (SwitchIngress X T port hdr).bridged = ⟨0, 0, 0, 1, 1, 1, 0, b, d⟩) ∧
      Handed hdr (SwitchIngress X T port hdr) := by
  rw [ingress_bridged] at h ⊢
  obtain ⟨hd, hfin, hrst, hhit, hb⟩ := mark_v_flag classify_unmarked.2 h
  obtain ⟨ipv4, tcp, h4, ht, hc⟩ := classified_of_direction (by rw [hd]; decide)
  obtain ⟨hdip, hcip, hcport⟩ := hc.outbound hd
  have hl := hc.hit hhit
  rw [hcip, hcport] at hl
  have flag : ∀ f, hdr.flag f = f tcp := fun f => by rw [Header.flag, ht]; rfl
  rw [flag] at hfin hrst
  refine ⟨ipv4, tcp, _, h4, ht, hdip, hfin, hrst, hl,
    ⟨((init hdr).classify X T port).bridged.payload_flag, ?_⟩, handed_of_classified hc⟩
  rw [hb, hc.flags, hhit]
  rfl

/-! ### Parsing -/

/-- The headers of an untagged TCP segment. -/
def tcp_headers (e : Ethernet) (ipv4 : Ipv4) (tcp : Tcp) : Header :=
  ⟨some e, none, none, some ipv4, some tcp, none, none⟩

/-- The bytes of an untagged TCP segment. -/
def tcp_frame (e : Ethernet) (ipv4 : Ipv4) (tcp : Tcp) (rest : List Byte) : List Byte :=
  ethernet_h.emit e ++ (ipv4_h.emit ipv4 ++ (tcp_h.emit tcp ++ rest))

theorem parse_tcp_eq {pkt rest : List Byte} {h₀ : Header}
    (h : parse_tcp h₀ pkt = some (hdr, rest)) :
    ∃ tcp, hdr = { h₀ with tcp := some tcp } ∧ pkt = tcp_h.emit tcp ++ rest := by
  obtain ⟨⟨tcp, r⟩, hx, heq⟩ := Option.map_eq_some_iff.mp h
  obtain ⟨rfl, rfl⟩ := Prod.mk.inj heq
  exact ⟨tcp, rfl, (tcp_h.emit_of_extract hx).symm⟩

/-- A TCP header is parsed behind an IPv4 header that is not a fragment's. -/
theorem parse_ipv4_eq {pkt rest : List Byte} {h₀ : Header} {tcp : Tcp} (h₁ : h₀.tcp = none)
    (h : parse_ipv4 h₀ pkt = some (hdr, rest)) (ht : hdr.tcp = some tcp) :
    ∃ ipv4, hdr = { h₀ with ipv4 := some ipv4, tcp := some tcp } ∧
      ipv4.protocol = IP_PROTOCOLS_TCP ∧ ipv4.frag_offset = 0 ∧
      pkt = ipv4_h.emit ipv4 ++ (tcp_h.emit tcp ++ rest) := by
  obtain ⟨⟨ipv4, r⟩, hx, hb⟩ := Option.bind_eq_some_iff.mp h
  have hpkt := (ipv4_h.emit_of_extract hx).symm
  dsimp only at hb
  split_ifs at hb with hp hu
  · obtain ⟨tcp', rfl, rfl⟩ := parse_tcp_eq hb
    obtain rfl : tcp' = tcp := Option.some.inj ht
    exact ⟨ipv4, rfl, hp.1, hp.2, hpkt⟩
  · obtain ⟨⟨udp, r'⟩, -, heq⟩ := Option.map_eq_some_iff.mp hb
    obtain ⟨rfl, -⟩ := Prod.mk.inj heq
    exact absurd (h₁.symm.trans ht) (by simp)
  · obtain ⟨rfl, -⟩ := Prod.mk.inj (Option.some.inj hb)
    exact absurd (h₁.symm.trans ht) (by simp)

/-- Of an untagged frame that has a TCP header, the three headers are all that was parsed. -/
theorem parser_tcp {pkt rest : List Byte} {tcp : Tcp}
    (h : SwitchIngressParser pkt = some (hdr, rest)) (htype : (toMem pkt).nb16 12 = ETHERTYPE_IPV4)
    (ht : hdr.tcp = some tcp) :
    ∃ e ipv4, hdr = tcp_headers e ipv4 tcp ∧ e.ether_type = ETHERTYPE_IPV4 ∧
      ipv4.protocol = IP_PROTOCOLS_TCP ∧ ipv4.frag_offset = 0 ∧
      pkt = tcp_frame e ipv4 tcp rest := by
  obtain ⟨⟨e, r⟩, hx, hb⟩ := Option.bind_eq_some_iff.mp h
  have hpkt := (ethernet_h.emit_of_extract hx).symm
  have he : e.ether_type = ETHERTYPE_IPV4 := by
    rw [(ethernet_h.decode_of_extract hx).1]
    exact htype
  dsimp only at hb
  rw [he, if_neg (by decide), if_pos rfl] at hb
  obtain ⟨ipv4, rfl, hp, hf, rfl⟩ := parse_ipv4_eq rfl hb ht
  exact ⟨e, ipv4, rfl, he, hp, hf, hpkt⟩

/-! ### Egress -/

/-- The rewriting of a segment in egress, apart from a SYN's. -/
def rewrite (T : Tables) (b : Bridge) (ipv4 : Ipv4) (tcp : Tcp) : Ipv4 × Tcp :=
  if b.d_flag = 1 then
    match T.d_index_to_ip_port_table b.index with
    | none => (ipv4, tcp)
    | some (ip, port) => ({ ipv4 with dst_addr := ip }, { tcp with dst_port := port })
  else if b.v_flag = 1 then
    ({ ipv4 with src_addr := VIRTUAL_IP }, { tcp with src_port := VIRTUAL_PORT })
  else (ipv4, tcp)

section egress

variable {b : Bridge} {e : Ethernet} {ipv4 : Ipv4} {tcp : Tcp} {rest : List Byte}

theorem rewrite_to {ip : BitVec 32} {port : BitVec 16} (hb : b.d_flag = 1)
    (hd : T.d_index_to_ip_port_table b.index = some (ip, port)) :
    rewrite T b ipv4 tcp = ({ ipv4 with dst_addr := ip }, { tcp with dst_port := port }) := by
  unfold rewrite
  rw [if_pos hb, hd]

theorem rewrite_out (hb : b.d_flag = 0) (hv : b.v_flag = 1) :
    rewrite T b ipv4 tcp =
      ({ ipv4 with src_addr := VIRTUAL_IP }, { tcp with src_port := VIRTUAL_PORT }) := by
  unfold rewrite
  rw [if_neg (by rw [hb]; decide), if_pos hv]

/-- The egress parser reads back what ingress emitted; behind a SYN to answer it goes on. -/
theorem egress_parser_frame (he : e.ether_type = ETHERTYPE_IPV4)
    (hp : ipv4.protocol = IP_PROTOCOLS_TCP) (hf : ipv4.frag_offset = 0) :
    let eg : Egress := ⟨tcp_headers e ipv4 tcp, b, X.deposit (ipv4.addrs ++ tcp_h.emit tcp) rest⟩
    SwitchEgressParser X (bridge_h.emit b ++ tcp_frame e ipv4 tcp rest) =
      if b.syn_respond = 1 then parse_tcp_options eg rest else some (eg, rest) := by
  unfold SwitchEgressParser tcp_frame Egress.parse_ipv4 Egress.parse_tcp
  simp only [Format.extract_emit, Option.bind_some, he]
  rw [if_neg (by decide), if_pos trivial, if_pos ⟨hp, hf⟩]
  rfl

theorem egress_parser_tcp (hb : ¬ b.syn_respond = 1) (he : e.ether_type = ETHERTYPE_IPV4)
    (hp : ipv4.protocol = IP_PROTOCOLS_TCP) (hf : ipv4.frag_offset = 0) :
    SwitchEgressParser X (bridge_h.emit b ++ tcp_frame e ipv4 tcp rest) =
      some (⟨tcp_headers e ipv4 tcp, b, X.deposit (ipv4.addrs ++ tcp_h.emit tcp) rest⟩, rest) :=
  (egress_parser_frame he hp hf).trans (if_neg hb)

theorem egress_rewrite (hb : ¬ b.syn_respond = 1) (c : BitVec 16) :
    SwitchEgress X T ⟨tcp_headers e ipv4 tcp, b, c⟩ =
      ⟨tcp_headers e (rewrite T b ipv4 tcp).1 (rewrite T b ipv4 tcp).2, b, c⟩ := by
  simp only [SwitchEgress, rewrite, tcp_headers, hb, if_false]
  by_cases hd : b.d_flag = 1
  · simp only [hd, if_true]
    cases T.d_index_to_ip_port_table b.index <;> rfl
  · simp only [hd, if_false]
    split_ifs <;> rfl

theorem egress_deparser_tcp (X : Externs) (e : Ethernet) (ipv4 : Ipv4) (tcp : Tcp)
    (rest : List Byte) (b : Bridge) (c : BitVec 16) :
    ∃ c₁ c₂, SwitchEgressDeparser X ⟨tcp_headers e ipv4 tcp, b, c⟩ rest =
      tcp_frame e { ipv4 with hdr_checksum := c₁ } { tcp with checksum := c₂ } rest := by
  refine ⟨X.update ipv4.summed, tcp_checksum X ⟨tcp_headers e ipv4 tcp, b, c⟩ ipv4 tcp, ?_⟩
  simp [SwitchEgressDeparser, update_checksums, tcp_headers, tcp_frame, emit]

/-- **Egress of a segment**, apart from a SYN that is answered: the headers are rewritten, with new
checksums, and the rest is as it was. -/
theorem egress_tcp (X : Externs) (T : Tables) (tcp : Tcp) (rest : List Byte)
    (hb : b.syn_respond = 0) (he : e.ether_type = ETHERTYPE_IPV4)
    (hp : ipv4.protocol = IP_PROTOCOLS_TCP) (hf : ipv4.frag_offset = 0) :
    ∃ c₁ c₂, egress X T (bridge_h.emit b ++ tcp_frame e ipv4 tcp rest) =
      some (tcp_frame e { (rewrite T b ipv4 tcp).1 with hdr_checksum := c₁ }
        { (rewrite T b ipv4 tcp).2 with checksum := c₂ } rest) := by
  have hsyn : ¬ b.syn_respond = 1 := by rw [hb]; decide
  obtain ⟨c₁, c₂, h⟩ := egress_deparser_tcp X e (rewrite T b ipv4 tcp).1
    (rewrite T b ipv4 tcp).2 rest b (X.deposit (ipv4.addrs ++ tcp_h.emit tcp) rest)
  refine ⟨c₁, c₂, ?_⟩
  unfold egress
  rw [egress_parser_tcp hsyn he hp hf, Option.map_some]
  dsimp only
  rw [egress_rewrite hsyn, h]

end egress

/-- A segment that ingress hands on is emitted with its headers, MAC addresses apart. -/
theorem Handed.deparsed {s : Ingress} {e : Ethernet} {ipv4 : Ipv4} {tcp : Tcp}
    (h : Handed (tcp_headers e ipv4 tcp) s) (he : e.ether_type = ETHERTYPE_IPV4)
    (rest : List Byte) :
    ∃ e', e'.ether_type = ETHERTYPE_IPV4 ∧
      SwitchIngressDeparser s rest = bridge_h.emit s.bridged ++ tcp_frame e' ipv4 tcp rest := by
  obtain ⟨f, hf, heq⟩ := h.hdr
  refine ⟨f e, (hf e).trans he, ?_⟩
  simp [SwitchIngressDeparser, heq, tcp_headers, tcp_frame, emit]

/-- **A segment the switch forwards by itself**: it leaves with the headers rewritten, with other
MAC addresses and checksums. -/
theorem switch_direct {pkt : List Byte} {rest : List Byte} {tcp : Tcp}
    (h : SwitchIngressParser pkt = some (hdr, rest)) (htype : (toMem pkt).nb16 12 = ETHERTYPE_IPV4)
    (ht : hdr.tcp = some tcp) (hh : Handed hdr (SwitchIngress X T port hdr))
    (hb : (SwitchIngress X T port hdr).bridged.syn_respond = 0) :
    ∃ e e' ipv4 c₁ c₂, hdr = tcp_headers e ipv4 tcp ∧ pkt = tcp_frame e ipv4 tcp rest ∧
      e.ether_type = ETHERTYPE_IPV4 ∧ ipv4.protocol = IP_PROTOCOLS_TCP ∧
      switch X T port pkt = some ((SwitchIngress X T port hdr).ucast_egress_port,
        tcp_frame e'
          { (rewrite T (SwitchIngress X T port hdr).bridged ipv4 tcp).1 with hdr_checksum := c₁ }
          { (rewrite T (SwitchIngress X T port hdr).bridged ipv4 tcp).2 with checksum := c₂ }
          rest) := by
  obtain ⟨e, ipv4, rfl, he, hp, hf, hpkt⟩ := parser_tcp h htype ht
  obtain ⟨e', he', hdep⟩ := hh.deparsed he rest
  obtain ⟨c₁, c₂, heg⟩ := egress_tcp X T tcp rest hb he' hp hf
  refine ⟨e, e', ipv4, c₁, c₂, rfl, hpkt, he, hp, ?_⟩
  unfold switch
  rw [h, Option.bind_some]
  dsimp only
  rw [if_neg (by rw [hh.drop_ctl]; decide), if_neg (by rw [hh.bypass_egress]; decide), hdep, heg]
  rfl

/-! ### The units of the chip -/

/-- The sum of the 16-bit words, an odd byte padded with zeros. -/
def word_sum : List Byte → Nat
  | [] => 0
  | [a] => a.toNat * 256
  | a :: b :: l => (a ++ b).toNat + word_sum l

/-- The complement of the sum with the carries added back in. -/
def internet_checksum (l : List Byte) : BitVec 16 :=
  let n := word_sum l
  ~~~ BitVec.ofNat 16 (if n = 0 then 0 else (n - 1) % 0xffff + 1)

/-- A bit of CRC-8 with the polynomial 0x07. -/
def crc8_bit (crc : BitVec 8) : BitVec 8 :=
  if crc.msb then (crc <<< 1) ^^^ 0x07 else crc <<< 1

/-- A bit of CRC-32 with the reflected polynomial 0xedb88320. -/
def crc32_bit (crc : BitVec 32) : BitVec 32 :=
  if crc.getLsbD 0 then (crc >>> 1) ^^^ 0xedb88320 else crc >>> 1

/-- Hashes by the standard CRC polynomials, and the Internet checksum. -/
def standard_externs : Externs where
  crc8 ip port := (be32 ip ++ be16 port).foldl (fun crc b => crc8_bit^[8] (crc ^^^ b)) 0
  crc32 ip port :=
    ~~~ (be32 ip ++ be16 port).foldl (fun crc b => crc32_bit^[8] (crc ^^^ b.setWidth 32)) 0xffffffff
  update := internet_checksum
  deposit subtracted left := internet_checksum (subtracted ++ left)

end Miresga.Switch
