import Miresga.Switch.Relay

/-!
# Switch — the answer to an ARP request

`reply_arp` turns a request around in place.  Its statements run in order, so the last two copies
read fields that were overwritten just before: the target hardware address becomes `arp_mac`, and the
target protocol address stays the requested one (`reply_arp_arp`).  An ARP frame has no direction, so
that `dest_to_egress_port_table` is applied to it as well, under the key of a header that is not there
(`ingress_reply_arp`).

* `arp_reply_iff`: when what comes out is the reply to the request all the same.
-/

namespace Miresga.Switch

open Ingress

variable {X : Externs} {T : Tables} {port : BitVec 9} {hdr : Header} {pkt rest : List Byte}
  {e : Ethernet} {arp : Arp} {arp_mac : BitVec 48}

/-- The ARP header that `reply_arp` leaves. -/
theorem reply_arp_arp (port : BitVec 9) (arp : Arp) (arp_mac : BitVec 48) {s : Ingress}
    (he : s.hdr.ethernet = some e) :
    (s.reply_arp port arp_mac arp).hdr.arp = some { arp with
      opcode := 2
      sender_hw_addr := arp_mac
      sender_proto_addr := arp.target_proto_addr
      target_hw_addr := arp_mac
      target_proto_addr := arp.target_proto_addr } := by
  unfold reply_arp
  rw [he]
  rfl

/-- A frame without direction is forwarded by its destination. -/
theorem mark_route_plain {s : Ingress} (syn fin rst : BitVec 1) (hd : s.direction = 0)
    (hb : s.bridged = ⟨0, 0, 0, 0, 0, 0, 0, 1, 0⟩) :
    (s.mark syn fin rst).route T port =
      { s with bridged := ⟨0, 0, 0, 0, 1, 0, 0, 1, 0⟩ }.apply_egress_port
        (T.dest_to_egress_port_table ((s.hdr.ipv4.map Ipv4.dst_addr).getD T.invalid_key)) := by
  have hm : s.mark syn fin rst = { s with bridged := ⟨0, 0, 0, 0, 1, 0, 0, 1, 0⟩ } := by
    unfold mark
    rw [if_pos hd, hb]
  rw [hm]
  unfold route
  dsimp only
  rw [if_neg (by decide), if_neg (by decide), if_neg (by decide), if_neg (by decide), if_pos rfl]

/-- **Ingress of an ARP frame that is answered**: `reply_arp`, and then the entry of
`dest_to_egress_port_table` for the key that an invalid header gives, if there is one. -/
theorem ingress_reply_arp (X : Externs) (port : BitVec 9) (ha : hdr.arp = some arp)
    (h4 : hdr.ipv4 = none)
    (hhit : T.arp_table arp.opcode arp.target_proto_addr = some arp_mac) :
    SwitchIngress X T port hdr =
      { (init hdr).reply_arp port arp_mac arp with
        bridged := ⟨0, 0, 0, 0, 1, 0, 0, 1, 0⟩
        bypass_egress := 1 }.apply_egress_port (T.dest_to_egress_port_table T.invalid_key) := by
  have hc : (init hdr).classify X T port =
      { (init hdr).reply_arp port arp_mac arp with bypass_egress := 1 } := by
    unfold classify arp_table
    dsimp only [init]
    rw [ha]
    dsimp only
    rw [hhit]
  have hd : ((init hdr).classify X T port).direction = 0 := by rw [hc]; rfl
  have hb : ((init hdr).classify X T port).bridged = ⟨0, 0, 0, 0, 0, 0, 0, 1, 0⟩ := by rw [hc]; rfl
  have h4' : ((init hdr).classify X T port).hdr.ipv4 = none := by
    rw [hc]
    exact h4
  unfold SwitchIngress
  dsimp only
  rw [mark_route_plain _ _ _ hd hb, h4', hc]
  rfl

/-- The frame held for the request with headers `e` and `arp` is the reply to it by `arp_mac`, bound
for the port it came in on.  The requester's hardware address is the source of the frame. -/
structure ArpReply (e : Ethernet) (arp : Arp) (arp_mac : BitVec 48) (port : BitVec 9) (s : Ingress) :
    Prop where
  ethernet : ∃ e', s.hdr.ethernet = some e' ∧ e'.dst_addr = e.src_addr ∧ e'.src_addr = arp_mac
  arp : ∃ arp', s.hdr.arp = some arp' ∧ arp'.opcode = 2 ∧
    arp'.sender_hw_addr = arp_mac ∧ arp'.sender_proto_addr = arp.target_proto_addr ∧
    arp'.target_hw_addr = e.src_addr ∧ arp'.target_proto_addr = arp.sender_proto_addr
  port : s.ucast_egress_port = port

/-- An entry that sets what the reply has anyway. -/
def EgressPort.Keeps (p : EgressPort) (src_mac dst_mac : BitVec 48) (port : BitVec 9) : Prop :=
  p.src_mac = src_mac ∧ p.dst_mac = dst_mac ∧ p.dst_port = port

/-- **When an ARP reply is correct.**  For every ARP frame with an entry in `arp_table`, and every
content of the other tables: what comes out of ingress is the reply exactly when the switch answers
in the requester's own name (hardware address and protocol address both), and no entry of
`dest_to_egress_port_table` for an invalid header changes it. -/
theorem arp_reply_iff (hparse : SwitchIngressParser pkt = some (hdr, rest))
    (he : hdr.ethernet = some e) (ha : hdr.arp = some arp)
    (hhit : T.arp_table arp.opcode arp.target_proto_addr = some arp_mac) :
    ArpReply e arp arp_mac port (SwitchIngress X T port hdr) ↔
      arp_mac = e.src_addr ∧ arp.target_proto_addr = arp.sender_proto_addr ∧
      ∀ p, T.dest_to_egress_port_table T.invalid_key = some p →
        p.Keeps arp_mac e.src_addr port := by
  have h4 : hdr.ipv4 = none := by
    obtain ⟨_, _, _, -, hl, -⟩ := ingress_parser_cases hparse
    refine (hl.arp_or.resolve_left fun h => ?_).1
    exact absurd (ha.symm.trans h) nofun
  have harp := reply_arp_arp port arp arp_mac (s := init hdr) he
  have heth : ((init hdr).reply_arp port arp_mac arp).hdr.ethernet =
      some { e with dst_addr := e.src_addr, src_addr := arp_mac } :=
    (reply_arp_ethernet (init hdr) port arp_mac arp).trans (congrArg (Option.map _) he)
  rw [ingress_reply_arp X port ha h4 hhit]
  cases T.dest_to_egress_port_table T.invalid_key with
  | none =>
      constructor
      · rintro ⟨-, ⟨arp', harp', -, -, -, htha, htpa⟩, -⟩
        obtain rfl := Option.some.inj (harp.symm.trans harp')
        exact ⟨htha, htpa, nofun⟩
      · rintro ⟨hmac, haddr, -⟩
        exact ⟨⟨_, heth, rfl, rfl⟩, ⟨_, harp, rfl, rfl, rfl, hmac, haddr⟩, rfl⟩
  | some p =>
      have heth' : ({ (init hdr).reply_arp port arp_mac arp with
          bridged := ⟨0, 0, 0, 0, 1, 0, 0, 1, 0⟩
          bypass_egress := 1 }.apply_egress_port (some p)).hdr.ethernet =
            some { e with dst_addr := p.dst_mac, src_addr := p.src_mac } := by
        rw [apply_egress_port, set_egress_port]
        dsimp only
        rw [heth]
        rfl
      constructor
      · rintro ⟨⟨e', he', hdst, hsrc⟩, ⟨arp', harp', -, -, -, htha, htpa⟩, hport⟩
        obtain rfl := Option.some.inj (harp.symm.trans harp')
        obtain rfl := Option.some.inj (heth'.symm.trans he')
        refine ⟨htha, htpa, fun q hq => ?_⟩
        obtain rfl := Option.some.inj hq
        exact ⟨hsrc, hdst, hport⟩
      · rintro ⟨hmac, haddr, hp⟩
        obtain ⟨hsrc, hdst, hport⟩ := hp p rfl
        exact ⟨⟨_, heth', hdst, hsrc⟩, ⟨_, harp, rfl, rfl, rfl, hmac, haddr⟩, hport⟩

/-- An ARP frame of 192.168.0.2, with the hardware address 02:00:00:00:00:02, that asks for an
address. -/
def arpFrame (target : BitVec 32) : List Byte :=
  ethernet_h.emit ⟨0xffffffffffff, 0x020000000002, ETHERTYPE_ARP⟩ ++
    arp_h.emit ⟨1, 0x0800, 6, 4, 1, 0x020000000002, 0xC0A80002, 0, target⟩

/-- The switch answers for the virtual server, and for 192.168.0.2 itself. -/
def arpTables : Tables :=
  { noTables with
    arp_table := fun opcode addr =>
      if opcode = 1 ∧ addr = VIRTUAL_IP then some 0xabababcdcdcd
      else if opcode = 1 ∧ addr = 0xC0A80002 then some 0x020000000002
      else none }

theorem arp_reply_sample : ArpReply ⟨0xffffffffffff, 0x020000000002, ETHERTYPE_ARP⟩
    ⟨1, 0x0800, 6, 4, 1, 0x020000000002, 0xC0A80002, 0, 0xC0A80002⟩ 0x020000000002 1
    (SwitchIngress standard_externs arpTables 1 (parsedFrame (arpFrame 0xC0A80002)).1) := by
  have h : SwitchIngressParser (arpFrame 0xC0A80002) = some (parsedFrame (arpFrame 0xC0A80002)) := by
    rfl
  exact (arp_reply_iff h (by rfl) (by rfl) (by decide +kernel)).mpr ⟨rfl, rfl, nofun⟩

/-- **A request for the virtual server** is answered with the switch's own address as the target
hardware address and the virtual server's as the target protocol address. -/
theorem arp_reply_not_swapped :
    SwitchIngressParser (arpFrame VIRTUAL_IP) = some (parsedFrame (arpFrame VIRTUAL_IP)) ∧
    arpTables.arp_table 1 VIRTUAL_IP = some 0xabababcdcdcd ∧
    (SwitchIngress standard_externs arpTables 1 (parsedFrame (arpFrame VIRTUAL_IP)).1).hdr.arp =
      some ⟨1, 0x0800, 6, 4, 2, 0xabababcdcdcd, VIRTUAL_IP, 0xabababcdcdcd, VIRTUAL_IP⟩ ∧
    ¬ ArpReply ⟨0xffffffffffff, 0x020000000002, ETHERTYPE_ARP⟩
      ⟨1, 0x0800, 6, 4, 1, 0x020000000002, 0xC0A80002, 0, VIRTUAL_IP⟩ 0xabababcdcdcd 1
      (SwitchIngress standard_externs arpTables 1 (parsedFrame (arpFrame VIRTUAL_IP)).1) := by
  have harp : (SwitchIngress standard_externs arpTables 1
      (parsedFrame (arpFrame VIRTUAL_IP)).1).hdr.arp =
        some ⟨1, 0x0800, 6, 4, 2, 0xabababcdcdcd, VIRTUAL_IP, 0xabababcdcdcd, VIRTUAL_IP⟩ := by
    decide +kernel
  refine ⟨by rfl, by decide +kernel, harp, ?_⟩
  rintro ⟨-, ⟨arp', harp', -, -, -, htha, -⟩, -⟩
  obtain rfl := Option.some.inj (harp.symm.trans harp')
  exact absurd htha (by decide)

end Miresga.Switch
