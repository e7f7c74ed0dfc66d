import Miresga.Switch.Headers

/-!
# Switch — the pipeline

`l7lb_switch.p4` with its parsers and deparsers.  A frame passes `SwitchIngressParser`,
`SwitchIngress` and `SwitchIngressDeparser`; unless it bypasses egress, what was emitted passes
`SwitchEgressParser`, `SwitchEgress` and `SwitchEgressDeparser`.

* A parser works on the bytes that are left; one that runs out of bytes or rejects gives `none`.
* A table is the function from its keys to the parameters of its action; `none` is its default.
  `dest_to_egress_port_table` is the longest prefix match of an address.  A key that is read from a
  header that is not valid is `Tables.invalid_key`.
* `Externs` are the hash and checksum units of the chip.
* The bridge header is valid throughout ingress and extracted into metadata in egress, so it stands
  beside the headers; of the intrinsic metadata, the fields that the program writes are kept.
-/

namespace Miresga.Switch

/-! ### Constants -/

def ETHERTYPE_IPV4 : BitVec 16 := 0x0800
def ETHERTYPE_ARP : BitVec 16 := 0x0806
def ETHERTYPE_VLAN : BitVec 16 := 0x8100
def IP_PROTOCOLS_TCP : BitVec 8 := 6
def IP_PROTOCOLS_UDP : BitVec 8 := 17
def MSS_VALUE : BitVec 16 := 1460
def WINDOW_SCALE : BitVec 8 := 7
def VIRTUAL_IP : BitVec 32 := 0x0a00010A
def VIRTUAL_PORT : BitVec 16 := 80
def SWITCH_IP : BitVec 32 := 0x0a0001FE
def SWITCH_PORT : BitVec 16 := 12345

/-! ### Headers of a frame -/

/-- The option headers of a SYN-ACK. -/
structure Options where
  mss : BitVec 8 × BitVec 8 × BitVec 16
  nop_1 : BitVec 8
  nop_2 : BitVec 8
  sack_permitted : BitVec 8 × BitVec 8
  nop_3 : BitVec 8
  window_scale : BitVec 8 × BitVec 8 × BitVec 8
  deriving DecidableEq

/-- `header_t`: the headers that are valid.  The six option headers become valid together. -/
structure Header where
  ethernet : Option Ethernet
  vlan_tag : Option VlanTag
  arp : Option Arp
  ipv4 : Option Ipv4
  tcp : Option Tcp
  udp : Option Udp
  options : Option Options

def Header.none_valid : Header := ⟨none, none, none, none, none, none, none⟩

/-! ### The environment -/

/-- The parameters of `set_egress_port`. -/
structure EgressPort where
  src_mac : BitVec 48
  dst_mac : BitVec 48
  dst_port : BitVec 9

structure Tables where
  arp_table : BitVec 16 → BitVec 32 → Option (BitVec 48)
  dip_lookup_table : BitVec 32 → BitVec 16 → Bool
  offload_connection_table : BitVec 32 → BitVec 16 → Option (BitVec 8)
  dest_to_egress_port_table : BitVec 32 → Option EgressPort
  d_index_to_egress_port_table : BitVec 8 → Option EgressPort
  lb_index_to_egress_port_table : BitVec 8 → Option EgressPort
  d_index_to_ip_port_table : BitVec 8 → Option (BitVec 32 × BitVec 16)
  invalid_key : BitVec 32

structure Externs where
  /-- `lb_index_hasher` -/
  crc8 : BitVec 32 → BitVec 16 → BitVec 8
  /-- `seq_hasher` -/
  crc32 : BitVec 32 → BitVec 16 → BitVec 32
  /-- `Checksum.update`, of the bytes of the listed fields -/
  update : List Byte → BitVec 16
  /-- What `subtract_all_and_deposit` leaves, of the bytes subtracted and the bytes left -/
  deposit : List Byte → List Byte → BitVec 16

/-! ### Ingress parser -/

def parse_tcp (hdr : Header) (pkt : List Byte) : Option (Header × List Byte) :=
  (tcp_h.extract pkt).map fun (tcp, pkt) => ({ hdr with tcp := some tcp }, pkt)

def parse_udp (hdr : Header) (pkt : List Byte) : Option (Header × List Byte) :=
  (udp_h.extract pkt).map fun (udp, pkt) => ({ hdr with udp := some udp }, pkt)

def parse_arp (hdr : Header) (pkt : List Byte) : Option (Header × List Byte) :=
  (arp_h.extract pkt).map fun (arp, pkt) => ({ hdr with arp := some arp }, pkt)

/-- The next header of a fragment is not parsed. -/
def parse_ipv4 (hdr : Header) (pkt : List Byte) : Option (Header × List Byte) :=
  (ipv4_h.extract pkt).bind fun (ipv4, pkt) =>
    let hdr := { hdr with ipv4 := some ipv4 }
    if ipv4.protocol = IP_PROTOCOLS_TCP ∧ ipv4.frag_offset = 0 then parse_tcp hdr pkt
    else if ipv4.protocol = IP_PROTOCOLS_UDP ∧ ipv4.frag_offset = 0 then parse_udp hdr pkt
    else some (hdr, pkt)

def parse_vlan (hdr : Header) (pkt : List Byte) : Option (Header × List Byte) :=
  (vlan_tag_h.extract pkt).bind fun (vlan_tag, pkt) =>
    let hdr := { hdr with vlan_tag := some vlan_tag }
    if vlan_tag.ether_type = ETHERTYPE_ARP then parse_arp hdr pkt
    else if vlan_tag.ether_type = ETHERTYPE_IPV4 then parse_ipv4 hdr pkt
    else some (hdr, pkt)

def SwitchIngressParser (pkt : List Byte) : Option (Header × List Byte) :=
  (ethernet_h.extract pkt).bind fun (ethernet, pkt) =>
    let hdr := { Header.none_valid with ethernet := some ethernet }
    if ethernet.ether_type = ETHERTYPE_ARP then parse_arp hdr pkt
    else if ethernet.ether_type = ETHERTYPE_IPV4 then parse_ipv4 hdr pkt
    else if ethernet.ether_type = ETHERTYPE_VLAN then parse_vlan hdr pkt
    else some (hdr, pkt)

/-! ### Ingress -/

/-- What `SwitchIngress` works on: headers, metadata and intrinsic metadata. -/
structure Ingress where
  hdr : Header
  bridged : Bridge
  cip : BitVec 32
  cport : BitVec 16
  hash_result : BitVec 8
  direction : BitVec 3
  drop_ctl : BitVec 3
  ucast_egress_port : BitVec 9
  bypass_egress : BitVec 1

/-- The state `parse_md` sets up.  The program sets a port where a table names one; a frame for which
none does is followed with port 0, whatever the traffic manager makes of it. -/
def Ingress.init (hdr : Header) : Ingress where
  hdr := hdr
  bridged := ⟨0, 0, 0, 0, 0, 0, 0, 1, 0⟩
  cip := 0
  cport := 0
  hash_result := 0
  direction := 0
  drop_ctl := 0
  ucast_egress_port := 0
  bypass_egress := 0

namespace Ingress

def set_egress_port (s : Ingress) (p : EgressPort) : Ingress :=
  { s with
    hdr := { s.hdr with
      ethernet := s.hdr.ethernet.map fun e => { e with src_addr := p.src_mac, dst_addr := p.dst_mac } }
    ucast_egress_port := p.dst_port }

/-- A table whose only action besides `nop` is `set_egress_port`. -/
def apply_egress_port (s : Ingress) (p : Option EgressPort) : Ingress :=
  match p with
  | none => s
  | some p => s.set_egress_port p

/-- `reply_arp`; the statements run in order, so that both copies read what was just written. -/
def reply_arp (s : Ingress) (ingress_port : BitVec 9) (arp_mac : BitVec 48) (arp : Arp) : Ingress :=
  let ethernet := s.hdr.ethernet.map fun e => { e with dst_addr := e.src_addr }
  let ethernet := ethernet.map fun e => { e with src_addr := arp_mac }
  let arp := { arp with opcode := 2 }
  let arp := { arp with sender_hw_addr := arp_mac }
  let arp := { arp with sender_proto_addr := arp.target_proto_addr }
  let arp := { arp with target_hw_addr := (ethernet.map Ethernet.src_addr).getD 0 }
  let arp := { arp with target_proto_addr := arp.sender_proto_addr }
  { s with
    hdr := { s.hdr with ethernet := ethernet, arp := some arp }
    ucast_egress_port := ingress_port }

def arp_table (T : Tables) (ingress_port : BitVec 9) (arp : Arp) (s : Ingress) : Ingress :=
  match T.arp_table arp.opcode arp.target_proto_addr with
  | some arp_mac => s.reply_arp ingress_port arp_mac arp
  | none => { s with drop_ctl := 1 }

/-- The entries of `calculate_payload_table`. -/
def no_payload : List (BitVec 16 × BitVec 4) :=
  [(40, 5), (44, 6), (48, 7), (52, 8), (56, 9), (60, 10), (64, 11), (68, 12), (72, 13), (76, 14),
    (80, 15)]

def calculate_payload_table (ipv4 : Ipv4) (tcp : Tcp) (s : Ingress) : Ingress :=
  if (ipv4.total_len, tcp.data_offset) ∈ no_payload then
    { s with bridged := { s.bridged with payload_flag := 0 } }
  else s

def vip_lookup_table (ipv4 : Ipv4) (tcp : Tcp) (s : Ingress) : Ingress :=
  if ipv4.dst_addr = VIRTUAL_IP ∧ tcp.dst_port = VIRTUAL_PORT then
    { s with direction := 0b001, cip := ipv4.src_addr, cport := tcp.src_port }
  else if ipv4.dst_addr = SWITCH_IP ∧ tcp.dst_port = SWITCH_PORT then { s with direction := 0b100 }
  else s

def dip_lookup_table (T : Tables) (ipv4 : Ipv4) (tcp : Tcp) (s : Ingress) : Ingress :=
  if T.dip_lookup_table ipv4.src_addr tcp.src_port then
    { s with direction := 0b010, cip := ipv4.dst_addr, cport := tcp.dst_port }
  else s

def calculate_crc8 (X : Externs) (s : Ingress) : Ingress :=
  { s with hash_result := X.crc8 s.cip s.cport }

def offload_connection_table (T : Tables) (s : Ingress) : Ingress :=
  match T.offload_connection_table s.cip s.cport with
  | none => s
  | some d_index => { s with bridged := { s.bridged with index := d_index, hit_flag := 1 } }

/-- The tables for a TCP segment. -/
def tcp_tables (X : Externs) (T : Tables) (ipv4 : Ipv4) (tcp : Tcp) (s : Ingress) : Ingress :=
  let s := s.calculate_payload_table ipv4 tcp
  let s := s.vip_lookup_table ipv4 tcp
  let s := s.dip_lookup_table T ipv4 tcp
  let s := s.calculate_crc8 X
  s.offload_connection_table T

/-- The first half of `apply`. -/
def classify (X : Externs) (T : Tables) (ingress_port : BitVec 9) (s : Ingress) : Ingress :=
  match s.hdr.arp with
  | some arp => { s.arp_table T ingress_port arp with bypass_egress := 1 }
  | none =>
    match s.hdr.ipv4, s.hdr.tcp with
    | some ipv4, some tcp => s.tcp_tables X T ipv4 tcp
    | _, _ =>
      match s.hdr.udp with
      | some _ => { s with bypass_egress := 1 }
      | none => s

/-- How a segment of the given direction and flags is to be handled. -/
def mark (s : Ingress) (syn fin rst : BitVec 1) : Ingress :=
  let b := s.bridged
  if s.direction = 0b000 then { s with bridged := { b with forward_to_dest := 1 } }
  else if s.direction = 0b100 then { s with bridged := { b with cpu_flag := 1 } }
  else if s.direction = 0b001 then
    if syn = 1 then { s with bridged := { b with syn_respond := 1 } }
    else if fin = 1 ∨ rst = 1 then { s with bridged := { b with lb_flag := 1 } }
    else if b.hit_flag = 0 then { s with bridged := { b with lb_flag := 1 } }
    else if b.hit_flag = 1 ∧ b.payload_flag = 1 then { s with bridged := { b with lb_flag := 1 } }
    else if b.hit_flag = 1 then { s with bridged := { b with d_flag := 1 } }
    else s
  else if s.direction = 0b010 then
    if fin = 1 ∨ rst = 1 then { s with bridged := { b with lb_flag := 1 } }
    else if b.hit_flag = 1 then { s with bridged := { b with v_flag := 1, forward_to_dest := 1 } }
    else if b.hit_flag = 0 then { s with bridged := { b with lb_flag := 1 } }
    else s
  else s

/-- The choice of the port. -/
def route (T : Tables) (ingress_port : BitVec 9) (s : Ingress) : Ingress :=
  let b := s.bridged
  if b.lb_flag = 1 then s.apply_egress_port (T.lb_index_to_egress_port_table s.hash_result)
  else if b.d_flag = 1 then s.apply_egress_port (T.d_index_to_egress_port_table b.index)
  else if b.cpu_flag = 1 then { s with ucast_egress_port := 192 }
  else if b.syn_respond = 1 then
    { s with
      hdr := { s.hdr with
        ethernet := s.hdr.ethernet.map fun e =>
          { e with dst_addr := e.src_addr, src_addr := 0xabababcdcdcd } }
      ucast_egress_port := ingress_port }
  else if b.forward_to_dest = 1 then
    s.apply_egress_port
      (T.dest_to_egress_port_table ((s.hdr.ipv4.map (·.dst_addr)).getD T.invalid_key))
  else s

end Ingress

/-- The flags a segment's direction is looked at with; only a TCP segment has a direction. -/
def Header.flag (hdr : Header) (f : Tcp → BitVec 1) : BitVec 1 := (hdr.tcp.map f).getD 0

def SwitchIngress (X : Externs) (T : Tables) (ingress_port : BitVec 9) (hdr : Header) : Ingress :=
  let s := (Ingress.init hdr).classify X T ingress_port
  (s.mark (hdr.flag (·.syn)) (hdr.flag (·.fin)) (hdr.flag (·.rst))).route T ingress_port

/-- Emits a header if it is valid. -/
def emit {α : Type} (F : Format α) (h : Option α) : List Byte := (h.map F.emit).getD []

/-- `SwitchIngressDeparser`, in front of the bytes that were not parsed. -/
def SwitchIngressDeparser (s : Ingress) (rest : List Byte) : List Byte :=
  bridge_h.emit s.bridged ++ emit ethernet_h s.hdr.ethernet ++ emit arp_h s.hdr.arp ++
    emit ipv4_h s.hdr.ipv4 ++ emit tcp_h s.hdr.tcp ++ emit udp_h s.hdr.udp ++ rest

/-! ### Egress parser -/

/-- What `SwitchEgress` works on. -/
structure Egress where
  hdr : Header
  bridged : Bridge
  tcp_udp_checksum : BitVec 16

/-- The addresses of an IPv4 header, as they are subtracted. -/
def Ipv4.addrs (h : Ipv4) : List Byte := be32 h.src_addr ++ be32 h.dst_addr

/-- `pkt.advance(160)` skips 20 bytes, or runs out of them. -/
def parse_tcp_options (s : Egress) (pkt : List Byte) : Option (Egress × List Byte) :=
  if 20 ≤ pkt.length then some (s, pkt.drop 20) else none

namespace Egress

def parse_tcp (X : Externs) (ipv4 : Ipv4) (s : Egress) (pkt : List Byte) :
    Option (Egress × List Byte) :=
  (tcp_h.extract pkt).bind fun (tcp, pkt) =>
    let s :=
      { s with
        hdr := { s.hdr with tcp := some tcp }
        tcp_udp_checksum := X.deposit (ipv4.addrs ++ tcp_h.emit tcp) pkt }
    if s.bridged.syn_respond = 1 then parse_tcp_options s pkt else some (s, pkt)

def parse_udp (s : Egress) (pkt : List Byte) : Option (Egress × List Byte) :=
  (udp_h.extract pkt).map fun (udp, pkt) => ({ s with hdr := { s.hdr with udp := some udp } }, pkt)

def parse_arp (s : Egress) (pkt : List Byte) : Option (Egress × List Byte) :=
  (arp_h.extract pkt).map fun (arp, pkt) => ({ s with hdr := { s.hdr with arp := some arp } }, pkt)

def parse_ipv4 (X : Externs) (s : Egress) (pkt : List Byte) : Option (Egress × List Byte) :=
  (ipv4_h.extract pkt).bind fun (ipv4, pkt) =>
    let s := { s with hdr := { s.hdr with ipv4 := some ipv4 } }
    if ipv4.protocol = IP_PROTOCOLS_TCP ∧ ipv4.frag_offset = 0 then s.parse_tcp X ipv4 pkt
    else if ipv4.protocol = IP_PROTOCOLS_UDP ∧ ipv4.frag_offset = 0 then s.parse_udp pkt
    else some (s, pkt)

/-- Unlike in ingress, an unknown type behind a tag is rejected. -/
def parse_vlan (X : Externs) (s : Egress) (pkt : List Byte) : Option (Egress × List Byte) :=
  (vlan_tag_h.extract pkt).bind fun (vlan_tag, pkt) =>
    let s := { s with hdr := { s.hdr with vlan_tag := some vlan_tag } }
    if vlan_tag.ether_type = ETHERTYPE_ARP then s.parse_arp pkt
    else if vlan_tag.ether_type = ETHERTYPE_IPV4 then s.parse_ipv4 X pkt
    else none

end Egress

def SwitchEgressParser (X : Externs) (pkt : List Byte) : Option (Egress × List Byte) :=
  (bridge_h.extract pkt).bind fun (bridged, pkt) =>
  (ethernet_h.extract pkt).bind fun (ethernet, pkt) =>
    let s : Egress := ⟨{ Header.none_valid with ethernet := some ethernet }, bridged, 0⟩
    if ethernet.ether_type = ETHERTYPE_ARP then s.parse_arp pkt
    else if ethernet.ether_type = ETHERTYPE_IPV4 then s.parse_ipv4 X pkt
    else if ethernet.ether_type = ETHERTYPE_VLAN then s.parse_vlan X pkt
    else none

/-! ### Egress -/

/-- The TCP header of `syn_reply`; `seq` was computed before the addresses were swapped. -/
def syn_reply_tcp (seq : BitVec 32) (tcp : Tcp) : Tcp :=
  { tcp with
    syn := 1, ack := 1, ack_no := tcp.seq_no + 1, seq_no := seq,
    src_port := tcp.dst_port, dst_port := tcp.src_port, data_offset := 8, checksum := 0 }

def syn_reply_ipv4 (ipv4 : Ipv4) : Ipv4 :=
  { ipv4 with src_addr := ipv4.dst_addr, dst_addr := ipv4.src_addr, total_len := 52 }

/-- `options_set` -/
def options_set : Options where
  mss := (2, 4, MSS_VALUE)
  nop_1 := 1
  nop_2 := 1
  sack_permitted := (4, 2)
  nop_3 := 1
  window_scale := (3, 3, WINDOW_SCALE)

def Options.emit (o : Options) : List Byte :=
  [o.mss.1, o.mss.2.1] ++ be16 o.mss.2.2 ++ [o.nop_1, o.nop_2, o.sack_permitted.1,
    o.sack_permitted.2, o.nop_3, o.window_scale.1, o.window_scale.2.1, o.window_scale.2.2]

/-- `psd_header` as `syn_reply` fills it, for the segment after the swap.  The program does not make
this header valid; its fields are taken to read back what was written into them. -/
def psd_header (ipv4 : Ipv4) : List Byte := ipv4.addrs ++ [0, IP_PROTOCOLS_TCP] ++ be16 32

def SwitchEgress (X : Externs) (T : Tables) (s : Egress) : Egress :=
  match s.hdr.ipv4, s.hdr.tcp with
  | some ipv4, some tcp =>
    if s.bridged.syn_respond = 1 then
      { s with
        hdr := { s.hdr with
          ipv4 := some (syn_reply_ipv4 ipv4)
          tcp := some (syn_reply_tcp (X.crc32 ipv4.src_addr tcp.src_port) tcp)
          options := some options_set } }
    else if s.bridged.d_flag = 1 then
      match T.d_index_to_ip_port_table s.bridged.index with
      | none => s
      | some (dst_ip, dst_port) =>
        { s with
          hdr := { s.hdr with
            ipv4 := some { ipv4 with dst_addr := dst_ip }
            tcp := some { tcp with dst_port := dst_port } } }
    else if s.bridged.v_flag = 1 then
      { s with
        hdr := { s.hdr with
          ipv4 := some { ipv4 with src_addr := VIRTUAL_IP }
          tcp := some { tcp with src_port := VIRTUAL_PORT } } }
    else s
  | _, _ => s

/-! ### Egress deparser -/

/-- The bytes of an IPv4 header that its checksum is over: all but the checksum. -/
def Ipv4.summed (h : Ipv4) : List Byte := (ipv4_h.emit h).take 10 ++ (ipv4_h.emit h).drop 12

/-- The TCP checksum: of a SYN-ACK over all of it, else an update by the rewritten fields. -/
def tcp_checksum (X : Externs) (s : Egress) (ipv4 : Ipv4) (tcp : Tcp) : BitVec 16 :=
  if s.bridged.syn_respond = 1 then
    X.update (psd_header ipv4 ++ tcp_h.emit tcp ++ (s.hdr.options.map Options.emit).getD [])
  else
    X.update (ipv4.addrs ++ be16 tcp.src_port ++ be16 tcp.dst_port ++ be16 s.tcp_udp_checksum)

/-- The headers with their checksums updated. -/
def update_checksums (X : Externs) (s : Egress) : Header :=
  let ipv4 := s.hdr.ipv4.map fun h => { h with hdr_checksum := X.update h.summed }
  let tcp :=
    match s.hdr.ipv4, s.hdr.tcp with
    | some ipv4, some tcp => some { tcp with checksum := tcp_checksum X s ipv4 tcp }
    | _, tcp => tcp
  { s.hdr with ipv4 := ipv4, tcp := tcp }

/-- `SwitchEgressDeparser`; tags, ARP and UDP headers are not emitted. -/
def SwitchEgressDeparser (X : Externs) (s : Egress) (rest : List Byte) : List Byte :=
  let hdr := update_checksums X s
  emit ethernet_h hdr.ethernet ++ emit ipv4_h hdr.ipv4 ++ emit tcp_h hdr.tcp ++
    (hdr.options.map Options.emit).getD [] ++ rest

/-! ### The whole switch -/

/-- The egress half, from the bytes ingress emitted to the frame on the wire. -/
def egress (X : Externs) (T : Tables) (pkt : List Byte) : Option (List Byte) :=
  (SwitchEgressParser X pkt).map fun (s, rest) =>
    SwitchEgressDeparser X (SwitchEgress X T s) rest

/-- The frame that leaves the switch, with its port, for one received on `ingress_port`. -/
def switch (X : Externs) (T : Tables) (ingress_port : BitVec 9) (pkt : List Byte) :
    Option (BitVec 9 × List Byte) :=
  (SwitchIngressParser pkt).bind fun (hdr, rest) =>
    let s := SwitchIngress X T ingress_port hdr
    let pkt := SwitchIngressDeparser s rest
    if s.drop_ctl ≠ 0 then none
    else if s.bypass_egress = 1 then some (s.ucast_egress_port, pkt)
    else (egress X T pkt).map fun pkt => (s.ucast_egress_port, pkt)

end Miresga.Switch
