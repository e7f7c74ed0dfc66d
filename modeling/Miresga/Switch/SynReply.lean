import Miresga.Lib.OnesComplement
import Miresga.Switch.Relay

/-!
# Switch — the answer to a SYN

A client's SYN is answered by the switch itself.  Ingress marks it and sends it back to its port
(`ingress_syn`); the egress parser skips what it takes for the options, and the egress control turns
the headers around.

* `syn_answered_iff`: the egress parser skips 20 bytes behind the TCP header, whatever the data offset
  says, and rejects a frame that has fewer.
* `syn_ack_valid`: of a SYN it accepts, the answer is a SYN-ACK that acknowledges it, with lengths
  and checksums that fit.
-/

namespace Miresga.Switch

open Ingress

variable {X : Externs} {T : Tables} {port : BitVec 9} {hdr : Header} {pkt rest : List Byte}

/-! ### Ingress -/

/-- A segment that is marked as a SYN to answer carries no mark that comes before. -/
theorem mark_syn_respond {s : Ingress} {syn fin rst : BitVec 1} (h₀ : s.bridged.syn_respond = 0)
    (h : (s.mark syn fin rst).bridged.syn_respond = 1) :
    s.direction = 0b001 ∧ syn = 1 ∧
      (s.mark syn fin rst).bridged = { s.bridged with syn_respond := 1 } := by
  obtain ⟨b, hb, hm⟩ := mark_marked s syn fin rst
  rw [hb] at h ⊢
  cases hm with
  | respond hd hs => exact ⟨hd, hs, rfl⟩
  | _ => exact absurd (h₀.symm.trans h) (by decide)

/-- The Ethernet header of a SYN that goes back. -/
def Ethernet.returned (e : Ethernet) : Ethernet :=
  { e with dst_addr := e.src_addr, src_addr := 0xabababcdcdcd }

/-- The headers of a SYN that goes back. -/
def Header.returned (hdr : Header) : Header :=
  { hdr with ethernet := hdr.ethernet.map Ethernet.returned }

/-- Routing of a SYN to answer. -/
theorem route_syn (T : Tables) (port : BitVec 9) {s : Ingress} (hl : s.bridged.lb_flag = 0)
    (hd : s.bridged.d_flag = 0) (hc : s.bridged.cpu_flag = 0) (hs : s.bridged.syn_respond = 1) :
    s.route T port = { s with hdr := s.hdr.returned, ucast_egress_port := port } := by
  unfold route
  dsimp only
  rw [if_neg (by rw [hl]; decide), if_neg (by rw [hd]; decide), if_neg (by rw [hc]; decide),
    if_pos hs]
  rfl

/-- **A SYN to answer** is one to the virtual server, and goes back where it came from. -/
theorem ingress_syn_respond (h : (SwitchIngress X T port hdr).bridged.syn_respond = 1) :
    ∃ ipv4 tcp, hdr.ipv4 = some ipv4 ∧ hdr.tcp = some tcp ∧
      ipv4.dst_addr = VIRTUAL_IP ∧ tcp.dst_port = VIRTUAL_PORT ∧ tcp.syn = 1 ∧
      (SwitchIngress X T port hdr).hdr = hdr.returned ∧
      (SwitchIngress X T port hdr).ucast_egress_port = port ∧
      (SwitchIngress X T port hdr).drop_ctl = 0 ∧ (SwitchIngress X T port hdr).bypass_egress = 0 := by
  have h₀ : ((init hdr).classify X T port).bridged.syn_respond = 0 := by
    obtain ⟨ipv4, tcp, -, -, hc⟩ | ⟨-, hc⟩ := classify_cases X T port hdr
    · rw [hc.flags]
      rfl
    · rw [hc]
      rfl
  rw [ingress_bridged] at h
  obtain ⟨hd, hsyn, hb⟩ := mark_syn_respond h₀ h
  obtain ⟨ipv4, tcp, h4, ht, hc⟩ := classified_of_direction (by rw [hd]; decide)
  obtain ⟨hip, hport, -, -⟩ := hc.inbound hd
  have flag : hdr.flag (·.syn) = tcp.syn := by rw [Header.flag, ht]; rfl
  obtain ⟨hhdr, -, -, -⟩ := mark_rest ((init hdr).classify X T port) (hdr.flag (·.syn))
    (hdr.flag (·.fin)) (hdr.flag (·.rst))
  rw [hc.hdr] at hhdr
  -- none of the flags that routing looks at first is set
  have hroute := route_syn T port
    (by rw [hb, hc.flags]; rfl) (by rw [hb, hc.flags]; rfl) (by rw [hb, hc.flags]; rfl) h
  rw [hhdr] at hroute
  have hin : SwitchIngress X T port hdr = { ((init hdr).classify X T port).mark (hdr.flag (·.syn))
      (hdr.flag (·.fin)) (hdr.flag (·.rst)) with hdr := hdr.returned, ucast_egress_port := port } :=
    hroute
  have hh : Handed hdr (SwitchIngress X T port hdr) := handed_of_classified hc
  exact ⟨ipv4, tcp, h4, ht, hip, hport, flag ▸ hsyn, by rw [hin], by rw [hin], hh.drop_ctl,
    hh.bypass_egress⟩

/-- **Every SYN to the virtual server is to be answered**, unless a backend sent it. -/
theorem ingress_syn {ipv4 : Ipv4} {tcp : Tcp} (ha : hdr.arp = none) (h4 : hdr.ipv4 = some ipv4)
    (ht : hdr.tcp = some tcp) (hip : ipv4.dst_addr = VIRTUAL_IP) (hport : tcp.dst_port = VIRTUAL_PORT)
    (hdip : T.dip_lookup_table ipv4.src_addr tcp.src_port = false) (hsyn : tcp.syn = 1) :
    (SwitchIngress X T port hdr).bridged.syn_respond = 1 := by
  have hc : (init hdr).classify X T port = (init hdr).tcp_tables X T ipv4 tcp := by
    unfold classify
    dsimp only [init]
    rw [ha, h4, ht]
  have hd : ((init hdr).classify X T port).direction = 0b001 := by
    rw [hc, tcp_tables]
    have hoff (s : Ingress) : (s.offload_connection_table T).direction = s.direction := by
      unfold offload_connection_table
      split <;> rfl
    rw [hoff, calculate_crc8, dip_lookup_table, hdip, if_neg Bool.false_ne_true, vip_lookup_table,
      if_pos ⟨hip, hport⟩]
  have flag : hdr.flag (·.syn) = 1 := by
    rw [Header.flag, ht]
    exact hsyn
  rw [ingress_bridged, mark, hd, flag, if_neg (by decide), if_neg (by decide), if_pos rfl, if_pos rfl]

/-! ### Egress -/

section egress

variable {b : Bridge} {e : Ethernet} {ipv4 : Ipv4} {tcp : Tcp}

/-- **The egress parser on a SYN to answer** takes 20 bytes off behind the TCP header, whatever its
data offset says. -/
theorem egress_parser_syn (hb : b.syn_respond = 1) (he : e.ether_type = ETHERTYPE_IPV4)
    (hp : ipv4.protocol = IP_PROTOCOLS_TCP) (hf : ipv4.frag_offset = 0) :
    SwitchEgressParser X (bridge_h.emit b ++ tcp_frame e ipv4 tcp rest) =
      parse_tcp_options
        ⟨tcp_headers e ipv4 tcp, b, X.deposit (ipv4.addrs ++ tcp_h.emit tcp) rest⟩ rest :=
  (egress_parser_frame he hp hf).trans (if_pos hb)

/-- The headers of the answer: those of `syn_reply`, with the checksums of the egress deparser. -/
def answer_ipv4 (X : Externs) (ipv4 : Ipv4) : Ipv4 :=
  { syn_reply_ipv4 ipv4 with hdr_checksum := X.update (syn_reply_ipv4 ipv4).summed }

def answer_tcp (X : Externs) (ipv4 : Ipv4) (tcp : Tcp) : Tcp :=
  let reply := syn_reply_tcp (X.crc32 ipv4.src_addr tcp.src_port) tcp
  { reply with
    checksum :=
      X.update (psd_header (syn_reply_ipv4 ipv4) ++ tcp_h.emit reply ++ options_set.emit) }

/-- **Egress of a SYN to answer.** -/
theorem egress_syn (T : Tables) (hb : b.syn_respond = 1) (he : e.ether_type = ETHERTYPE_IPV4)
    (hp : ipv4.protocol = IP_PROTOCOLS_TCP) (hf : ipv4.frag_offset = 0) (hr : 20 ≤ rest.length) :
    egress X T (bridge_h.emit b ++ tcp_frame e ipv4 tcp rest) =
      some (tcp_frame e (answer_ipv4 X ipv4) (answer_tcp X ipv4 tcp)
        (options_set.emit ++ rest.drop 20)) := by
  unfold egress
  rw [egress_parser_syn hb he hp hf, parse_tcp_options, if_pos hr, Option.map_some]
  simp [SwitchEgress, tcp_headers, hb, SwitchEgressDeparser, update_checksums, tcp_checksum, tcp_frame,
    answer_ipv4, answer_tcp, emit]

end egress

/-! ### The answer -/

/-- Headers `e'`, `ipv4'` and `tcp'` of a SYN-ACK for the SYN with headers `e`, `ipv4` and `tcp`. -/
structure SynAck (X : Externs) (e e' : Ethernet) (ipv4 ipv4' : Ipv4) (tcp tcp' : Tcp) : Prop where
  to_sender : e'.dst_addr = e.src_addr
  type : e'.ether_type = ETHERTYPE_IPV4
  addrs : ipv4'.src_addr = ipv4.dst_addr ∧ ipv4'.dst_addr = ipv4.src_addr
  ports : tcp'.src_port = tcp.dst_port ∧ tcp'.dst_port = tcp.src_port
  flags : tcp'.syn = 1 ∧ tcp'.ack = 1
  ack_no : tcp'.ack_no = tcp.seq_no + 1
  seq_no : tcp'.seq_no = X.crc32 ipv4.src_addr tcp.src_port
  data_offset : tcp'.data_offset = 8
  total_len : ipv4'.total_len = 52

/-- The egress parser accepts what ingress hands over. -/
def Accepted (X : Externs) (T : Tables) (port : BitVec 9) (hdr : Header) (rest : List Byte) : Prop :=
  (SwitchEgressParser X (SwitchIngressDeparser (SwitchIngress X T port hdr) rest)).isSome

/-- A SYN-ACK for the frame leaves on the port it came in on. -/
def Answered (X : Externs) (T : Tables) (port : BitVec 9) (pkt : List Byte) (hdr : Header) : Prop :=
  ∃ e e' ipv4 ipv4' tcp tcp' r, hdr.ethernet = some e ∧ hdr.ipv4 = some ipv4 ∧
    hdr.tcp = some tcp ∧ SynAck X e e' ipv4 ipv4' tcp tcp' ∧
    switch X T port pkt = some (port, tcp_frame e' ipv4' tcp' (options_set.emit ++ r))

theorem synAck_answer (X : Externs) {e : Ethernet} (he : e.returned.ether_type = ETHERTYPE_IPV4)
    (ipv4 : Ipv4) (tcp : Tcp) :
    SynAck X e e.returned ipv4 (answer_ipv4 X ipv4) tcp (answer_tcp X ipv4 tcp) :=
  ⟨rfl, he, ⟨rfl, rfl⟩, ⟨rfl, rfl⟩, ⟨rfl, rfl⟩, rfl, rfl, rfl, rfl⟩

/-- What ingress hands over for an untagged SYN to answer. -/
theorem syn_handed (hparse : SwitchIngressParser pkt = some (hdr, rest))
    (htag : (toMem pkt).nb16 12 ≠ ETHERTYPE_VLAN)
    (hs : (SwitchIngress X T port hdr).bridged.syn_respond = 1) :
    ∃ e ipv4 tcp, hdr = tcp_headers e ipv4 tcp ∧ e.returned.ether_type = ETHERTYPE_IPV4 ∧
      ipv4.protocol = IP_PROTOCOLS_TCP ∧ ipv4.frag_offset = 0 ∧
      SwitchIngressDeparser (SwitchIngress X T port hdr) rest =
        bridge_h.emit (SwitchIngress X T port hdr).bridged ++ tcp_frame e.returned ipv4 tcp rest := by
  obtain ⟨ipv4, tcp, h4, ht, -, -, -, hret, -⟩ := ingress_syn_respond hs
  obtain ⟨e, v, l, hv, hl, hpkt⟩ := ingress_parser_cases hparse
  have htype : (toMem pkt).nb16 12 = e.ether_type := by
    rw [hpkt]
    exact nb16_type _ _
  obtain rfl : v = none := not_not.mp fun hn => htag (htype.trans (hv.mpr hn))
  generalize htp : last_type e none = type at hl
  cases hl with
  | arp | udp | ipv4 | other => cases ht
  | tcp ipv4 tcp hp hf =>
      refine ⟨e, ipv4, tcp, rfl, htp, hp, hf, ?_⟩
      have hret' : (SwitchIngress X T port (tcp_headers e ipv4 tcp)).hdr =
          tcp_headers e.returned ipv4 tcp := hret
      change SwitchIngressDeparser (SwitchIngress X T port (tcp_headers e ipv4 tcp)) rest =
        bridge_h.emit (SwitchIngress X T port (tcp_headers e ipv4 tcp)).bridged ++ _
      rw [SwitchIngressDeparser, hret']
      simp [tcp_headers, tcp_frame, emit]

/-- A SYN to answer goes on to egress. -/
theorem syn_switch (hparse : SwitchIngressParser pkt = some (hdr, rest))
    (hs : (SwitchIngress X T port hdr).bridged.syn_respond = 1) :
    switch X T port pkt = (egress X T (SwitchIngressDeparser (SwitchIngress X T port hdr) rest)).map
      fun pkt => (port, pkt) := by
  obtain ⟨-, -, -, -, -, -, -, -, hport, hd, hb⟩ := ingress_syn_respond hs
  have h := switch_eq (T := T) hparse rfl hd hb
  rwa [hport] at h

/-- An untagged SYN to answer passes the egress parser exactly when there are 20 bytes to skip. -/
theorem accepted_iff (hparse : SwitchIngressParser pkt = some (hdr, rest))
    (htag : (toMem pkt).nb16 12 ≠ ETHERTYPE_VLAN)
    (hs : (SwitchIngress X T port hdr).bridged.syn_respond = 1) :
    Accepted X T port hdr rest ↔ 20 ≤ rest.length := by
  obtain ⟨e, ipv4, tcp, -, he, hp, hf, hdep⟩ := syn_handed hparse htag hs
  rw [Accepted, hdep, egress_parser_syn hs he hp hf, parse_tcp_options]
  split
  next h => exact iff_of_true rfl h
  next h => exact iff_of_false nofun h

/-- **Every client SYN is answered, if 20 bytes follow its TCP header.**  For every frame that
ingress marks as a SYN to answer: untagged, it passes the egress parser exactly when at least 20
bytes stand behind the fixed part of the TCP header, options, payload and padding together; and it
passes and is answered exactly when it is untagged, too. -/
theorem syn_answered_iff (hparse : SwitchIngressParser pkt = some (hdr, rest))
    (hs : (SwitchIngress X T port hdr).bridged.syn_respond = 1) :
    ((toMem pkt).nb16 12 ≠ ETHERTYPE_VLAN → (Accepted X T port hdr rest ↔ 20 ≤ rest.length)) ∧
    (Accepted X T port hdr rest ∧ Answered X T port pkt hdr ↔
      (toMem pkt).nb16 12 ≠ ETHERTYPE_VLAN ∧ 20 ≤ rest.length) := by
  refine ⟨fun htag => accepted_iff hparse htag hs, ?_, ?_⟩
  · rintro ⟨hacc, e, e', ipv4, ipv4', tcp, tcp', r, he, h4, ht, hack, hsw⟩
    have htag : (toMem pkt).nb16 12 ≠ ETHERTYPE_VLAN := by
      intro htag
      -- a tagged frame keeps its type, with or without answer
      obtain ⟨e₀, v, l, hv, hl, hpkt⟩ := ingress_parser_cases hparse
      obtain ⟨e₁, ht₁, he₁⟩ := ingress_ethernet X T port hl.link.1
      rw [syn_switch hparse hs, ingress_deparser_eq he₁] at hsw
      obtain ⟨out, heg, heq⟩ := Option.map_eq_some_iff.mp hsw
      obtain ⟨-, rfl⟩ := Prod.mk.inj heq
      obtain ⟨r', hr'⟩ := egress_starts heg
      have h₁ : e'.ether_type = e₁.ether_type := by
        rw [← nb16_type e₁ r', ← hr']
        exact (nb16_type _ _).symm
      rw [hpkt, nb16_type, ← ht₁, ← h₁, hack.type] at htag
      exact absurd htag (by decide)
    exact ⟨htag, (accepted_iff hparse htag hs).mp hacc⟩
  · rintro ⟨htag, hr⟩
    refine ⟨(accepted_iff hparse htag hs).mpr hr, ?_⟩
    obtain ⟨e, ipv4, tcp, rfl, he, hp, hf, hdep⟩ := syn_handed hparse htag hs
    refine ⟨e, _, ipv4, _, tcp, _, rest.drop 20, rfl, rfl, rfl, synAck_answer X he ipv4 tcp, ?_⟩
    rw [syn_switch hparse hs, hdep, egress_syn T hs he hp hf hr]
    rfl

/-- A SYN of the client's with the given options and padding. -/
def synFrame (options padding : List Byte) : List Byte :=
  let h := headers (0xC0A80002, 40000) (VIRTUAL_IP, VIRTUAL_PORT) 1000 0 TCP_SYN_FLAG
    (BitVec.ofNat 16 (40 + options.length))
  h.take 46 ++ [BitVec.ofNat 8 (0x50 + 4 * options.length)] ++ h.drop 47 ++ options ++ padding

/-- A SYN with 20 bytes of options: MSS, SACK permitted, time stamps and window scale. -/
def fullSyn : List Byte :=
  synFrame [2, 4, 5, 0xb4, 4, 2, 8, 10, 0, 0, 0, 1, 0, 0, 0, 0, 1, 3, 3, 7] []

/-- A SYN with an MSS option only, padded to 60 bytes. -/
def mssSyn : List Byte := synFrame [2, 4, 5, 0xb4] [0, 0]

theorem syn_answered_sample :
    Accepted standard_externs noTables 1 (parsedFrame fullSyn).1 (parsedFrame fullSyn).2 ∧
    Answered standard_externs noTables 1 fullSyn (parsedFrame fullSyn).1 := by
  have h : SwitchIngressParser fullSyn = some (parsedFrame fullSyn) := by rfl
  have hs : (SwitchIngress standard_externs noTables 1
      (parsedFrame fullSyn).1).bridged.syn_respond = 1 := by decide +kernel
  exact (syn_answered_iff h hs).2.mpr ⟨by decide +kernel, by decide +kernel⟩

/-- **A SYN that is not answered**: marked, with data offset 6 and the four option bytes, and
rejected by the egress parser. -/
theorem mssSyn_not_accepted :
    SwitchIngressParser mssSyn = some (parsedFrame mssSyn) ∧
    (toMem mssSyn).nb16 12 = ETHERTYPE_IPV4 ∧
    (parsedFrame mssSyn).1.ipv4.map (fun h => (h.ihl, h.total_len)) = some (5, 44) ∧
    (parsedFrame mssSyn).1.tcp.map (·.data_offset) = some 6 ∧
    (SwitchIngress standard_externs noTables 1 (parsedFrame mssSyn).1).bridged.syn_respond = 1 ∧
    ¬ Accepted standard_externs noTables 1 (parsedFrame mssSyn).1 (parsedFrame mssSyn).2 := by
  refine ⟨by rfl, by decide +kernel, by decide +kernel, by decide +kernel, by decide +kernel, ?_⟩
  unfold Accepted
  decide +kernel

/-! ### Checksums -/

theorem word_sum_append {l : List Byte} (h : l.length % 2 = 0) (r : List Byte) :
    word_sum (l ++ r) = word_sum l + word_sum r := by
  induction l using word_sum.induct with
  | case1 => simp [word_sum]
  | case2 a => cases h
  | case3 a b l ih =>
      have h' : l.length % 2 = 0 := by
        simp only [List.length_cons] at h
        omega
      rw [List.cons_append, List.cons_append, word_sum, word_sum, ih h', Nat.add_assoc]

theorem word_sum_be16 (v : BitVec 16) (r : List Byte) :
    word_sum (be16 v ++ r) = v.toNat + word_sum r := by
  have h : (v.extractLsb' 8 8 ++ v.extractLsb' 0 8 : BitVec 16) = v :=
    BitVec.extractLsb'_append_extractLsb'
  simp only [be16, List.cons_append, List.nil_append, word_sum, h]

/-- **A word that is the complement of the sum of the others makes the sum fold to `0xffff`.** -/
theorem fold16_complement {c : BitVec 16} {n : Nat} (hc : c = ~~~ BitVec.ofNat 16 (fold16 n))
    {l : List Byte} (h : l.length % 2 = 0) (r : List Byte) (hn : n = word_sum l + word_sum r) :
    fold16 (word_sum (l ++ (be16 c ++ r))) = 0xffff := by
  have hlt := fold16_lt n
  have hcn : c.toNat = 0xffff - fold16 n := by
    rw [hc, BitVec.toNat_not, BitVec.toNat_ofNat, Nat.mod_eq_of_lt hlt]
  have hsum : word_sum (l ++ (be16 c ++ r)) = n + (0xffff - fold16 n) := by
    rw [word_sum_append h, word_sum_be16, hcn, hn]
    omega
  rw [hsum, fold16_add_compl]

theorem internet_checksum_eq (l : List Byte) :
    internet_checksum l = ~~~ BitVec.ofNat 16 (fold16 (word_sum l)) := by
  rw [internet_checksum, fold16_eq]

section checksums

variable (hX : ∀ l, X.update l = ~~~ BitVec.ofNat 16 (fold16 (word_sum l)))

include hX

/-- The header checksum of the answer. -/
theorem answer_ipv4_sum (ipv4 : Ipv4) :
    fold16 (word_sum (ipv4_h.emit (answer_ipv4 X ipv4))) = 0xffff := by
  have hl : ((ipv4_h.emit (syn_reply_ipv4 ipv4)).take 10).length % 2 = 0 := by
    rw [List.length_take, ipv4_h.length_emit]
    rfl
  exact fold16_complement (hX (syn_reply_ipv4 ipv4).summed) hl
    ((ipv4_h.emit (syn_reply_ipv4 ipv4)).drop 12) (word_sum_append hl _)

/-- The TCP checksum of the answer, with the pseudo header that belongs to it. -/
theorem answer_tcp_sum (ipv4 : Ipv4) (tcp : Tcp) :
    fold16 (word_sum (psd_header (answer_ipv4 X ipv4) ++
      (tcp_h.emit (answer_tcp X ipv4 tcp) ++ options_set.emit))) = 0xffff := by
  generalize hreply : syn_reply_tcp (X.crc32 ipv4.src_addr tcp.src_port) tcp = reply
  have hans : answer_tcp X ipv4 tcp =
      { reply with
        checksum :=
          X.update (psd_header (syn_reply_ipv4 ipv4) ++ tcp_h.emit reply ++ options_set.emit) } := by
    rw [← hreply]
    rfl
  have hzero : reply.checksum = 0 := by rw [← hreply]; rfl
  have hl : (psd_header (syn_reply_ipv4 ipv4) ++ (tcp_h.emit reply).take 16).length % 2 = 0 := by
    have h : (psd_header (syn_reply_ipv4 ipv4)).length = 12 := rfl
    rw [List.length_append, List.length_take, tcp_h.length_emit, h]
    rfl
  -- the checksum is 0 in what is summed
  have hsum : psd_header (syn_reply_ipv4 ipv4) ++ tcp_h.emit reply ++ options_set.emit =
      psd_header (syn_reply_ipv4 ipv4) ++ (tcp_h.emit reply).take 16 ++
        (be16 0 ++ ((tcp_h.emit reply).drop 18 ++ options_set.emit)) := by
    rw [← hzero]
    rfl
  rw [hans]
  refine fold16_complement
    (hX (psd_header (syn_reply_ipv4 ipv4) ++ tcp_h.emit reply ++ options_set.emit)) hl
    ((tcp_h.emit reply).drop 18 ++ options_set.emit) ?_
  rw [hsum, word_sum_append hl, word_sum_be16]
  exact congrArg _ (Nat.zero_add _)

end checksums

/-- **The answer to a SYN is a valid SYN-ACK.**  For every untagged SYN to the virtual server that no
backend sent, and all table contents: if the egress parser accepts it, then what leaves, on the port
it came in on, is a SYN-ACK for it with 12 bytes of options, whose lengths and checksums fit. -/
theorem syn_ack_valid {e : Ethernet} {ipv4 : Ipv4} {tcp : Tcp}
    (hX : ∀ l, X.update l = ~~~ BitVec.ofNat 16 (fold16 (word_sum l)))
    (hparse : SwitchIngressParser pkt = some (hdr, rest)) (he : hdr.ethernet = some e)
    (htype : e.ether_type = ETHERTYPE_IPV4) (h4 : hdr.ipv4 = some ipv4) (ht : hdr.tcp = some tcp)
    (hihl : ipv4.ihl = 5) (hsyn : tcp.syn = 1) (hip : ipv4.dst_addr = VIRTUAL_IP)
    (hport : tcp.dst_port = VIRTUAL_PORT)
    (hdip : T.dip_lookup_table ipv4.src_addr tcp.src_port = false)
    (hacc : Accepted X T port hdr rest) :
    ∃ e' ipv4' tcp' r,
      switch X T port pkt = some (port, tcp_frame e' ipv4' tcp' (options_set.emit ++ r)) ∧
      SynAck X e e' ipv4 ipv4' tcp tcp' ∧
      options_set.emit.length = 12 ∧ 4 * tcp'.data_offset.toNat = 20 + 12 ∧
      ipv4'.total_len.toNat = 4 * ipv4'.ihl.toNat + 4 * tcp'.data_offset.toNat ∧
      fold16 (word_sum (ipv4_h.emit ipv4')) = 0xffff ∧
      fold16 (word_sum (psd_header ipv4' ++ (tcp_h.emit tcp' ++ options_set.emit))) = 0xffff := by
  obtain ⟨e₁, v, l, -, hl, hpkt⟩ := ingress_parser_cases hparse
  have htag : (toMem pkt).nb16 12 ≠ ETHERTYPE_VLAN := by
    obtain rfl : e₁ = e := Option.some.inj (hl.link.1.symm.trans he)
    rw [hpkt, nb16_type, htype]
    decide
  have harp : hdr.arp = none :=
    hl.arp_or.resolve_right fun h => absurd (ht.symm.trans h.2.1) nofun
  have hs : (SwitchIngress X T port hdr).bridged.syn_respond = 1 :=
    ingress_syn harp h4 ht hip hport hdip hsyn
  have hr : 20 ≤ rest.length := (accepted_iff hparse htag hs).mp hacc
  obtain ⟨e₀, ipv4₀, tcp₀, rfl, he₀, hp, hf, hdep⟩ := syn_handed hparse htag hs
  obtain rfl : e₀ = e := Option.some.inj he
  obtain rfl : ipv4₀ = ipv4 := Option.some.inj h4
  obtain rfl : tcp₀ = tcp := Option.some.inj ht
  refine ⟨e₀.returned, answer_ipv4 X ipv4₀, answer_tcp X ipv4₀ tcp₀, rest.drop 20, ?_,
    synAck_answer X he₀ ipv4₀ tcp₀, rfl, rfl, ?_, answer_ipv4_sum hX ipv4₀,
    answer_tcp_sum hX ipv4₀ tcp₀⟩
  · rw [syn_switch hparse hs, hdep, egress_syn T hs he₀ hp hf hr]
    rfl
  · have h : (answer_ipv4 X ipv4₀).ihl = 5 := hihl
    rw [h]
    rfl

theorem syn_ack_valid_sample : ∃ e' ipv4' tcp' r,
    switch standard_externs noTables 1 fullSyn =
      some (1, tcp_frame e' ipv4' tcp' (options_set.emit ++ r)) ∧
    SynAck standard_externs (ethernet_h.decode (toMem fullSyn)) e'
      (ipv4_h.decode ((toMem fullSyn).drop 14)) ipv4' (tcp_h.decode ((toMem fullSyn).drop 34)) tcp' ∧
    options_set.emit.length = 12 ∧ 4 * tcp'.data_offset.toNat = 20 + 12 ∧
    ipv4'.total_len.toNat = 4 * ipv4'.ihl.toNat + 4 * tcp'.data_offset.toNat ∧
    fold16 (word_sum (ipv4_h.emit ipv4')) = 0xffff ∧
    fold16 (word_sum (psd_header ipv4' ++ (tcp_h.emit tcp' ++ options_set.emit))) = 0xffff := by
  have h : SwitchIngressParser fullSyn = some (parsedFrame fullSyn) := by rfl
  have hacc : Accepted standard_externs noTables 1 (parsedFrame fullSyn).1 (parsedFrame fullSyn).2 := by
    unfold Accepted
    decide +kernel
  exact syn_ack_valid internet_checksum_eq h rfl (by decide +kernel) rfl rfl (by decide +kernel)
    (by decide +kernel) (by decide +kernel) (by decide +kernel) rfl hacc

end Miresga.Switch
