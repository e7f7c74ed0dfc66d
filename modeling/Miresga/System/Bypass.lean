import Miresga.Frontend.Records
import Miresga.Switch.Bypass
import Miresga.System.Agreement
import Miresga.System.FastPath

/-!
# System — offloading is invisible

Two systems are run on the same frames: the one whose switch forwards the segments of the
connections it has learnt, and the one whose switch has learnt none (`Tables.unoffloaded`), so that
every segment of a connection goes through the front-end.  `offloading_invisible`: the second can
follow the first step by step.  The front-end, the queues and the channel pass through the same
states, and for every frame both systems send the same, or the same segment where the switch
forwarded it by itself.

It takes that the switch's entry is up to date at the moment it is used.  The switch acts on what it
was told, the front-end on its flow table; `Inv.agrees_at` says that for each client they agree
whenever nothing of that client's is under way (`Settled`), whatever is under way for others.
-/

namespace Miresga.System

open Frontend Switch

/-! ### One client's entry -/

/-- No request for `c` waits in a queue, in the entry controller or on the channel. -/
structure Settled (s : Sys) (c : Client) : Prop where
  adds : ∀ pair ∈ s.entries.add_pairs ++ s.add_queue, pair.key ≠ c.my_key
  dels : ∀ key ∈ s.entries.del_keys ++ s.del_queue, key ≠ c.my_key
  channel : ∀ msg ∈ s.channel, ∀ e ∈ carried msg, keyOfEnq e ≠ c.my_key

/-- A list of enqueues for other clients has nothing for `c`. -/
theorem ops_eq_nil {c : Client} {es : List Enq} (h : ∀ e ∈ es, keyOfEnq e ≠ c.my_key) :
    ops c es = [] := by
  rw [← List.length_eq_zero_iff, length_ops, Nat.add_eq_zero_iff]
  constructor <;> rw [List.countP_eq_zero] <;> intro x hx <;> rw [decide_eq_true_eq]
  · exact h _ ((mem_adds _).mp hx)
  · exact h _ ((mem_dels _).mp hx)

/-- **Agreement for one client.**  Once everything enqueued for `c` is delivered, the offload table
has the entry that `c`'s flow wants. -/
theorem Inv.agrees_at {s : Sys} {c : Client} (h : Inv s) (hc : Settled s c) :
    s.table (keyOf c) = s.front.target c := by
  obtain ⟨done, hsent, htable⟩ := h.table
  have hadds : (Enq.adds s.sent).countP (·.key = c.my_key) =
      (Enq.adds s.front.enqueued).countP (·.key = c.my_key) := by
    have hrest : (s.entries.add_pairs ++ s.add_queue).countP (·.key = c.my_key) = 0 :=
      List.countP_eq_zero.mpr fun x hx => by simpa using hc.adds x hx
    rw [← h.adds, List.countP_append, hrest, Nat.add_zero]
  have hdels : (Enq.dels s.sent).countP (· = c.my_key) =
      (Enq.dels s.front.enqueued).countP (· = c.my_key) := by
    have hrest : (s.entries.del_keys ++ s.del_queue).countP (· = c.my_key) = 0 :=
      List.countP_eq_zero.mpr fun x hx => by simpa using hc.dels x hx
    rw [← h.dels, List.countP_append, hrest, Nat.add_zero]
  have hops : ops c s.sent = ops c s.front.enqueued :=
    (h.order c).eq_of_length (by rw [length_ops, length_ops, hadds, hdels])
  -- what is on the channel is for others
  have hdone : ops c done = ops c s.sent := by
    have hchannel : ops c (s.channel.flatMap carried) = [] :=
      ops_eq_nil fun e he => by
        obtain ⟨msg, hm, he⟩ := List.mem_flatMap.mp he
        exact hc.channel msg hm e he
    rw [hsent, ops_append, hchannel, List.append_nil]
  have hkeyed : Keyed done := by
    intro e he
    have he : e ∈ s.sent := hsent ▸ List.mem_append_left _ he
    cases e with
    | add pair =>
        refine h.keyed _ ((mem_adds _).mp ?_)
        rw [← h.adds]
        exact List.mem_append_left _ ((mem_adds _).mpr he)
    | del key =>
        refine h.keyed _ ((mem_dels _).mp ?_)
        rw [← h.dels]
        exact List.mem_append_left _ ((mem_dels _).mpr he)
  rw [htable, replay_at hkeyed, hdone, hops]
  exact foldl_toggles (h.toggles c)

/-! ### The network -/

/-- A frame that arrives at the switch, with what the front-end's receive buffer held before and the
allocator's answers, should the front-end get it. -/
structure Incoming where
  port : BitVec 9
  pkt : List Byte
  buffer : Mem
  mem : Alloc

/-- The frame `out`, received by the front-end. -/
def Incoming.mbuf (a : Incoming) (out : List Byte) : Mbuf :=
  { Mbuf.ofBytes out with data := a.buffer.write 0 out }

/-- What is sent for a frame: by the switch on a port, or by the front-end. -/
inductive Emitted where
  | wire (out : Option (BitVec 9 × List Byte))
  | built (frames : List Mbuf)

/-- The buffers counted since `t`. -/
def newFrames (t t' : Sends) : List Mbuf :=
  (List.range' t.send_size (t'.send_size - t.send_size)).map t'.send_pkts

/-- What the front-end handles: the frame, as the switch has sent it. -/
def ToFront (X : Externs) (T : Tables) (a : Incoming) (out : List Byte) : Prop :=
  ∃ hdr rest q, SwitchIngressParser a.pkt = some (hdr, rest) ∧
    (SwitchIngress X T a.port hdr).bridged.lb_flag = 1 ∧ switch X T a.port a.pkt = some (q, out)

/-- A frame passes the switch with the tables `T`, and the front-end if it is marked for it.  A
call that fails makes `process_pkts` return before anything is transmitted. -/
inductive Passes (X : Externs) (T : Tables) (rc : RuleController) (s : Shared) (a : Incoming) :
    Shared → Emitted → Prop where
  | handled {out : List Byte} {s' : Shared} {t t' : Sends} (h : ToFront X T a out)
      (hp : process_pkt rc a.mem (a.mbuf out) ⟨s, t⟩ = .next ⟨s', t'⟩) :
      Passes X T rc s a s' (.built (newFrames t t'))
  | failed {out : List Byte} {s' : Shared} {t t' : Sends} {st : Status} (h : ToFront X T a out)
      (hp : process_pkt rc a.mem (a.mbuf out) ⟨s, t⟩ = .ret st ⟨s', t'⟩) :
      Passes X T rc s a s' (.built [])
  | alone (h : ∀ out, ¬ ToFront X T a out) :
      Passes X T rc s a s (.wire (switch X T a.port a.pkt))

/-- An installation: the units of the chip, the tables that `main` has filled, and the front-end's
tables. -/
structure Deployment where
  X : Externs
  T : Tables
  rc : RuleController

/-- The tables of the switch once it has learnt the connections `t`. -/
def Deployment.learnt (D : Deployment) (t : OffloadTable) : Tables :=
  { D.T with offload_connection_table := fun ip port => t ⟨ip, port⟩ }

/-- A step of the network: a frame arrives, or the entries travel on. -/
inductive NetEvent where
  | frame (a : Incoming)
  | entries (ev : Event)

/-- One step, where the switch's tables depend on the connections it has learnt by `tables`. -/
inductive NetStep (D : Deployment) (tables : OffloadTable → Tables) (s : Sys) :
    NetEvent × Emitted → Sys → Prop where
  | frame {a : Incoming} {front' : Shared} {o : Emitted}
      (h : Passes D.X (tables s.table) D.rc s.front a front' o) :
      NetStep D tables s (.frame a, o) (s.enqueue front')
  | entries {ev : Event} {s' : Sys} (hev : ∀ l, ev ≠ .packet l) (h : Step s ev s') :
      NetStep D tables s (.entries ev, .wire none) s'

/-- The client whose connection ingress looked up. -/
def lookedUp (s : Ingress) : Client := ⟨htonl s.cip, htons s.cport⟩

/-- The condition on a frame.  A frame the switch forwards by itself is untagged and complete, and
nothing of its client's is under way.  For the front-end, no released record is handed out again
while it is in the table, and no backend asks for a URL that has a rule. -/
structure FrameFine (D : Deployment) (s : Sys) (a : Incoming) : Prop where
  short : a.pkt.length < 65536
  keeps : Keeps s.front a.mem
  servers : ∀ out, ToFront D.X (D.learnt s.table) a out →
    D.T.dip_lookup_table (ntohl (srcClient (a.mbuf out).data).addr)
      (ntohs (srcClient (a.mbuf out).data).port) = true → rule D.rc (a.mbuf out) = none
  direct : ∀ hdr rest, SwitchIngressParser a.pkt = some (hdr, rest) →
    Direct D.X (D.learnt s.table) a.port hdr →
    (toMem a.pkt).nb16 12 = ETHERTYPE_IPV4 ∧
    14 + (ipv4_h.decode ((toMem a.pkt).drop 14)).total_len.toNat ≤ a.pkt.length ∧
    Settled s (lookedUp (SwitchIngress D.X (D.learnt s.table) a.port hdr))

/-- The condition on a step. -/
def NetFine (D : Deployment) (s : Sys) : NetEvent → Prop
  | .frame a => FrameFine D s a
  | .entries ev => Fine s ev

/-- A step of the system with offloading that meets the condition. -/
def FastStep (D : Deployment) (s : Sys) (l : NetEvent × Emitted) (s' : Sys) : Prop :=
  NetFine D s l.1 ∧ NetStep D D.learnt s l s'

/-- A step of the system without offloading. -/
def SlowStep (D : Deployment) : Sys → NetEvent × Emitted → Sys → Prop :=
  NetStep D fun _ => D.T.unoffloaded

/-- The tables of the installation fit: the switch and the front-end know the same address for every
backend, every rule names a backend the front-end knows, and the virtual address is the switch's. -/
structure Deployment.Fits (D : Deployment) : Prop where
  servers : ∀ d server, D.rc.d_index_map d = some server →
    D.T.d_index_to_ip_port_table d = some (server.ip, server.port)
  rules : ∀ key data, D.rc.rule_map key = some data → D.rc.d_index_map data.d_index ≠ none
  vip : D.rc.virtual_server_info.ip = VIRTUAL_IP
  vport : D.rc.virtual_server_info.port = VIRTUAL_PORT

/-- The same is sent, or the same segment: by the switch in one system, by the front-end in the
other. -/
inductive SameEmitted : Emitted → Emitted → Prop where
  | same (o : Emitted) : SameEmitted o o
  | segment {q : BitVec 9} {out : List Byte} {f : Mbuf} (h : SameSegment out f) :
      SameEmitted (.wire (some (q, out))) (.built [f])

/-! ### A segment that the switch forwards by itself -/

section direct

variable {X : Externs} {T : Tables} {port : BitVec 9} {pkt rest : List Byte} {rc : RuleController}
  {e e₁ : Ethernet} {ipv4 : Ipv4} {tcp : Tcp} {c₁ c₂ : BitVec 16} {p : Mbuf} {mem : Alloc} {s : Proc}
  {d : Byte} {server : ServerInfo}

/-- The way to a backend, for the copy that the front-end would have got. -/
theorem inbound_relayed (hd : T.d_index_to_ip_port_table d = some (server.ip, server.port))
    (hd' : rc.d_index_map d = some server)
    (hoff : T.offload_connection_table ipv4.src_addr tcp.src_port = some d)
    (hflow : Toward s.shared ⟨htonl ipv4.src_addr, htons tcp.src_port⟩ d)
    (hparse : SwitchIngressParser pkt = some (tcp_headers e ipv4 tcp, rest))
    (htype : (toMem pkt).nb16 12 = ETHERTYPE_IPV4) (hlen : 14 + ipv4.total_len.toNat ≤ pkt.length)
    (he : e₁.ether_type = ETHERTYPE_IPV4)
    (hp : Holds p (tcp_frame e₁ { ipv4 with hdr_checksum := c₁ } { tcp with checksum := c₂ } rest))
    (hflag : (SwitchIngress X T port (tcp_headers e ipv4 tcp)).bridged.d_flag = 1) :
    ∃ eport out f, switch X T port pkt = some (eport, out) ∧
      process_pkt rc mem p s = .next (s.filled (.forward_inbound_pkt d p) f).bump ∧
      SameSegment out f := by
  obtain ⟨ipv4', tcp', d', h4, ht, -, -, -, hfin, hrst, hpay, hoff', ⟨b, hb⟩, hh⟩ :=
    ingress_d_flag hflag
  obtain rfl : ipv4 = ipv4' := Option.some.inj h4
  obtain rfl : tcp = tcp' := Option.some.inj ht
  obtain rfl : d' = d := Option.some.inj (hoff'.symm.trans hoff)
  obtain ⟨e₀, e', ipv4', c₃, c₄, hhdr, rfl, -, hprot, hsw⟩ :=
    switch_direct hparse htype rfl hh (by rw [hb])
  obtain rfl : ipv4 = ipv4' := Option.some.inj (congrArg Header.ipv4 hhdr)
  have hn : 54 ≤ p.data_len.toNat := by
    rw [hp.data_len, length_tcp_frame]
    omega
  have hpay := payload_flag_of_no_payload hp hpay
  obtain ⟨f, hf⟩ : ∃ f, forward_inbound_pkt rc d' p (s.sends.send_pkts s.sends.send_size) =
      some (.OK, f) := by
    unfold forward_inbound_pkt RuleController.lookup_backend_server_info
    rw [hd']
    exact ⟨_, rfl⟩
  obtain ⟨server', hs', hsent⟩ := forward_inbound_sentTo hf
  obtain rfl : server' = server := Option.some.inj (hs'.symm.trans hd')
  rw [← hp.srcClient] at hflow
  refine ⟨_, _, f, hsw, process_inbound (hp.isTcp he hprot) hflow ?_ ?_ hpay hf, ?_⟩
  · rw [hp.rst, decide_eq_false hrst]
  · rw [hp.fin, decide_eq_false hfin]
  · rw [hb, rewrite_to rfl hd]
    have h4 := sentTo_ipv4 hsent hn
    have ht := sentTo_tcp hsent hn
    rw [hp.ipv4_eq] at h4
    rw [hp.tcp_eq] at ht
    rw [length_tcp_frame] at hlen
    exact .of_headers { ipv4 with dst_addr := server'.ip } { tcp with dst_port := server'.port } hp
      (by rw [length_tcp_frame]; exact hlen) h4 ht rfl (forward_inbound_len hf)
      fun i h54 hi => hsent.rest i hi (by unfold LinkByte; omega) (by omega) (by omega)

/-- The way to a client, for the copy that the front-end would have got. -/
theorem outbound_relayed (hvip : rc.virtual_server_info.ip = VIRTUAL_IP)
    (hvport : rc.virtual_server_info.port = VIRTUAL_PORT)
    (hdip : ∀ b : Client, T.dip_lookup_table (ntohl b.addr) (ntohs b.port) = true →
      s.shared.find b = none)
    (hflow : Toward s.shared ⟨htonl ipv4.dst_addr, htons tcp.dst_port⟩ d)
    (hparse : SwitchIngressParser pkt = some (tcp_headers e ipv4 tcp, rest))
    (htype : (toMem pkt).nb16 12 = ETHERTYPE_IPV4) (hlen : 14 + ipv4.total_len.toNat ≤ pkt.length)
    (he : e₁.ether_type = ETHERTYPE_IPV4)
    (hp : Holds p (tcp_frame e₁ { ipv4 with hdr_checksum := c₁ } { tcp with checksum := c₂ } rest))
    (hflag : (SwitchIngress X T port (tcp_headers e ipv4 tcp)).bridged.v_flag = 1) :
    ∃ eport out f, switch X T port pkt = some (eport, out) ∧
      process_pkt rc mem p s = .next (s.filled (.forward_outbound_pkt p) f).bump ∧
      SameSegment out f := by
  obtain ⟨ipv4', tcp', d', h4, ht, hsrc, hfin, hrst, -, ⟨b, hb⟩, hh⟩ := ingress_v_flag hflag
  obtain rfl : ipv4 = ipv4' := Option.some.inj h4
  obtain rfl : tcp = tcp' := Option.some.inj ht
  obtain ⟨e₀, e', ipv4', c₃, c₄, hhdr, rfl, -, hprot, hsw⟩ :=
    switch_direct hparse htype rfl hh (by rw [hb])
  obtain rfl : ipv4 = ipv4' := Option.some.inj (congrArg Header.ipv4 hhdr)
  have hn : 54 ≤ p.data_len.toNat := by
    rw [hp.data_len, length_tcp_frame]
    omega
  -- the sender is a backend, so that the flow is looked up by the destination
  have hnone : s.shared.find (srcClient p.data) = none := by
    refine hdip _ ?_
    rw [hp.srcClient]
    simpa [htonl, htons] using hsrc
  obtain ⟨f, hf⟩ : ∃ f, forward_outbound_pkt rc p (s.sends.send_pkts s.sends.send_size) =
      some (.OK, f) := ⟨_, rfl⟩
  have hsent := forward_outbound_sentOut hf
  rw [← hp.dstClient] at hflow
  refine ⟨_, _, f, hsw, process_outbound (hp.isTcp he hprot) hnone hflow ?_ ?_ hf, ?_⟩
  · rw [hp.rst, decide_eq_false hrst]
  · rw [hp.fin, decide_eq_false hfin]
  · rw [hb, rewrite_out rfl rfl]
    have h4 := sentOut_ipv4 hsent hn
    have ht := sentOut_tcp hsent hn
    rw [hp.ipv4_eq, RuleController.get_virtual_server_info, hvip] at h4
    rw [hp.tcp_eq, RuleController.get_virtual_server_info, hvport] at ht
    rw [length_tcp_frame] at hlen
    exact .of_headers { ipv4 with src_addr := VIRTUAL_IP } { tcp with src_port := VIRTUAL_PORT } hp
      (by rw [length_tcp_frame]; exact hlen) h4 ht rfl (forward_outbound_len hf)
      fun i h54 hi => hsent.rest i hi (by unfold LinkByte; omega) (by omega) (by omega)

end direct

/-! ### What holds along a run -/

/-- What the fast path rests on: the accounting of the entries, a server for every flow, and no flow
for a server. -/
structure NetInv (D : Deployment) (s : Sys) : Prop where
  inv : Inv s
  served : Records (fun f => D.rc.d_index_map f.entry_data.d_index ≠ none) s.front
  own : ∀ b : Client, D.T.dip_lookup_table (ntohl b.addr) (ntohs b.port) = true →
    s.front.find b = none

theorem front_step_of_done {rc : RuleController} {mem : Alloc} {p : Mbuf} {s s' : Shared}
    {t t' : Sends} (h : (process_pkt rc mem p ⟨s, t⟩).Done ⟨s', t'⟩) :
    ∃ cs, FrontStep s ⟨rc, p, mem⟩ s' cs := by
  obtain ⟨cs, -, hc⟩ := process_pkt_takes h
  exact ⟨cs, t, t', h, hc⟩

theorem enqueue_self (s : Sys) : s.enqueue s.front = s := by
  simp [Sys.enqueue, Enq.adds, Enq.dels]

namespace NetInv

variable {D : Deployment} {s s' : Sys} {a : Incoming} {front' : Shared} {o : Emitted}

theorem start (D : Deployment) (h : Start s) : NetInv D s where
  inv := .start h
  served := .initial h.front
  own b _ := h.front.table b.slot

/-- The front-end has handled a frame that is fine. -/
theorem packet (h : NetInv D s) (hD : D.Fits) (ha : FrameFine D s a) {out : List Byte}
    (hf : ToFront D.X (D.learnt s.table) a out) {cs : List Call}
    (hs : FrontStep s.front ⟨D.rc, a.mbuf out, a.mem⟩ front' cs) : NetInv D (s.enqueue front') where
  inv := h.inv.packet ha.keeps hs
  served := by
    refine Records.transition (fun f st _ hP => hP) h.served (fun data hr => ?_) hs.transition
    exact hD.rules _ data hr
  own b hb := by
    by_contra hne
    rcases hs.transition.keys h.inv.sound hne with ⟨hk, hr⟩ | hold
    · obtain rfl : b = srcClient (a.mbuf out).data := Client.slot_inj.mp hk
      exact hr (ha.servers out hf hb)
    · exact hold (h.own b hb)

theorem frame (h : NetInv D s) (hD : D.Fits) (ha : FrameFine D s a)
    (hs : Passes D.X (D.learnt s.table) D.rc s.front a front' o) :
    NetInv D (s.enqueue front') := by
  cases hs with
  | handled hf hp =>
      obtain ⟨cs, hs⟩ := front_step_of_done (hp ▸ Outcome.Done.next _)
      exact h.packet hD ha hf hs
  | @failed _ _ _ _ st hf hp =>
      obtain ⟨cs, hs⟩ := front_step_of_done (hp ▸ Outcome.Done.ret st _)
      exact h.packet hD ha hf hs
  | alone =>
      rw [enqueue_self]
      exact h

/-- The entries travel past the front-end. -/
theorem entries (h : NetInv D s) {ev : Event} (hf : Fine s ev) (hev : ∀ l, ev ≠ .packet l)
    (hs : Step s ev s') : NetInv D s' := by
  have hfront : s'.front = s.front := by
    cases hs with
    | packet => exact absurd rfl (hev _)
    | dequeue_adds | deliver => rfl
    | dequeue_dels | no_room => exact send_front _ _ _
  refine ⟨h.inv.step ⟨hf, hs⟩, ?_, ?_⟩ <;> rw [hfront]
  · exact h.served
  · exact h.own

theorem step (h : NetInv D s) (hD : D.Fits) {l : NetEvent × Emitted} (hs : FastStep D s l s') :
    NetInv D s' := by
  obtain ⟨hf, hs⟩ := hs
  cases hs with
  | frame ha => exact h.frame hD hf ha
  | entries hev hs => exact h.entries hf hev hs

end NetInv

/-! ### The simulation -/

/-- Whether a frame that is not direct reaches the front-end does not depend on what was learnt. -/
theorem toFront_unoffloaded {X : Externs} {T : Tables} {a : Incoming}
    (h : ∀ hdr rest, SwitchIngressParser a.pkt = some (hdr, rest) → ¬ Direct X T a.port hdr)
    (out : List Byte) : ToFront X T.unoffloaded a out ↔ ToFront X T a out := by
  constructor
  · rintro ⟨hdr, rest, q, hp, hl, hs⟩
    rw [lb_unoffloaded (h hdr rest hp)] at hl
    rw [switch_unoffloaded hp (h hdr rest hp)] at hs
    exact ⟨hdr, rest, q, hp, hl, hs⟩
  · rintro ⟨hdr, rest, q, hp, hl, hs⟩
    rw [← lb_unoffloaded (h hdr rest hp)] at hl
    rw [← switch_unoffloaded hp (h hdr rest hp)] at hs
    exact ⟨hdr, rest, q, hp, hl, hs⟩

/-- A frame that is not direct passes both systems alike. -/
theorem passes_unoffloaded {X : Externs} {T : Tables} {rc : RuleController} {s s' : Shared}
    {a : Incoming} {o : Emitted}
    (h : ∀ hdr rest, SwitchIngressParser a.pkt = some (hdr, rest) → ¬ Direct X T a.port hdr)
    (hs : Passes X T rc s a s' o) : Passes X T.unoffloaded rc s a s' o := by
  cases hs with
  | handled hf hp => exact .handled ((toFront_unoffloaded h _).mpr hf) hp
  | failed hf hp => exact .failed ((toFront_unoffloaded h _).mpr hf) hp
  | alone hn =>
      have hsw : switch X T.unoffloaded a.port a.pkt = switch X T a.port a.pkt := by
        cases hp : SwitchIngressParser a.pkt with
        | none =>
            rw [switch, switch, hp, Option.bind_none, Option.bind_none]
        | some x => exact switch_unoffloaded hp (h _ _ hp)
      rw [← hsw]
      exact .alone fun out hf => hn out ((toFront_unoffloaded h out).mp hf)

/-- The receive buffer holds the frame. -/
theorem mbuf_holds (a : Incoming) {out : List Byte} (h : out.length < 65536) :
    Holds (a.mbuf out) out := by
  refine ⟨Nat.mod_eq_of_lt h, fun i hi => ?_⟩
  have hw := Mem.write_inside (m := a.buffer) (o := 0) hi
  rw [Nat.zero_add] at hw
  rw [toMem_lt hi]
  exact hw

/-- One frame in one buffer. -/
theorem newFrames_filled (s : Proc) (c : Call) (f : Mbuf) :
    newFrames s.sends (s.filled c f).bump.sends = [f] := by
  simp [newFrames, Proc.filled, Proc.bump]

section simulation

variable {D : Deployment} {s s' : Sys} {a : Incoming} {front' : Shared} {o : Emitted}

/-- The flow of the client that was looked up leads to the backend of its entry. -/
theorem NetInv.toward (h : NetInv D s) {c : Client} (hc : Settled s c) {d : Byte}
    (hoff : (D.learnt s.table).offload_connection_table (ntohl c.addr) (ntohs c.port) = some d) :
    Toward s.front c d ∧ ∃ server, D.rc.d_index_map d = some server := by
  have ht : s.front.target c = some d := (h.inv.agrees_at hc).symm.trans hoff
  obtain ⟨b, hb, hst, rfl⟩ := target_eq_some.mp ht
  exact ⟨⟨b, hb, .inr hst, rfl⟩, Option.ne_none_iff_exists'.mp (h.served _ b hb)⟩

/-- The segment that the switch sends, and the frame that the front-end would have built. -/
theorem NetInv.segment (h : NetInv D s) (hD : D.Fits) {port : BitVec 9} {pkt rest : List Byte}
    {e e₁ : Ethernet} {ipv4 : Ipv4} {tcp : Tcp} {c₁ c₂ : BitVec 16} {p : Mbuf}
    (hparse : SwitchIngressParser pkt = some (tcp_headers e ipv4 tcp, rest))
    (hdirect : Direct D.X (D.learnt s.table) port (tcp_headers e ipv4 tcp))
    (htype : (toMem pkt).nb16 12 = ETHERTYPE_IPV4) (hlen : 14 + ipv4.total_len.toNat ≤ pkt.length)
    (hset : Settled s (lookedUp (SwitchIngress D.X (D.learnt s.table) port
      (tcp_headers e ipv4 tcp))))
    (he : e₁.ether_type = ETHERTYPE_IPV4)
    (hp : Holds p (tcp_frame e₁ { ipv4 with hdr_checksum := c₁ } { tcp with checksum := c₂ }
      rest)) (mem : Alloc) :
    ∃ eport out call f, switch D.X (D.learnt s.table) port pkt = some (eport, out) ∧
      process_pkt D.rc mem p ⟨s.front, .blank⟩ =
        .next (Proc.filled ⟨s.front, .blank⟩ call f).bump ∧ SameSegment out f := by
  rcases hdirect with hflag | hflag
  · obtain ⟨hcip, hcport⟩ := d_flag_client rfl rfl hflag
    obtain ⟨_, _, d, h4, ht, -, -, -, -, -, -, hoff, -⟩ := ingress_d_flag hflag
    cases Option.some.inj h4
    cases Option.some.inj ht
    rw [lookedUp, hcip, hcport] at hset
    obtain ⟨hflow, server, hserver⟩ := h.toward (d := d) hset (by simpa [htonl, htons] using hoff)
    obtain ⟨eport, out, f, hr⟩ := inbound_relayed (T := D.learnt s.table) (s := ⟨s.front, .blank⟩)
      (hD.servers d server hserver) hserver hoff hflow hparse htype hlen he hp hflag
    exact ⟨eport, out, _, f, hr⟩
  · obtain ⟨hcip, hcport⟩ := v_flag_client rfl rfl hflag
    obtain ⟨_, _, d, h4, ht, -, -, -, hoff, -⟩ := ingress_v_flag hflag
    cases Option.some.inj h4
    cases Option.some.inj ht
    rw [lookedUp, hcip, hcport] at hset
    obtain ⟨hflow, -⟩ := h.toward (d := d) hset (by simpa [htonl, htons] using hoff)
    obtain ⟨eport, out, f, hr⟩ := outbound_relayed (T := D.learnt s.table) (s := ⟨s.front, .blank⟩)
      hD.vip hD.vport h.own hflow hparse htype hlen he hp hflag
    exact ⟨eport, out, _, f, hr⟩

/-- **A direct frame**: the other system hands it to the front-end, which keeps its state and sends
the same segment. -/
theorem NetInv.direct (h : NetInv D s) (hD : D.Fits) (ha : FrameFine D s a) {hdr : Header}
    {rest : List Byte} (hparse : SwitchIngressParser a.pkt = some (hdr, rest))
    (hdirect : Direct D.X (D.learnt s.table) a.port hdr)
    (hs : Passes D.X (D.learnt s.table) D.rc s.front a front' o) :
    front' = s.front ∧ ∃ o', Passes D.X D.T.unoffloaded D.rc s.front a s.front o' ∧
      SameEmitted o o' := by
  obtain ⟨htype, hlen, hset⟩ := ha.direct hdr rest hparse hdirect
  obtain ⟨hlb, e, ipv4, tcp, q, e₁, c₁, c₂, rfl, hpkt, -, he, hsw⟩ :=
    direct_relayed hparse htype hdirect
  have hlen' : 14 + ipv4.total_len.toNat ≤ a.pkt.length := by
    rwa [hpkt, decode_tcp_frame.1, ← hpkt] at hlen
  have hshort : (tcp_frame e₁ { ipv4 with hdr_checksum := c₁ } { tcp with checksum := c₂ }
      rest).length < 65536 := by
    have := ha.short
    rw [hpkt] at this
    rwa [length_tcp_frame] at this ⊢
  have hp := mbuf_holds a hshort
  obtain ⟨eport, out, call, f, hout, hpr, hsame⟩ :=
    h.segment hD hparse hdirect htype hlen' hset he hp a.mem
  have hslow : Passes D.X D.T.unoffloaded D.rc s.front a s.front (.built [f]) := by
    have hn := newFrames_filled ⟨s.front, .blank⟩ call f
    rw [← hn]
    exact .handled ⟨_, rest, q, hparse, hlb, hsw⟩ hpr
  -- the switch marks the frame for a backend or a client, not for the front-end
  have hno : ∀ out, ¬ ToFront D.X (D.learnt s.table) a out := by
    rintro out ⟨hdr, rest', q', hparse', hl, -⟩
    obtain ⟨rfl, -⟩ := Prod.mk.inj (Option.some.inj (hparse.symm.trans hparse'))
    rcases hdirect with hflag | hflag
    · obtain ⟨_, _, _, -, -, -, -, -, -, -, -, -, ⟨b, hb⟩, -⟩ := ingress_d_flag hflag
      rw [hb] at hl
      exact absurd hl (by decide : ¬ (0 : BitVec 1) = 1)
    · obtain ⟨_, _, _, -, -, -, -, -, -, ⟨b, hb⟩, -⟩ := ingress_v_flag hflag
      rw [hb] at hl
      exact absurd hl (by decide : ¬ (0 : BitVec 1) = 1)
  cases hs with
  | handled hf _ => exact absurd hf (hno _)
  | failed hf _ => exact absurd hf (hno _)
  | alone =>
      refine ⟨rfl, _, hslow, ?_⟩
      rw [hout]
      exact .segment hsame

/-- **The other system follows a step.** -/
theorem NetInv.follows (h : NetInv D s) (hD : D.Fits) {l : NetEvent × Emitted}
    (hs : FastStep D s l s') :
    ∃ o', SlowStep D s (l.1, o') s' ∧ SameEmitted l.2 o' := by
  obtain ⟨hf, hs⟩ := hs
  cases hs with
  | @frame a front' o ha =>
      by_cases hdirect : ∃ hdr rest, SwitchIngressParser a.pkt = some (hdr, rest) ∧
          Direct D.X (D.learnt s.table) a.port hdr
      · obtain ⟨hdr, rest, hp, hdirect⟩ := hdirect
        obtain ⟨rfl, o', hslow, hsame⟩ := h.direct hD hf hp hdirect ha
        exact ⟨o', .frame hslow, hsame⟩
      · have hslow := passes_unoffloaded (fun hdr rest hp hd => hdirect ⟨hdr, rest, hp, hd⟩) ha
        exact ⟨o, .frame hslow, .same o⟩
  | entries hev hs => exact ⟨_, .entries hev hs, .same _⟩

/-- **Offloading is invisible.**  From the start, every run in which the switch's entries are used
only while nothing of their client's is under way is followed by the system without offloading: with
the same events in the same order, it passes through the same states of the front-end, the queues
and the channel, and sends the same for every frame. -/
theorem offloading_invisible {s₀ : Sys} {ls : List (NetEvent × Emitted)} (hD : D.Fits)
    (h₀ : Start s₀) (hr : Steps (FastStep D) s₀ ls s) :
    ∃ ls', Steps (SlowStep D) s₀ ls' s ∧
      List.Forall₂ (fun l l' => l'.1 = l.1 ∧ SameEmitted l.2 l'.2) ls ls' := by
  have follows : ∀ s l s₁ t, s = t ∧ NetInv D s → FastStep D s l s₁ →
      ∃ l' t₁, SlowStep D t l' t₁ ∧ (s₁ = t₁ ∧ NetInv D s₁) ∧ l'.1 = l.1 ∧ SameEmitted l.2 l'.2 := by
    rintro s l s₁ _ ⟨rfl, h⟩ hl
    obtain ⟨o', hslow, hsame⟩ := h.follows hD hl
    exact ⟨_, s₁, hslow, ⟨rfl, h.step hD hl⟩, rfl, hsame⟩
  obtain ⟨ls', _, hls, ⟨rfl, -⟩, ho⟩ := hr.simulate follows ⟨rfl, .start D h₀⟩
  exact ⟨ls', hls, ho⟩

end simulation

/-! ### A run -/

/-- What becomes of a frame. -/
def Deployment.pass (D : Deployment) (T : Tables) (s : Shared) (a : Incoming) :
    Option (Shared × Emitted) :=
  match SwitchIngressParser a.pkt, switch D.X T a.port a.pkt with
  | some (hdr, _), some (q, out) =>
    if (SwitchIngress D.X T a.port hdr).bridged.lb_flag = 1 then
      match process_pkt D.rc a.mem (a.mbuf out) ⟨s, .blank⟩ with
      | .next s' => some (s'.shared, .built (newFrames Sends.blank s'.sends))
      | .ret _ s' => some (s'.shared, .built [])
      | .crash | .overflow | .stray | .refused => none
    else some (s, .wire (some (q, out)))
  | _, o => some (s, .wire o)

theorem passes_of_pass {D : Deployment} {T : Tables} {s s' : Shared} {a : Incoming} {o : Emitted}
    (h : D.pass T s a = some (s', o)) : Passes D.X T D.rc s a s' o := by
  unfold Deployment.pass at h
  split at h
  next hdr rest q out hp hs =>
    by_cases hl : (SwitchIngress D.X T a.port hdr).bridged.lb_flag = 1
    · rw [if_pos hl] at h
      have hf : ToFront D.X T a out := ⟨hdr, rest, q, hp, hl, hs⟩
      split at h
      next t ht =>
        cases h
        exact .handled hf ht
      next st t ht =>
        cases h
        exact .failed hf ht
      all_goals cases h
    · rw [if_neg hl] at h
      cases h
      rw [← hs]
      refine .alone fun out' hf => hl ?_
      obtain ⟨hdr', rest', q', hp', hl', -⟩ := hf
      cases hp.symm.trans hp'
      exact hl'
  next hn =>
    cases h
    refine .alone fun out' hf => ?_
    obtain ⟨hdr', rest', q', hp', -, hs'⟩ := hf
    exact hn _ _ _ _ hp' hs'

def Sys.settled (s : Sys) (c : Client) : Bool :=
  (s.entries.add_pairs ++ s.add_queue).all (fun pair => decide (pair.key ≠ c.my_key)) &&
    (s.entries.del_keys ++ s.del_queue).all (fun key => decide (key ≠ c.my_key)) &&
    s.channel.all fun msg => (carried msg).all fun e => decide (keyOfEnq e ≠ c.my_key)

theorem settled_of {s : Sys} {c : Client} (h : s.settled c = true) : Settled s c := by
  simp only [Sys.settled, Bool.and_eq_true, List.all_eq_true, decide_eq_true_eq] at h
  exact ⟨h.1.1, h.1.2, h.2⟩

/-- A check that makes a frame fine where all records are live. -/
def Deployment.checks (D : Deployment) (s : Sys) (a : Incoming) : Bool :=
  let T := D.learnt s.table
  decide (a.pkt.length < 65536) &&
    match SwitchIngressParser a.pkt with
    | none => true
    | some (hdr, _) =>
      let i := SwitchIngress D.X T a.port hdr
      (match switch D.X T a.port a.pkt with
        | none => true
        | some (_, out) =>
          !abandons s.front (a.mbuf out) &&
            (!D.T.dip_lookup_table (ntohl (srcClient (a.mbuf out).data).addr)
              (ntohs (srcClient (a.mbuf out).data).port) || decide (rule D.rc (a.mbuf out) = none))) &&
        (!decide (Direct D.X T a.port hdr) ||
          decide ((toMem a.pkt).nb16 12 = ETHERTYPE_IPV4) &&
          decide (14 + (ipv4_h.decode ((toMem a.pkt).drop 14)).total_len.toNat ≤ a.pkt.length) &&
          s.settled (lookedUp i))

section checks

variable {D : Deployment} {s s' : Sys} {a : Incoming}

theorem checks_abandons (h : D.checks s a = true) {out : List Byte}
    (hf : ToFront D.X (D.learnt s.table) a out) : abandons s.front (a.mbuf out) = false := by
  obtain ⟨hdr, rest, q, hp, -, hs⟩ := hf
  simp only [Deployment.checks, hp, hs, Bool.and_eq_true, Bool.not_eq_true'] at h
  exact h.2.1.1

theorem fine_of_frame_checks (ht : Tidy s.front) (h : D.checks s a = true) : FrameFine D s a where
  short := by
    simp only [Deployment.checks, Bool.and_eq_true, decide_eq_true_eq] at h
    exact h.1
  keeps := ht.keeps _
  servers out hf hd := by
    obtain ⟨hdr, rest, q, hp, -, hs⟩ := hf
    simp only [Deployment.checks, hp, hs, hd, Bool.and_eq_true, Bool.not_true, Bool.false_or,
      decide_eq_true_eq] at h
    exact h.2.1.2
  direct hdr rest hp hd := by
    simp only [Deployment.checks, hp, hd, Bool.and_eq_true, decide_true, Bool.not_true,
      Bool.false_or, decide_eq_true_eq] at h
    exact ⟨h.2.2.1.1, h.2.2.1.2, settled_of h.2.2.2⟩

end checks

/-- A checked step of the system with offloading. -/
def Deployment.next (D : Deployment) (s : Sys) : NetEvent → Option (Sys × Emitted)
  | .frame a =>
    if D.checks s a then
      (D.pass (D.learnt s.table) s.front a).map fun (front', o) => (s.enqueue front', o)
    else none
  | .entries (.packet _) => none
  | .entries ev => (s.checked ev).map (·, .wire none)

theorem fast_of_next {D : Deployment} {s s' : Sys} {ev : NetEvent} {o : Emitted} (ht : Tidy s.front)
    (h : D.next s ev = some (s', o)) : FastStep D s (ev, o) s' ∧ Tidy s'.front := by
  unfold Deployment.next at h
  split at h
  next a =>
    rw [Option.ite_none_right_eq_some] at h
    obtain ⟨hc, h⟩ := h
    obtain ⟨x, hf, he⟩ := Option.map_eq_some_iff.mp h
    obtain ⟨front', o'⟩ := x
    obtain ⟨rfl, rfl⟩ := Prod.mk.inj he
    have ha := passes_of_pass hf
    refine ⟨⟨fine_of_frame_checks ht hc, .frame ha⟩, ?_⟩
    cases ha with
    | @handled out _ _ _ hto hp =>
        have hs := front_step_of_done (hp ▸ Outcome.Done.next _)
        exact ht.step (l := ⟨D.rc, a.mbuf out, a.mem⟩) ⟨checks_abandons hc hto, hs⟩
    | @failed out _ _ _ st hto hp =>
        have hs := front_step_of_done (hp ▸ Outcome.Done.ret st _)
        exact ht.step (l := ⟨D.rc, a.mbuf out, a.mem⟩) ⟨checks_abandons hc hto, hs⟩
    | alone => exact ht
  · cases h
  next ev hev =>
    obtain ⟨t, hn, he⟩ := Option.map_eq_some_iff.mp h
    obtain ⟨rfl, rfl⟩ := Prod.mk.inj he
    rw [Sys.checked, Option.ite_none_right_eq_some] at hn
    obtain ⟨hfine, ht'⟩ := fine_of_checks ht hn.1 (next_step hn.2)
    exact ⟨⟨hfine.1, .entries (fun l hl => hev l hl) hfine.2⟩, ht'⟩

/-- A run of checked steps, with what is sent. -/
def Deployment.run (D : Deployment) (s : Sys) :
    List NetEvent → Option (Sys × List (NetEvent × Emitted))
  | [] => some (s, [])
  | ev :: evs =>
    (D.next s ev).bind fun (s, o) => (D.run s evs).map fun (s, ls) => (s, (ev, o) :: ls)

theorem fast_of_run {D : Deployment} {evs : List NetEvent} {s s' : Sys}
    {ls : List (NetEvent × Emitted)} (ht : Tidy s.front) (h : D.run s evs = some (s', ls)) :
    Steps (FastStep D) s ls s' ∧ ls.map Prod.fst = evs := by
  induction evs generalizing s ls with
  | nil =>
      cases h
      exact ⟨.refl, rfl⟩
  | cons ev evs ih =>
      obtain ⟨⟨s₁, o⟩, hn, h⟩ := Option.bind_eq_some_iff.mp h
      obtain ⟨⟨s₂, ls'⟩, hr, he⟩ := Option.map_eq_some_iff.mp h
      obtain ⟨rfl, rfl⟩ := Prod.mk.inj he
      obtain ⟨hs, ht'⟩ := fast_of_next ht hn
      obtain ⟨hsteps, hmap⟩ := ih ht' hr
      exact ⟨(Steps.one hs).trans hsteps, by rw [List.map_cons, hmap]⟩

/-- Server 3 serves the URL `a`, on offloaded connections. -/
def sampleDeployment : Deployment where
  X := standard_externs
  T := { offloadedTables with lb_index_to_egress_port_table := fun _ => some ⟨1, 2, 5⟩ }
  rc := { offloadedRules with rule_map := fun url => if url = [0x61] then some ⟨1, 3⟩ else none }

theorem sampleDeployment_fits : sampleDeployment.Fits where
  servers d server h := by
    simp only [sampleDeployment, offloadedRules, Option.ite_none_right_eq_some] at h
    obtain ⟨rfl, h⟩ := h
    cases h
    rfl
  rules key data h := by
    simp only [sampleDeployment, Option.ite_none_right_eq_some] at h
    obtain ⟨-, h⟩ := h
    cases h
    decide
  vip := rfl
  vport := rfl

/-- A frame of the given bytes, with the allocator's next address. -/
def sampleFrame (pkt : List Byte) (n : Addr) : NetEvent := .frame ⟨1, pkt, fun _ => 0, ⟨n, n⟩⟩

/-- A request and the SYN-ACK of its backend; the entry travels to the switch; then an
acknowledgement of the client and a response of the backend. -/
def sampleNet : List NetEvent :=
  [sampleFrame (headers (0xC0A80002, 40000) (VIRTUAL_IP, VIRTUAL_PORT) 1000 5000 TCP_ACK_FLAG 47 ++
      [0x47, 0x45, 0x54, 0x20, 0x2f, 0x61, 0x20]) 0,
    sampleFrame (headers (0x0A000103, 8083) (0xC0A80002, 40000) 70000 1000
      (TCP_SYN_FLAG ||| TCP_ACK_FLAG) 40) 1] ++
  (sampleTick [⟨offloadedClient.my_key, ⟨1, 3⟩⟩] []).map .entries ++
  [sampleFrame offloadedAck 1, sampleFrame offloadedResponse 1]

/-- A frame went out on the wire. -/
def Emitted.wired : Emitted → Bool
  | .wire o => o.isSome
  | .built _ => false

theorem offloading_invisible_sample :
    ∃ ls s, ls.map Prod.fst = sampleNet ∧ Steps (FastStep sampleDeployment) sampleSys ls s ∧
      ls.map (fun l => l.2.wired) = [false, false, false, false, false, true, true] ∧
      ∃ ls', Steps (SlowStep sampleDeployment) sampleSys ls' s ∧
        List.Forall₂ (fun l l' => l'.1 = l.1 ∧ SameEmitted l.2 l'.2) ls ls' := by
  have hr : ((sampleDeployment.run sampleSys sampleNet).map fun x =>
      x.2.map fun l => l.2.wired) = some [false, false, false, false, false, true, true] := by
    decide +kernel
  obtain ⟨⟨s, ls⟩, h, hw⟩ := Option.map_eq_some_iff.mp hr
  obtain ⟨hs, hmap⟩ := fast_of_run (.initial sampleSys_start.front) h
  exact ⟨ls, s, hmap, hs, hw, offloading_invisible sampleDeployment_fits sampleSys_start hs⟩

end Miresga.System
