import Miresga.Frontend.Isolation
import Miresga.Switch.Affinity
import Miresga.System.Bypass

/-!
# System — many front-ends behind one switch

The switch spreads the clients over front-ends that share nothing: a frame that ingress marks for a
front-end leaves on the port of `lb_index_to_egress_port_table`, looked up by the hash of its client
(`way`).  Both directions of a connection have the same hash (Switch/Affinity.lean), and a front-end
treats each client as if it were alone (Frontend/Isolation.lean).

So the fleet does what a single front-end would do with all the frames (`fleet_as_one`): the same
frames and requests for every segment, in whatever order the front-ends take turns, and every
connection at the one front-end of its client.
-/

namespace Miresga.System

open Frontend Switch

/-! ### The fleet -/

/-- The front-ends, by the port of the switch they are attached to. -/
abbrev Fleet := BitVec 9 → Shared

/-- A frame that goes through the switch to a front-end: the tables of the switch when it comes, the
frame that leaves and its port, and what the front-end does. -/
structure Served where
  tables : Switch.Tables
  frame : Incoming
  port : BitVec 9
  out : List Byte
  handled : Handled

namespace Served

/-- The switch sends the frame, and the buffer that is handled holds it. -/
structure Delivered (X : Externs) (x : Served) : Prop where
  sent : switch X x.tables x.frame.port x.frame.pkt = some (x.port, x.out)
  recv : x.handled.recv.pkt = x.frame.mbuf x.out

/-- The condition on a frame: an untagged TCP segment that ingress marks for a front-end, of a client
which is neither a backend nor the virtual server, and whose hash has an entry.  What comes from a
backend is no request.  The tables may change from frame to frame, but the backends and the entries
of the front-ends stay. -/
structure Fair (X : Externs) (T : Switch.Tables) (x : Served) : Prop where
  dip : x.tables.dip_lookup_table = T.dip_lookup_table
  lb : x.tables.lb_index_to_egress_port_table = T.lb_index_to_egress_port_table
  client : ∃ (c : BitVec 32 × BitVec 16) (s : Ingress), T.dip_lookup_table c.1 c.2 = false ∧
    c ≠ (VIRTUAL_IP, VIRTUAL_PORT) ∧ T.lb_index_to_egress_port_table (X.crc8 c.1 c.2) ≠ none ∧
    ToFrontEnd X x.tables c x.frame.port x.frame.pkt s
  untagged : (toMem x.frame.pkt).nb16 12 ≠ ETHERTYPE_VLAN
  short : x.frame.pkt.length < 65536
  quiet : T.dip_lookup_table (ntohl (srcClient x.handled.recv.pkt.data).addr)
      (ntohs (srcClient x.handled.recv.pkt.data).port) = true →
    payload_flag x.handled.recv.pkt.data = true →
      rule x.handled.recv.rc x.handled.recv.pkt = none

end Served

/-- A frame goes through the switch and is handled by the front-end on its port. -/
def FleetStep (X : Externs) (F : Fleet) (x : Served) (F' : Fleet) : Prop :=
  x.Delivered X ∧ ∃ s', HandleStep (F x.port) x.handled s' ∧ F' = upd F x.port s'

/-- The port that the frames of a client leave on. -/
def way (X : Externs) (T : Switch.Tables) (c : Client) : BitVec 9 :=
  ((T.lb_index_to_egress_port_table (X.crc8 (ntohl c.addr) (ntohs c.port))).map (·.dst_port)).getD 0

/-- Neither a backend nor the virtual server. -/
def Clients (T : Switch.Tables) : Set Client :=
  {c | T.dip_lookup_table (ntohl c.addr) (ntohs c.port) = false ∧
    (ntohl c.addr, ntohs c.port) ≠ (VIRTUAL_IP, VIRTUAL_PORT)}

instance (T : Switch.Tables) : DecidablePred (· ∈ Clients T) := fun c =>
  inferInstanceAs
    (Decidable (_ = false ∧ (ntohl c.addr, ntohs c.port) ≠ (VIRTUAL_IP, VIRTUAL_PORT)))

/-! ### A fair frame -/

section frame

variable {X : Externs} {T : Switch.Tables} {x : Served}

/-- A segment that is marked for a front-end arrives there as a segment of its client. -/
theorem to_front_end_frame {c : BitVec 32 × BitVec 16} {port : BitVec 9} {pkt : List Byte}
    {s : Ingress} (hc : T.dip_lookup_table c.1 c.2 = false) (h : ToFrontEnd X T c port pkt s)
    (hu : (toMem pkt).nb16 12 ≠ ETHERTYPE_VLAN) :
    ∃ e ipv4 tcp rest c₁ c₂, pkt.length = (tcp_frame e ipv4 tcp rest).length ∧
      OfClient T c ipv4 tcp ∧ ipv4.protocol = IP_PROTOCOLS_TCP ∧ e.ether_type = ETHERTYPE_IPV4 ∧
      switch X T port pkt = some (s.ucast_egress_port,
        tcp_frame e { ipv4 with hdr_checksum := c₁ } { tcp with checksum := c₂ } rest) := by
  obtain ⟨⟨hdr, rest, ipv4₀, tcp, hp, rfl, h4, ht, hof⟩, hlb⟩ := h
  obtain ⟨_, _, _, -, hl, -⟩ := ingress_parser_cases hp
  have harp : hdr.arp = none := hl.arp_or.resolve_right fun h => by
    cases ht.symm.trans h.2.1
  obtain ⟨-, -, -, -, -, hh⟩ := ingress_lb hc harp h4 ht hof hlb
  obtain ⟨hsyn, hd, hv⟩ := ingress_lb_only hlb
  obtain ⟨e, ipv4, e', c₁, c₂, rfl, hpkt, hprot, he', hsw⟩ :=
    unmarked_relayed hp (type_of_tcp hp ht hu) ht hh hsyn hd hv
  obtain rfl : ipv4 = ipv4₀ := Option.some.inj h4
  refine ⟨e', ipv4, tcp, rest, c₁, c₂, ?_, hof, hprot, he', hsw⟩
  rw [hpkt, length_tcp_frame, length_tcp_frame]

theorem mem_clients (T : Switch.Tables) (a : BitVec 32) (p : BitVec 16) :
    (⟨htonl a, htons p⟩ : Client) ∈ Clients T ↔
      T.dip_lookup_table a p = false ∧ (a, p) ≠ (VIRTUAL_IP, VIRTUAL_PORT) := by
  simp [Clients, htonl, htons]

/-- A fair frame comes from a client to the virtual server or from a backend to a client, and leaves
on the client's way. -/
theorem Served.Fair.addresses (hf : x.Fair X T) (hx : x.Delivered X) :
    ∃ c ∈ Clients T, x.port = way X T c ∧
      (srcClient x.handled.recv.pkt.data = c ∧
          dstClient x.handled.recv.pkt.data = ⟨htonl VIRTUAL_IP, htons VIRTUAL_PORT⟩ ∨
        T.dip_lookup_table (ntohl (srcClient x.handled.recv.pkt.data).addr)
            (ntohs (srcClient x.handled.recv.pkt.data).port) = true ∧
          dstClient x.handled.recv.pkt.data = c) := by
  obtain ⟨c, s, hc, hne, hentry, hto⟩ := hf.client
  obtain ⟨p, hentry⟩ := Option.ne_none_iff_exists'.mp hentry
  have hc' : x.tables.dip_lookup_table c.1 c.2 = false := by rw [hf.dip, hc]
  obtain ⟨e, ipv4, tcp, rest, c₁, c₂, hlen, hof, hprot, he, hsw⟩ :=
    to_front_end_frame hc' hto hf.untagged
  obtain ⟨hport, hout⟩ := Prod.mk.inj (Option.some.inj (hx.sent.symm.trans hsw))
  have hp : Holds x.handled.recv.pkt (tcp_frame e { ipv4 with hdr_checksum := c₁ }
      { tcp with checksum := c₂ } rest) := by
    rw [hx.recv, hout]
    refine mbuf_holds _ ?_
    rw [length_tcp_frame, ← length_tcp_frame e ipv4 tcp, ← hlen]
    exact hf.short
  have hsrc := hp.srcClient
  have hdst := hp.dstClient
  refine ⟨⟨htonl c.1, htons c.2⟩, (mem_clients T c.1 c.2).mpr ⟨hc, hne⟩, ?_, ?_⟩
  · -- the port is that of the entry of the client's hash
    rw [hport, ((hto.lookup hc').2 p (by rw [hf.lb, hentry])).egress_port]
    simp [way, htonl, htons, hentry]
  · rcases hof with ⟨rfl, hip, hvport⟩ | ⟨hdip, rfl⟩
    · refine .inl ⟨hsrc, ?_⟩
      rw [hdst, hip, hvport]
    · refine .inr ⟨?_, hdst⟩
      rw [hsrc, ← hf.dip]
      simpa [htonl, htons] using hdip

/-- **A fair frame** is disciplined, and leaves on its client's way. -/
theorem Served.Fair.input (hf : x.Fair X T) (hx : x.Delivered X) :
    Disciplined (Clients T) x.handled.input ∧ x.port = way X T (home (Clients T) x.handled.input) := by
  obtain ⟨c, hmem, hway, ⟨rfl, hdst⟩ | ⟨hdip, rfl⟩⟩ := hf.addresses hx
  · have hhome : home (Clients T) x.handled.input = srcClient x.handled.recv.pkt.data := if_pos hmem
    refine ⟨fun _ => .inl ⟨hmem, ?_⟩, by rw [hhome, hway]⟩
    rw [Handled.input, hdst, mem_clients]
    exact fun h => h.2 rfl
  · have hno : srcClient x.handled.recv.pkt.data ∉ Clients T := fun h => by
      rw [h.1] at hdip
      cases hdip
    have hhome : home (Clients T) x.handled.input = dstClient x.handled.recv.pkt.data := if_neg hno
    exact ⟨fun _ => .inr ⟨hno, hmem, hf.quiet hdip⟩, by rw [hhome, hway]⟩

end frame

/-! ### Runs of the fleet -/

section runs

variable {X : Externs} {T : Switch.Tables} {F₀ F : Fleet} {xs : List Served} {s₀ s : Shared}
  {tr : List Handled}

theorem fleet_delivered (hr : Steps (FleetStep X) F₀ xs F) : ∀ x ∈ xs, x.Delivered X := by
  induction hr with
  | refl => exact fun x hx => absurd hx List.not_mem_nil
  | more _ hx ih =>
      intro y hy
      rcases List.mem_append.mp hy with hy | hy
      · exact ih y hy
      · rw [List.mem_singleton.mp hy]
        exact hx.1

/-- The run of one front-end: the frames that leave on its port. -/
theorem fleet_at (hr : Steps (FleetStep X) F₀ xs F) (q : BitVec 9) :
    Steps HandleStep (F₀ q) ((xs.filter (·.port = q)).map Served.handled) (F q) := by
  induction hr with
  | refl => exact .refl
  | @more xs F₁ F' x _ hx ih =>
      obtain ⟨-, s', hs, rfl⟩ := hx
      rw [List.filter_append, List.map_append]
      by_cases hq : x.port = q
      · subst hq
        rw [List.filter_cons_of_pos (by simp), List.filter_nil, List.map_singleton, upd_same]
        exact ih.more hs
      · rw [List.filter_cons_of_neg (by simpa using hq), List.filter_nil, List.map_nil,
          List.append_nil, upd_other _ _ _ (Ne.symm hq)]
        exact ih

/-- The segments of a client are those of one front-end. -/
theorem filter_way (hw : ∀ x ∈ xs, x.port = way X T (home (Clients T) x.handled.input)) (q : BitVec 9)
    (c : Client) :
    ((xs.filter (·.port = q)).map Served.handled).filter (·.of (Clients T) c) =
      if q = way X T c then (xs.map Served.handled).filter (·.of (Clients T) c) else [] := by
  rw [List.filter_map, List.filter_map, List.filter_filter]
  split
  next hq =>
    refine congrArg _ (List.filter_congr fun x hx => ?_)
    rw [hw x hx, hq]
    by_cases hc : home (Clients T) x.handled.input = c <;> simp [Handled.of, hc]
  next hq =>
    rw [List.map_eq_nil_iff, List.filter_eq_nil_iff]
    intro x hx h
    simp only [Function.comp_apply, Handled.of, Bool.and_eq_true, decide_eq_true_eq] at h
    rw [← h.2, hw x hx, h.1] at hq
    exact hq rfl

/-- A front-end's run, at one client: all the client's segments or none. -/
theorem fleet_run_at (h₀ : ∀ q, Initial (F₀ q)) (hr : Steps (FleetStep X) F₀ xs F)
    (hf : ∀ x ∈ xs, x.Fair X T) (q : BitVec 9) (c : Client) :
    let own := if q = way X T c then (xs.map Served.handled).filter (·.of (Clients T) c) else []
    Machine.run (Conn.handle (Clients T) c) (own.map Handled.input) .closed =
      some ((F q).conn c, own.map Handled.shown) := by
  have hin := fun x hx => (hf x hx).input (fleet_delivered hr x hx)
  dsimp only
  rw [← filter_way (fun x hx => (hin x hx).2) q c]
  refine (front_run_at (h₀ q) (fleet_at hr q) (fun y hy => ?_) c).1
  obtain ⟨x, hx, rfl⟩ := List.mem_map.mp hy
  exact (hin x (List.mem_filter.mp hx).1).1

/-- **The fleet is the product of the clients' machines**, each at the front-end of its client. -/
theorem fleet_product (h₀ : ∀ q, Initial (F₀ q)) (hr : Steps (FleetStep X) F₀ xs F)
    (hf : ∀ x ∈ xs, x.Fair X T) :
    Machine.run (Product.step (home (Clients T)) (Conn.handle (Clients T)))
        ((xs.map Served.handled).map Handled.input) Conns.closed =
      some (fun c => (F (way X T c)).conn c, (xs.map Served.handled).map Handled.shown) := by
  refine Product.run_of_at (by rw [List.map_map]; rfl) fun c => ?_
  have hc := fleet_run_at h₀ hr hf (way X T c) c
  rw [if_pos rfl] at hc
  rw [filter_input, filter_shown]
  exact hc

/-- A connection is at the front-end of its client. -/
theorem fleet_conn (h₀ : ∀ q, Initial (F₀ q)) (hr : Steps (FleetStep X) F₀ xs F)
    (hf : ∀ x ∈ xs, x.Fair X T) {q : BitVec 9} {c : Client} (hq : q ≠ way X T c) :
    (F q).conn c = .closed := by
  have hc := fleet_run_at h₀ hr hf q c
  rw [if_neg hq] at hc
  simp only [List.map_nil, Machine.run, Option.some.injEq, Prod.mk.injEq] at hc
  exact hc.1.symm

/-- **A fleet is one front-end.**  Take a run of the fleet on fair frames, the front-ends in any order,
and a single front-end that has got the same frames so far.  It does not get stuck on the next; and
once it has got them all, it has made the same frames and requests for each, and every connection is
as it is at the front-end of its client, and closed at the others. -/
theorem fleet_as_one (h₀ : ∀ q, Initial (F₀ q)) (h₀' : Initial s₀)
    (hr : Steps (FleetStep X) F₀ xs F) (hf : ∀ x ∈ xs, x.Fair X T)
    (hr' : Steps HandleStep s₀ tr s) :
    (∀ (l : Recv) (ls : List Input),
      xs.map (·.handled.input) = tr.map Handled.input ++ (l.rc, l.pkt) :: ls → Keeps s l.mem →
      ∀ t, process_pkt l.rc l.mem l.pkt ⟨s, t⟩ ≠ .crash) ∧
    (xs.map (·.handled.input) = tr.map Handled.input →
      xs.map (·.handled.visible) = tr.map Handled.visible ∧
      ∀ q c, (F q).conn c = if q = way X T c then s.conn c else .closed) := by
  have hall := fleet_product h₀ hr hf
  rw [← run_product fun l hl => by
    obtain ⟨y, hy, rfl⟩ := List.mem_map.mp hl
    obtain ⟨x, hx, rfl⟩ := List.mem_map.mp hy
    exact ((hf x hx).input (fleet_delivered hr x hx)).1] at hall
  obtain ⟨hk, hrun⟩ := Kept.front_run h₀' hr'
  have hinputs : (xs.map Served.handled).map Handled.input = xs.map (·.handled.input) :=
    List.map_map
  refine ⟨fun l ls he hkeeps t hcrash => ?_, fun he => ?_⟩
  · rw [hinputs, he] at hall
    rcases hk.front_crash hkeeps t with hend | hend | hiff
    · cases hend.symm.trans hcrash
    · cases hend.symm.trans hcrash
    · exact Machine.run_next hall hrun (hiff.mp hcrash)
  · rw [hinputs, he, hrun] at hall
    simp only [Option.some.injEq, Prod.mk.injEq] at hall
    obtain ⟨hconn, hshown⟩ := hall
    refine ⟨?_, fun q c => ?_⟩
    · rw [visible_of_shown hshown, List.map_map]
      rfl
    · split
      next hq => rw [hq, hconn]
      next hq => exact fleet_conn h₀ hr hf hq

end runs

/-! ### Two front-ends -/

/-- The front-ends on ports 5 and 6, by the parity of the hash. -/
def fleetTables : Switch.Tables :=
  { affinityTables with
    lb_index_to_egress_port_table := fun h => some ⟨1, 2, if h.getLsbD 0 then 6 else 5⟩ }

/-- A request for the URL `a`, from the given client. -/
def fleetRequest (c : BitVec 32 × BitVec 16) : List Byte :=
  headers c (VIRTUAL_IP, VIRTUAL_PORT) 1000 5000 TCP_ACK_FLAG 47 ++
    [0x47, 0x45, 0x54, 0x20, 0x2f, 0x61, 0x20]

/-- The request on its way, with the allocator's next address. -/
def fleetFrame (c : BitVec 32 × BitVec 16) (n : Addr) : Incoming :=
  ⟨1, fleetRequest c, fun _ => 0, ⟨n, n⟩⟩

def fleetOut (c : BitVec 32 × BitVec 16) : List Byte :=
  ((switch standard_externs fleetTables 1 (fleetRequest c)).map (·.2)).getD []

def fleetClient : BitVec 32 × BitVec 16 := (0xC0A80002, 40000)
def fleetClient₂ : BitVec 32 × BitVec 16 := (0xC0A80003, 40000)

/-- What a front-end gets of it. -/
def fleetRecv (c : BitVec 32 × BitVec 16) (n : Addr) : Recv :=
  ⟨sampleDeployment.rc, (fleetFrame c n).mbuf (fleetOut c), ⟨n, n⟩⟩

theorem fleet_request : ToFrontEnd standard_externs fleetTables fleetClient 1
    (fleetRequest fleetClient)
    (SwitchIngress standard_externs fleetTables 1 (parsedHeader (fleetRequest fleetClient))) where
  parsed := ⟨_, _, (ipv4_h.decode ((toMem (fleetRequest fleetClient)).drop 14)),
    (tcp_h.decode ((toMem (fleetRequest fleetClient)).drop 34)), by rfl, rfl, by rfl, by rfl,
    .inl (by decide +kernel)⟩
  lb_flag := by decide +kernel

theorem fleet_request₂ : ToFrontEnd standard_externs fleetTables fleetClient₂ 1
    (fleetRequest fleetClient₂)
    (SwitchIngress standard_externs fleetTables 1 (parsedHeader (fleetRequest fleetClient₂))) where
  parsed := ⟨_, _, (ipv4_h.decode ((toMem (fleetRequest fleetClient₂)).drop 14)),
    (tcp_h.decode ((toMem (fleetRequest fleetClient₂)).drop 34)), by rfl, rfl, by rfl, by rfl,
    .inl (by decide +kernel)⟩
  lb_flag := by decide +kernel

/-- The request, as it leaves on `q`. -/
def fleetServed (c : BitVec 32 × BitVec 16) (q : BitVec 9) (x : Handled) : Served :=
  ⟨fleetTables, fleetFrame c 0, q, fleetOut c, x⟩

theorem fleet_fair {c : BitVec 32 × BitVec 16} {q : BitVec 9} {x : Handled} {s : Ingress}
    (hx : x.recv = fleetRecv c 0) (hto : ToFrontEnd standard_externs fleetTables c 1 (fleetRequest c) s)
    (hc : fleetTables.dip_lookup_table c.1 c.2 = false ∧ c ≠ (VIRTUAL_IP, VIRTUAL_PORT))
    (hp : (toMem (fleetRequest c)).nb16 12 ≠ ETHERTYPE_VLAN ∧ (fleetRequest c).length < 65536)
    (hq : fleetTables.dip_lookup_table (ntohl (srcClient (fleetRecv c 0).pkt.data).addr)
      (ntohs (srcClient (fleetRecv c 0).pkt.data).port) = false) :
    (fleetServed c q x).Fair standard_externs fleetTables where
  dip := rfl
  lb := rfl
  client := ⟨c, s, hc.1, hc.2, Option.some_ne_none _, hto⟩
  untagged := hp.1
  short := hp.2
  quiet h := by
    rw [show (fleetServed c q x).handled.recv = fleetRecv c 0 from hx, hq] at h
    cases h

/-- One front-end handles the frame. -/
theorem fleet_handled {l : Recv} (hl : l.pkt.Sequenced)
    (h : ([l].foldlM handleTidy sampleStart).isSome = true) :
    ∃ x s, x.recv = l ∧ HandleStep sampleStart x s := by
  obtain ⟨tr, s, htr, hr, -⟩ := handled_sample [l] (by simpa using hl) h
  obtain ⟨x, rfl, hx⟩ := List.map_eq_singleton_iff.mp htr
  exact ⟨x, s, hx, hr.one_inv⟩

/-- A run of the fleet: two clients' requests, to two front-ends. -/
theorem fleet_sample : ∃ xs F, Steps (FleetStep standard_externs) (fun _ => sampleStart) xs F ∧
    (∀ x ∈ xs, x.Fair standard_externs fleetTables) ∧ xs.map (·.port) = [5, 6] ∧
    xs.map (·.handled.input) =
      [fleetRecv fleetClient 0, fleetRecv fleetClient₂ 0].map fun l => (l.rc, l.pkt) := by
  obtain ⟨x₁, s₁, hx₁, hs₁⟩ := fleet_handled (l := fleetRecv fleetClient 0) (by decide +kernel)
    (by decide +kernel)
  obtain ⟨x₂, s₂, hx₂, hs₂⟩ := fleet_handled (l := fleetRecv fleetClient₂ 0) (by decide +kernel)
    (by decide +kernel)
  have hsw₁ : switch standard_externs fleetTables 1 (fleetRequest fleetClient) =
      some (5, fleetOut fleetClient) := by decide +kernel
  have hsw₂ : switch standard_externs fleetTables 1 (fleetRequest fleetClient₂) =
      some (6, fleetOut fleetClient₂) := by decide +kernel
  have hF : Steps (FleetStep standard_externs) (fun _ => sampleStart)
      [fleetServed fleetClient 5 x₁, fleetServed fleetClient₂ 6 x₂] _ :=
    (Steps.one ⟨⟨hsw₁, congrArg Recv.pkt hx₁⟩, s₁, hs₁, rfl⟩).more
      ⟨⟨hsw₂, congrArg Recv.pkt hx₂⟩, s₂, hs₂, rfl⟩
  refine ⟨_, _, hF, ?_, rfl, ?_⟩
  · rw [List.forall_mem_cons, List.forall_mem_singleton]
    exact ⟨fleet_fair hx₁ fleet_request (by decide) (by decide +kernel) (by decide +kernel),
      fleet_fair hx₂ fleet_request₂ (by decide) (by decide +kernel) (by decide +kernel)⟩
  · simp only [List.map_cons, List.map_nil, fleetServed, Handled.input, hx₁, hx₂]

/-- The two requests go to two front-ends, or both to one. -/
theorem fleet_as_one_sample :
    ∃ xs F tr s, Steps (FleetStep standard_externs) (fun _ => sampleStart) xs F ∧
      xs.map (·.port) = [5, 6] ∧ Steps HandleStep sampleStart tr s ∧
      xs.map (·.handled.visible) = tr.map Handled.visible ∧
      ∀ q c, (F q).conn c =
        if q = way standard_externs fleetTables c then s.conn c else .closed := by
  obtain ⟨xs, F, hF, hfair, hports, hinputs⟩ := fleet_sample
  obtain ⟨tr, s, htr, hr, -⟩ :=
    handled_sample [fleetRecv fleetClient 0, fleetRecv fleetClient₂ 1] (by decide +kernel)
      (by decide +kernel)
  refine ⟨xs, F, tr, s, hF, hports, hr,
    (fleet_as_one (fun _ => sampleStart_initial) sampleStart_initial hF hfair hr).2 ?_⟩
  rw [inputs_of_recvs htr, hinputs]
  rfl

end Miresga.System
