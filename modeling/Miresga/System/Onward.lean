import Miresga.Frontend.Onward
import Miresga.System.Fleet

/-!
# System — a frame meets one front-end

What the front-ends build goes through the switch once more.  By Frontend/Onward.lean it neither comes
from a backend nor goes to the virtual server, and ingress has no mark for such a frame
(`onward_passed`).  So in every run of the fleet, what a front-end builds is sent on as it is, and no
front-end gets it again (`fleet_sends_on`): there is no loop between the switch and its front-ends.
-/

namespace Miresga.System

open Frontend Switch

/-- The servers as the tables have them. -/
def servers (T : Switch.Tables) (h : T.dip_lookup_table VIRTUAL_IP VIRTUAL_PORT = false) :
    Servers where
  virtual := ⟨htonl VIRTUAL_IP, htons VIRTUAL_PORT⟩
  backends := {c | T.dip_lookup_table (ntohl c.addr) (ntohs c.port) = true}
  apart hv := by
    have hv : T.dip_lookup_table (ntohl (htonl VIRTUAL_IP)) (ntohs (htons VIRTUAL_PORT)) = true := hv
    rw [ntohl, ntohs, htonl, htons, bswap32_bswap32, bswap16_bswap16, h] at hv
    cases hv

/-- However the frame is parsed, ingress marks it for no front-end and egress has nothing to do with
it; and a segment leaves with its headers unchanged, MAC addresses and checksums apart. -/
def PassedOn (X : Externs) (T : Switch.Tables) (port : BitVec 9) (pkt : List Byte) : Prop :=
  ∀ hdr rest, SwitchIngressParser pkt = some (hdr, rest) →
    ((SwitchIngress X T port hdr).bridged.lb_flag = 0 ∧
      (SwitchIngress X T port hdr).bridged.syn_respond = 0 ∧
      (SwitchIngress X T port hdr).bridged.d_flag = 0 ∧
      (SwitchIngress X T port hdr).bridged.v_flag = 0) ∧
    ∀ tcp, hdr.tcp = some tcp → ∃ e ipv4 e' c₁ c₂, pkt = tcp_frame e ipv4 tcp rest ∧
      switch X T port pkt = some ((SwitchIngress X T port hdr).ucast_egress_port,
        tcp_frame e' { ipv4 with hdr_checksum := c₁ } { tcp with checksum := c₂ } rest)

/-! ### The switch -/

section switch

variable {X : Externs} {T T' : Switch.Tables} {port : BitVec 9} {hdr : Header} {f : Mbuf}

/-- Without direction there is no mark. -/
theorem ingress_unmarked (X : Externs) (T : Switch.Tables) (port : BitVec 9) (hdr : Header)
    (h₁ : ((Ingress.init hdr).classify X T port).direction ≠ 0b001)
    (h₂ : ((Ingress.init hdr).classify X T port).direction ≠ 0b010) :
    (SwitchIngress X T port hdr).bridged.lb_flag = 0 ∧
      (SwitchIngress X T port hdr).bridged.syn_respond = 0 ∧
      (SwitchIngress X T port hdr).bridged.d_flag = 0 ∧
      (SwitchIngress X T port hdr).bridged.v_flag = 0 := by
  obtain ⟨b, hb, hm⟩ := Ingress.mark_marked ((Ingress.init hdr).classify X T port) (hdr.flag (·.syn))
    (hdr.flag (·.fin)) (hdr.flag (·.rst))
  rw [ingress_bridged, hb]
  cases hm with
  | to_dest | to_cpu | unmarked => exact ⟨classify_not_lb.1, classify_not_lb.2, Ingress.classify_unmarked⟩
  | respond hd | client_lb hd | to_backend hd => exact absurd hd h₁
  | backend_lb hd | to_client hd => exact absurd hd h₂

theorem frame_holds (f : Mbuf) : Holds f f.frame := by
  refine ⟨(Mem.length_bytes _ _ _).symm, fun i hi => ?_⟩
  rw [toMem_lt hi]
  simp only [Mbuf.frame, Mem.getElem_bytes, Nat.zero_add]

/-- The type of a frame, as the switch reads it. -/
theorem frame_type (hf : isTcp f.data) {rest : List Byte}
    (hp : SwitchIngressParser f.frame = some (hdr, rest)) :
    (toMem f.frame).nb16 12 = ETHERTYPE_IPV4 := by
  obtain ⟨e, v, l, -, -, hpkt⟩ := ingress_parser_cases hp
  have hlen : 14 ≤ f.frame.length := by
    rw [hpkt, List.length_append, Format.length_emit]
    exact Nat.le_add_right _ _
  have hdata := (frame_holds f).data
  rw [Mem.nb16, ← hdata 12 (by omega), ← hdata 13 (by omega)]
  exact nb16_of_ld16 hf.1

/-- **The switch passes on** what is for no front-end. -/
theorem onward_passed {h : T.dip_lookup_table VIRTUAL_IP VIRTUAL_PORT = false}
    (hf : (servers T h).Onward f.data) (hT : T'.dip_lookup_table = T.dip_lookup_table) :
    PassedOn X T' port f.frame := by
  intro hdr rest hp
  cases ht : hdr.tcp with
  | none =>
      refine ⟨?_, fun tcp htcp => nomatch htcp⟩
      obtain ⟨_, _, -, htcp, -⟩ | ⟨hd, -⟩ := Ingress.classify_cases X T' port hdr
      · cases ht.symm.trans htcp
      · exact ingress_unmarked X T' port hdr (by rw [hd]; decide) (by rw [hd]; decide)
  | some tcp =>
      have htype := frame_type hf.isTcp hp
      obtain ⟨e, ipv4, rfl, -, -, -, hpkt⟩ := parser_tcp hp htype ht
      have hc : Ingress.Classified T' ipv4 tcp (Ingress.init (tcp_headers e ipv4 tcp))
          ((Ingress.init (tcp_headers e ipv4 tcp)).classify X T' port) :=
        Ingress.tcp_tables_init _ ipv4 tcp
      have hholds := frame_holds f
      rw [hpkt] at hholds
      have hmarks := ingress_unmarked X T' port (tcp_headers e ipv4 tcp) (fun hd => ?_) (fun hd => ?_)
      · refine ⟨hmarks, fun tcp' htcp => ?_⟩
        obtain rfl : tcp = tcp' := Option.some.inj htcp
        obtain ⟨e', ipv4', e'', c₁, c₂, hhdr, hpkt', -, -, hsw⟩ := unmarked_relayed hp htype rfl
          (handed_of_classified hc) hmarks.2.1 hmarks.2.2.1 hmarks.2.2.2
        exact ⟨e', ipv4', e'', c₁, c₂, hpkt', hsw⟩
      · obtain ⟨hip, hport, -, -⟩ := hc.inbound hd
        refine hf.dst ?_
        rw [hholds.dstClient, hip, hport]
        rfl
      · refine hf.src ?_
        rw [hholds.srcClient]
        have hdip := (hc.outbound hd).1
        rw [hT] at hdip
        simpa [servers, htonl, htons] using hdip

end switch

/-! ### Runs of the fleet -/

section fleet

variable {X : Externs} {T : Switch.Tables} {F₀ F : Fleet} {xs : List Served} {x : Served}
  {hv : T.dip_lookup_table VIRTUAL_IP VIRTUAL_PORT = false}

theorem clients_mem {c : Client} (h : c ∈ Clients T) : c ∈ (servers T hv).clients := by
  refine ⟨fun hb => ?_, fun he => h.2 ?_⟩
  · cases h.1.symm.trans hb
  · rw [he]
    simp [servers, htonl, htons, ntohl, ntohs]

/-- What the switch hands to a front-end was sent by a client or by a backend. -/
theorem Served.Fair.spoken (hf : x.Fair X T) (hx : x.Delivered X) :
    (servers T hv).Spoken x.handled.input := by
  intro _
  obtain ⟨c, hc, -, ⟨rfl, hdst⟩ | ⟨hdip, rfl⟩⟩ := hf.addresses hx
  · exact .inl ⟨clients_mem hc, hdst⟩
  · exact .inr ⟨hdip, clients_mem hc, hf.quiet hdip⟩

/-- **The switch sends on what the fleet builds.**  In every run of the fleet on fair frames, where no
front-end's tables take a backend for the virtual server, every frame that a front-end builds, of
whatever packet, passes the switch: whatever else its tables hold by then, and on whichever port. -/
theorem fleet_sends_on (hv : T.dip_lookup_table VIRTUAL_IP VIRTUAL_PORT = false)
    (h₀ : ∀ q, Initial (F₀ q)) (hr : Steps (FleetStep X) F₀ xs F) (hf : ∀ x ∈ xs, x.Fair X T)
    (hrc : ∀ x ∈ xs, (servers T hv).Apart x.handled.recv.rc) :
    ∀ x ∈ xs, ∀ c ∈ x.handled.calls, ∀ b f, c.build x.handled.recv.rc b = some (.OK, f) →
      ∀ (T' : Switch.Tables) (port : BitVec 9), T'.dip_lookup_table = T.dip_lookup_table →
        PassedOn X T' port f.frame := by
  intro x hx c hc b f hb T' port hT
  have honward := onward_run (S := servers T hv) (h₀ x.port) (fleet_at hr x.port) (fun y hy => ?_)
    x.handled (List.mem_map_of_mem (List.mem_filter.mpr ⟨hx, by simp⟩)) c hc b f hb
  · exact onward_passed honward hT
  · obtain ⟨z, hz, rfl⟩ := List.mem_map.mp hy
    have hz := (List.mem_filter.mp hz).1
    exact ⟨(hf z hz).spoken (fleet_delivered hr z hz), hrc z hz⟩

end fleet

theorem fleetTables_virtual : fleetTables.dip_lookup_table VIRTUAL_IP VIRTUAL_PORT = false := by
  decide

/-- The sample server is not the virtual one, read either way. -/
theorem sample_server {d : Byte} {server : ServerInfo}
    (h : sampleDeployment.rc.lookup_backend_server_info d = some server) :
    (⟨htonl server.ip, htons server.port⟩ : Client) ≠ ⟨htonl VIRTUAL_IP, htons VIRTUAL_PORT⟩ ∧
      (⟨server.ip, server.port⟩ : Client) ≠ ⟨htonl VIRTUAL_IP, htons VIRTUAL_PORT⟩ := by
  simp only [RuleController.lookup_backend_server_info, sampleDeployment, offloadedRules,
    Option.ite_none_right_eq_some] at h
  obtain ⟨-, h⟩ := h
  cases h
  decide

theorem sample_apart : (servers fleetTables fleetTables_virtual).Apart sampleDeployment.rc where
  virtual := by decide
  network _ _ h := (sample_server h).1
  host _ _ h := (sample_server h).2

/-- The SYNs for the two requests. -/
theorem fleet_sends_on_sample :
    ∃ xs F, Steps (FleetStep standard_externs) (fun _ => sampleStart) xs F ∧
      xs.map (·.handled.calls.length) = [1, 1] ∧
      ∀ x ∈ xs, ∀ c ∈ x.handled.calls, ∀ b f, c.build x.handled.recv.rc b = some (.OK, f) →
        ∀ (T' : Switch.Tables) (port : BitVec 9),
          T'.dip_lookup_table = fleetTables.dip_lookup_table →
            PassedOn standard_externs T' port f.frame := by
  obtain ⟨xs, F, hF, hfair, -, hinputs⟩ := fleet_sample
  refine ⟨xs, F, hF, ?_, fleet_sends_on fleetTables_virtual (fun _ => sampleStart_initial) hF hfair
    fun x hx => ?_⟩
  · -- how many calls there are is computed
    have hlen : ((Machine.run (Product.step (home (Clients fleetTables))
        (Conn.handle (Clients fleetTables)))
        ([fleetRecv fleetClient 0, fleetRecv fleetClient₂ 0].map fun l => (l.rc, l.pkt))
        Conns.closed).map fun e => e.2.map fun y => y.2.1.length) = some [1, 1] := by
      decide +kernel
    have hrun := fleet_product (fun _ => sampleStart_initial) hF hfair
    rw [List.map_map] at hrun
    rw [← hinputs] at hlen
    simp only [Function.comp_def] at hrun
    rw [hrun] at hlen
    simpa [Function.comp_def, Handled.shown] using hlen
  · have hmem := List.mem_map_of_mem (f := fun x : Served => x.handled.input) hx
    rw [hinputs] at hmem
    rcases List.mem_pair.mp hmem with h | h
    · rw [show x.handled.recv.rc = _ from congrArg Prod.fst h]
      exact sample_apart
    · rw [show x.handled.recv.rc = _ from congrArg Prod.fst h]
      exact sample_apart

end Miresga.System
