import Miresga.Frontend.Ownership
import Miresga.Frontend.Records

/-!
# Frontend — packets of a backend

A packet whose source has no flow is attributed to a flow by its destination, the client.  Nothing on
that path looks at the source again: what the packet does to the table and the queues (`Answer`) and
which frames are built for it (`answerCalls`) depends on the flow's state and on the packet's flags.

* While the flow waits for its backend, everything but a SYN-ACK is dropped, whoever sent it: no
  late data segment, FIN or RST of a former backend changes anything.
* A SYN-ACK ends the wait, whoever sent it; in an established flow a RST or FIN closes it and
  everything else is forwarded, whoever sent it.
-/

namespace Miresga.Frontend

variable {s s' : Shared} {l : Recv} {cs : List Call} {a : Addr}

/-- The packet comes from the flow's server. -/
def FromServer (rc : RuleController) (f : FlowData) (m : Mem) : Prop :=
  ∃ server, rc.lookup_backend_server_info f.entry_data.d_index = some server ∧
    src_addr m = htonl server.ip ∧ src_port m = htons server.port

/-- The packet is attributed to the flow `a` through its destination. -/
structure Attributed (s : Shared) (m : Mem) (a : Addr) : Prop where
  tcp : isTcp m
  src : s.find (srcClient m) = none
  dst : s.find (dstClient m) = some a

/-- The shared state after a packet that is attributed to the flow `a`, by its flags. -/
def Answer (s : Shared) (m : Mem) (a : Addr) : Shared :=
  match (s.flow a).state with
  | .BACKEND_SYN =>
    if tcp_flags m = TCP_ACK_FLAG ||| TCP_SYN_FLAG then s.establish (dstClient m) a else s
  | .COMPLETE | .OFFLOAD => if rst m || fin m then s.close (dstClient m) a else s
  | .INIT => s

/-- The frames that are built for such a packet: the cached request for a SYN-ACK, a RST and the
packet made a RST for a FIN, and the packet itself in any other case. -/
def answerCalls (s : Shared) (p : Mbuf) (a : Addr) : List Call :=
  match (s.flow a).state with
  | .BACKEND_SYN =>
    if tcp_flags p.data = TCP_ACK_FLAG ||| TCP_SYN_FLAG then
      ((s.flow a).recv_pkt.map fun q => Call.send_cached_pkt (s.flow a).entry_data.d_index
        (s.cached.cell q) (s.flow a).pkt_size).toList
    else []
  | .COMPLETE | .OFFLOAD =>
    if rst p.data then [.forward_outbound_pkt p]
    else if fin p.data then [.reply_rst_pkt p, .forward_outbound_pkt (with_rst p)]
    else [.forward_outbound_pkt p]
  | .INIT => []

/-- The loop body takes an attributed packet to the lookup by destination. -/
theorem process_pkt_attributed {rc : RuleController} {mem : Alloc} {p : Mbuf} {t : Sends}
    (h : Attributed s p.data a) :
    process_pkt rc mem p ⟨s, t⟩ = from_backend none rc mem p ⟨s, t⟩ := by
  unfold process_pkt process_pkt_within
  rw [if_neg (not_not.mpr h.tcp.1), if_neg (not_not.mpr h.tcp.2)]
  simp only [h.src]

theorem from_backend_waiting {rc : RuleController} {mem : Alloc} {p : Mbuf} {t : Sends}
    (h : Attributed s p.data a) (hs : (s.flow a).state = .BACKEND_SYN) :
    from_backend none rc mem p ⟨s, t⟩ = backend_syn_ack rc p ⟨s, t⟩ a := by
  simp only [from_backend, h.dst, hs]

theorem from_backend_established {rc : RuleController} {mem : Alloc} {p : Mbuf} {t : Sends}
    (h : Attributed s p.data a) (hs : (s.flow a).Established) :
    from_backend none rc mem p ⟨s, t⟩ = backend_established rc p ⟨s, t⟩ a := by
  rcases hs with hs | hs <;> simp only [from_backend, h.dst, hs]

/-- While the flow waits, a packet that is no SYN-ACK is dropped. -/
theorem waiting_dropped {t : Sends} (h : Attributed s l.pkt.data a)
    (hs : (s.flow a).state = .BACKEND_SYN)
    (hf : tcp_flags l.pkt.data ≠ TCP_ACK_FLAG ||| TCP_SYN_FLAG) :
    process_pkt l.rc l.mem l.pkt ⟨s, t⟩ = .next ⟨s, t⟩ := by
  rw [process_pkt_attributed h, from_backend_waiting h hs, backend_syn_ack, if_pos hf]

/-- A SYN-ACK that is handled ends the wait and sends the cached packet. -/
theorem waiting_answered (h : Attributed s l.pkt.data a) (hs : (s.flow a).state = .BACKEND_SYN)
    (hf : tcp_flags l.pkt.data = TCP_ACK_FLAG ||| TCP_SYN_FLAG) (hst : FrontStep s l s' cs) :
    s' = s.establish (dstClient l.pkt.data) a ∧
      ∃ q, (s.flow a).recv_pkt = some q ∧
        cs = [.send_cached_pkt (s.flow a).entry_data.d_index (s.cached.cell q)
          (s.flow a).pkt_size] := by
  obtain ⟨t, p, hd, rfl, hc⟩ := hst.proc
  rw [process_pkt_attributed h, from_backend_waiting h hs, backend_syn_ack,
    if_neg (not_not.mpr hf)] at hd
  dsimp only at hd
  split at hd
  · cases hd
  next q hq =>
    obtain ⟨b, hd⟩ := call_done_ok hd nofun
    cases hd
    rw [bump_calls, filled_calls, on_shared, establish_cached] at hc
    exact ⟨rfl, q, hq, (List.append_cancel_left hc).symm⟩

/-- A packet to a client with an established flow is forwarded; a RST closes it, and so does a FIN,
which is answered and forwarded as a RST. -/
theorem established_answered (h : Attributed s l.pkt.data a) (he : (s.flow a).Established)
    (hst : FrontStep s l s' cs) :
    s' = Answer s l.pkt.data a ∧ cs = answerCalls s l.pkt a ∧ cs ≠ [] := by
  have hshared : Answer s l.pkt.data a =
      if rst l.pkt.data || fin l.pkt.data then s.close (dstClient l.pkt.data) a else s := by
    rcases he with he | he <;> simp only [Answer, he]
  have hcalls : answerCalls s l.pkt a =
      if rst l.pkt.data then [.forward_outbound_pkt l.pkt]
      else if fin l.pkt.data then [.reply_rst_pkt l.pkt, .forward_outbound_pkt (with_rst l.pkt)]
      else [.forward_outbound_pkt l.pkt] := by
    rcases he with he | he <;> simp only [answerCalls, he]
  obtain ⟨t, p, hd, rfl, hc⟩ := hst.proc
  rw [process_pkt_attributed h, from_backend_established h he, backend_established] at hd
  rw [hshared, hcalls]
  split_ifs at hd with hr hfin
  · obtain ⟨b, hd⟩ := call_done_ok hd nofun
    cases hd
    rw [on_calls, bump_calls, filled_calls] at hc
    obtain rfl : _ = cs := List.append_cancel_left hc
    simp [hr]
  · obtain ⟨b, hd⟩ := call_done_ok hd nofun
    obtain ⟨b', hd⟩ := call_done_ok hd nofun
    cases hd
    simp only [on_calls, bump_calls, filled_calls, List.append_assoc] at hc
    obtain rfl : _ = cs := List.append_cancel_left hc
    simp [hr, hfin]
  · obtain ⟨b, hd⟩ := call_done_ok hd nofun
    cases hd
    rw [bump_calls, filled_calls] at hc
    obtain rfl : _ = cs := List.append_cancel_left hc
    simp [hr, hfin]

/-! ### Records in the table are not in state INIT -/

/-- No record of the table is in its initial state. -/
def Inited (s : Shared) : Prop := ∀ k a, s.flow_hash_map k = some a → (s.flow a).state ≠ .INIT

namespace Inited

theorem lasting : Lasting (·.state ≠ .INIT) := by
  rintro f st (rfl | rfl) - <;> exact nofun

theorem run {s₀ : Shared} {ls : List Recv} (h₀ : Initial s₀)
    (hr : Steps (fun s l s' => ∃ cs, FrontStep s l s' cs) s₀ ls s) : Inited s := by
  refine hr.inv (I := Records (·.state ≠ .INIT)) (fun s l s' h hs => ?_) (.initial h₀)
  obtain ⟨cs, hs⟩ := hs
  exact h.transition lasting (fun _ _ => nofun) hs.transition

end Inited

/-- **Packets of a backend.**  In every run, a packet attributed to a flow through its destination
leaves the state and builds the frames that the flow's state and its flags call for, whatever its
source; and it leaves everything alone and builds no frame exactly if the flow waits for its backend
and the packet is no SYN-ACK. -/
theorem backend_answer {s₀ : Shared} {ls : List Recv} (h₀ : Initial s₀)
    (hr : Steps (fun s l s' => ∃ cs, FrontStep s l s' cs) s₀ ls s)
    (ha : Attributed s l.pkt.data a) (hs : FrontStep s l s' cs) :
    s' = Answer s l.pkt.data a ∧ cs = answerCalls s l.pkt a ∧
    (s' = s ∧ cs = [] ↔
      (s.flow a).state = .BACKEND_SYN ∧
        tcp_flags l.pkt.data ≠ TCP_ACK_FLAG ||| TCP_SYN_FLAG) := by
  have hinit : Inited s := .run h₀ hr
  have est (he : (s.flow a).Established) : s' = Answer s l.pkt.data a ∧
      cs = answerCalls s l.pkt a ∧ (s' = s ∧ cs = [] ↔ (s.flow a).state = .BACKEND_SYN ∧
        tcp_flags l.pkt.data ≠ TCP_ACK_FLAG ||| TCP_SYN_FLAG) := by
    obtain ⟨h₁, h₂, h₃⟩ := established_answered ha he hs
    refine ⟨h₁, h₂, fun h => absurd h.2 h₃, fun h => ?_⟩
    rcases he with hst | hst <;> cases hst.symm.trans h.1
  cases hst : (s.flow a).state with
  | INIT => exact absurd hst (hinit _ a ha.dst)
  | COMPLETE => exact hst ▸ est (.inl hst)
  | OFFLOAD => exact hst ▸ est (.inr hst)
  | BACKEND_SYN =>
      by_cases hf : tcp_flags l.pkt.data = TCP_ACK_FLAG ||| TCP_SYN_FLAG
      · obtain ⟨h₁, q, hq, h₂⟩ := waiting_answered ha hst hf hs
        refine ⟨?_, ?_, fun h => ?_, fun h => absurd hf h.2⟩
        · simp only [Answer, hst, hf, if_true, h₁]
        · simp only [answerCalls, hst, hf, if_true, hq, h₂, Option.map_some, Option.toList_some]
        · cases h₂.symm.trans h.2
      · obtain ⟨t, t', hd, hc⟩ := hs
        rw [waiting_dropped ha hst hf] at hd
        cases hd
        have hcs : cs = [] := by simpa using hc
        refine ⟨?_, ?_, fun _ => ⟨rfl, hf⟩, fun _ => ⟨rfl, hcs⟩⟩
        · simp only [Answer, hst, hf, if_false]
        · simp only [answerCalls, hst, hf, if_false, hcs]

/-- A late RST of server 1, after the flow has moved to server 2. -/
def sampleLateRst : Mbuf := sampleOut (0x0A000101, 8081) TCP_RST_FLAG

/-- The former backend's RST finds the flow waiting for the new one, and is dropped. -/
theorem backend_answer_sample :
    ∃ s s' cs, Steps (fun s l s' => ∃ cs, FrontStep s l s' cs) sampleStart sampleMoves s ∧
      Attributed s sampleLateRst.data 0 ∧
      FrontStep s (sampleRecv sampleLateRst 2) s' cs ∧ s' = s ∧ cs = [] := by
  have hr : ((sampleMoves.foldlM handle sampleStart).bind fun s =>
      (handleCalls s (sampleRecv sampleLateRst 2)).map fun _ =>
        (s.find (srcClient sampleLateRst.data), s.find (dstClient sampleLateRst.data),
          (s.flow 0).state)) = some (none, some 0, .BACKEND_SYN) := by decide +kernel
  obtain ⟨s, hs, hr⟩ := Option.bind_eq_some_iff.mp hr
  obtain ⟨⟨s', cs⟩, hc, he⟩ := Option.map_eq_some_iff.mp hr
  simp only [Prod.mk.injEq] at he
  have hk := Steps.of_foldlM (R := fun s l s' => ∃ cs, FrontStep s l s' cs)
    (fun _ _ _ => handle_step) hs
  have ha : Attributed s (sampleRecv sampleLateRst 2).pkt.data 0 := ⟨by decide, he.1, he.2.1⟩
  have hf := handleCalls_step hc
  exact ⟨s, s', cs, hk, ha, hf,
    ((backend_answer sampleStart_initial hk ha hf).2.2.mpr ⟨he.2.2, by decide⟩)⟩

/-- The former backend's SYN-ACK, sent again after the flow has moved to server 2, ends the wait for
server 2 and has the cached request sent there. -/
theorem late_synAck_answered :
    ∃ s s' cs, Steps (fun s l s' => ∃ cs, FrontStep s l s' cs) sampleStart sampleMoves s ∧
      Attributed s sampleSynAck.data 0 ∧
      ¬ FromServer sampleRules (s.flow 0) sampleSynAck.data ∧
      FrontStep s (sampleRecv sampleSynAck 2) s' cs ∧
      (s.flow 0).state = .BACKEND_SYN ∧ (s'.flow 0).state = .COMPLETE ∧ cs ≠ [] := by
  have hr : ((sampleMoves.foldlM handle sampleStart).bind fun s =>
      (handleCalls s (sampleRecv sampleSynAck 2)).map fun r =>
        (s.find (srcClient sampleSynAck.data), s.find sampleClient, (s.flow 0).state,
          (s.flow 0).entry_data)) = some (none, some 0, .BACKEND_SYN, ⟨0, 2⟩) := by
    decide +kernel
  obtain ⟨s, hs, hr⟩ := Option.bind_eq_some_iff.mp hr
  obtain ⟨⟨s', cs⟩, hc, he⟩ := Option.map_eq_some_iff.mp hr
  simp only [Prod.mk.injEq] at he
  obtain ⟨hn, hf, hst, hd⟩ := he
  have hk := Steps.of_foldlM (R := fun s l s' => ∃ cs, FrontStep s l s' cs)
    (fun _ _ _ => handle_step) hs
  have ha : Attributed s sampleSynAck.data 0 := ⟨by decide, hn, hf⟩
  have hstep := handleCalls_step hc
  obtain ⟨rfl, q, -, rfl⟩ := waiting_answered ha hst (by decide) hstep
  refine ⟨s, _, _, hk, ha, ?_, hstep, hst, ?_, nofun⟩
  · rintro ⟨server, hs, h, -⟩
    rw [hd] at hs
    cases hs
    exact absurd h (by decide)
  · simp [Shared.establish, hd]

end Miresga.Frontend
