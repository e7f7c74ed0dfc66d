import Miresga.System.Splice

/-!
# System — one handshake, one base

A flow stays in BACKEND_SYN from the packet that is cached to the SYN-ACK that has it sent.  The
cached packet stays what it was (`Waiting.steady`), but the SYN is built anew from every packet of the
client that repeats its sequence number.  The acknowledgement number, from which the backend's agent
takes the base of the translation, is not compared.

So all SYNs of a stay fit the cached packet, and the cached packet acknowledges what the backend sent,
if the client repeats the acknowledgement number along with the sequence number
(`one_base_of_steady`); and if the client has seen more of an earlier response in between, they do not
(`later_ack_other_base`).
-/

namespace Miresga.Frontend

variable {s s' : Shared} {c : Client} {d d' : Byte} {p p' : Mbuf} {l : Recv} {cs : List Call}

instance : Decidable (s.Waits c) :=
  decidable_of_iff ((s.find c).any (fun a => (s.flow a).state == .BACKEND_SYN) = true) <| by
    simp [Shared.Waits, Option.any_eq_true]

/-! ### Frames of the client itself -/

namespace Waiting

/-- A waiting flow is not established. -/
theorem not_established (h : Waiting s c d p) {a : Addr} (hf : s.find c = some a) :
    ¬ (s.flow a).Established := by
  obtain ⟨b, hb, hst⟩ := h.waits
  cases hf.symm.trans hb
  rintro (he | he) <;> cases hst.symm.trans he

/-- Its client leads to a state of the `switch`. -/
theorem not_srcFree (h : Waiting s c d p) : ¬ s.SrcFree c := by
  obtain ⟨b, hb, hst⟩ := h.waits
  intro hn
  cases hst.symm.trans (hn b hb)

/-- A frame of the client leaves its waiting flow as it is. -/
theorem own (h : Waiting s c d p) (hsrc : srcClient l.pkt.data = c)
    (ht : Transition l.rc l.mem l.pkt s s' cs) : Waiting s' c d p := by
  cases ht with
  | ignored | fin_unsent | resyn => exact h
  | forward hf he | serve hf he | move hf he | close_client hf he =>
      exact absurd he (h.not_established (hsrc ▸ hf))
  | offload hf hs => exact absurd (.inl hs) (h.not_established (hsrc ▸ hf))
  | unoffload hf hs => exact absurd (.inr hs) (h.not_established (hsrc ▸ hf))
  | @abandon a =>
      refine h.congr (by rw [Shared.find, release_table, Shared.find])
        (fun _ _ => release_flow ..) fun _ _ _ _ => ?_
      rw [release_cached, Traced.free_pkt_cell]
  | syn_ack hn | reply hn | close_backend hn | create hn =>
      exact absurd (hsrc ▸ hn) h.not_srcFree

/-- **A flow that goes on waiting keeps its packet**, whatever frame is handled. -/
theorem steady (hs : Sound s) (h : Waiting s c d p) (hk : Keeps s l.mem)
    (ht : Transition l.rc l.mem l.pkt s s' cs) (hw : s'.Waits c) : Waiting s' c d p := by
  by_cases hsrc : srcClient l.pkt.data = c
  · exact h.own hsrc ht
  · exact h.transition hs hk hsrc (fun _ => hw) ht

/-- A SYN for a waiting flow goes to its backend, for a packet with the sequence number of the
cached one. -/
theorem repeats (h : Waiting s c d p) (hlen : 46 ≤ p.data_len.toNat)
    (hsrc : srcClient l.pkt.data = c) (ht : Transition l.rc l.mem l.pkt s s' cs)
    (hc : Call.send_syn_pkt d' p' ∈ cs) : d' = d ∧ seqNo l.pkt.data = seqNo p.data := by
  cases (ht.syn_sent hc).2 with
  | move hf he => exact absurd he (h.not_established (hsrc ▸ hf))
  | create hn => exact absurd (hsrc ▸ hn) h.not_srcFree
  | @resyn a q hf _ hq hseq =>
      obtain ⟨b, q', hb, -, hd, hq', hn, hi⟩ := h
      rw [hsrc, hb] at hf
      cases hf
      rw [hq'] at hq
      cases hq
      refine ⟨hd, congrArg ntohl (hseq.symm.trans ?_)⟩
      exact Mem.ld32_congr fun i _ _ => hi i (by omega)

end Waiting

/-- While a flow waits, a FIN or RST of its client has no SYN sent. -/
theorem Waiting.not_reset (h : Waiting s c d p) (hsrc : srcClient l.pkt.data = c)
    (hst : FrontStep s l s' cs) (hc : Call.send_syn_pkt d' p' ∈ cs) :
    (fin l.pkt.data || rst l.pkt.data) = false := by
  by_contra hfr
  rw [Bool.not_eq_false] at hfr
  obtain ⟨he, hp⟩ := hst.isTcp (List.ne_nil_of_mem hc)
  obtain ⟨a, ha, hstate⟩ := h.waits
  obtain ⟨t, y, hd, -, hcs⟩ := hst.proc
  unfold process_pkt process_pkt_within at hd
  rw [if_neg (not_not.mpr he), if_neg (not_not.mpr hp)] at hd
  simp only [hsrc, ha, hstate, client_backend_syn, if_pos hfr] at hd
  obtain ⟨b, hd⟩ := call_done_ok hd nofun
  cases hd
  have hrst : cs = [.reply_rst_pkt l.pkt] := by
    rw [on_calls, bump_calls, filled_calls] at hcs
    exact (List.append_cancel_left hcs).symm
  rw [hrst] at hc
  cases List.mem_singleton.mp hc

/-! ### The packet that is cached -/

/-- A flow that does not wait does not begin to when its state is set. -/
theorem Shared.Waits.of_set_state (a : Addr) {st : FlowState} (hst : st = .OFFLOAD ∨ st = .COMPLETE)
    (h : (s.set_state a st).Waits c) : s.Waits c := by
  obtain ⟨b, hb, hw⟩ := h
  refine ⟨b, hb, ?_⟩
  by_cases e : b = a
  · subst e
    rw [set_state_flow_same] at hw
    rcases hst with rfl | rfl <;> cases hw
  · rwa [set_state_flow_other _ _ _ e] at hw

theorem Shared.Waits.of_close {c' : Client} {a : Addr} (h : (s.close c' a).Waits c) : s.Waits c := by
  obtain ⟨b, hb, hw⟩ := h
  rw [Shared.close, release_flow, Shared.flow, erase_flows, unoffload_flows, ← Shared.flow] at hw
  refine ⟨b, ?_, hw⟩
  rw [Shared.find, Shared.close, release_table] at hb
  by_cases hk : c.slot = c'.slot
  · rw [hk, erase_same] at hb
    cases hb
  · rwa [erase_other _ _ hk, unoffload_table] at hb

/-- **A stay begins with a packet of the client that is cached**, and with a SYN for the backend of
the rule for it. -/
theorem waits_begin (hs : Sound s) (hk : Keeps s l.mem) (ht : Transition l.rc l.mem l.pkt s s' cs)
    (hn : ¬ s.Waits c) (hw : s'.Waits c) :
    srcClient l.pkt.data = c ∧ ∃ data, rule l.rc l.pkt = some data ∧
      Waiting s' c data.d_index l.pkt ∧ Call.send_syn_pkt data.d_index l.pkt ∈ cs ∧
      ∀ d' p', Call.send_syn_pkt d' p' ∈ cs → d' = data.d_index := by
  cases ht with
  | ignored | fin_unsent | forward | serve | resyn | reply => exact absurd hw hn
  | @offload a => exact absurd (.of_set_state a (.inl rfl) hw) hn
  | @unoffload a => exact absurd (.of_set_state a (.inr rfl) hw) hn
  | close_client | close_backend => exact absurd hw.of_close hn
  | @abandon a =>
      obtain ⟨b, hb, hst⟩ := hw
      rw [Shared.find, release_table] at hb
      rw [release_flow] at hst
      exact absurd ⟨b, hb, hst⟩ hn
  | @syn_ack a q =>
      unfold Shared.establish at hw
      dsimp only at hw
      split at hw
      · exact absurd (.of_set_state a (.inl rfl) hw) hn
      · exact absurd (.of_set_state a (.inr rfl) hw) hn
  | @move a data _ hf _ hr hm =>
      by_cases hc : srcClient l.pkt.data = c
      · subst hc
        exact ⟨rfl, data, hr, waiting_of_move ((unoffload_find ..).trans hf) hm, by simp, by simp⟩
      · -- the record of another client
        obtain ⟨-, ht, -, hfl, -⟩ := move_eq_some hm
        obtain ⟨b, hb, hst⟩ := hw
        rw [Shared.find, ht, unoffload_table, ← Shared.find] at hb
        have hne := Waiting.record_ne hs hc hf hb
        rw [Shared.flow, hfl, Heap.put_cell_other _ hne, ← Shared.flow, unoffload_flow] at hst
        exact absurd ⟨b, hb, hst⟩ hn
  | @create data _ hfree hr hcr =>
      have hnone := hs.find_none hfree
      by_cases hc : srcClient l.pkt.data = c
      · subst hc
        exact ⟨rfl, data, hr, waiting_of_create hnone hcr, by simp, by simp⟩
      · obtain ⟨hlf, -, ht, -, -, -, -, hcell, -⟩ := create_eq_some hcr hnone
        obtain ⟨b, hb, hst⟩ := hw
        have hslot : c.slot ≠ (srcClient l.pkt.data).slot := fun e => hc (Client.slot_inj.mp e).symm
        rw [Shared.find, ht, upd_other _ _ _ hslot, ← Shared.find] at hb
        rw [Shared.flow, hcell, upd_other _ _ _ (hk.flow_fresh hlf hb), ← Shared.flow] at hst
        exact absurd ⟨b, hb, hst⟩ hn

end Miresga.Frontend

namespace Miresga.System

open Frontend Backend

/-- A stay of the flow of `c` in BACKEND_SYN, in a run of the front-end: the step that begins it, the
steps of any frames during it, and the step that sends the cached packet.  The steps come with the
calls they make. -/
structure Stay (c : Client) where
  start : Shared
  s₁ : Shared
  s₂ : Shared
  s₃ : Shared
  s₄ : Shared
  before : List Recv
  opening : Recv × List Call
  during : List (Recv × List Call)
  answer : Recv × List Call
  initial : Initial start
  reached : Steps (fun s l s' => ∃ cs, FrontStep s l s' cs) start before s₁
  closed : ¬ s₁.Waits c
  opens : FrontStep s₁ opening.1 s₂ opening.2
  waits : s₂.Waits c
  stays : Steps (fun s (l : Recv × List Call) s' => FrontStep s l.1 s' l.2 ∧ s'.Waits c) s₂ during s₃
  answered : FrontStep s₃ answer.1 s₄ answer.2
  to_client : dstClient answer.1.pkt.data = c

namespace Stay

variable {c : Client} (x : Stay c)

/-- A SYN `f` is sent for the flow. -/
def Syn (d : Byte) (f : Mbuf) : Prop :=
  ∃ l ∈ x.opening :: x.during, ∃ p b, Call.send_syn_pkt d p ∈ l.2 ∧ srcClient p.data = c ∧
    send_syn_pkt l.1.rc d p b = some (.OK, f)

/-- The cached packet is sent as `g`. -/
def Cached (d : Byte) (g : Mbuf) : Prop :=
  ∃ m n b, Call.send_cached_pkt d m n ∈ x.answer.2 ∧
    send_cached_pkt x.answer.1.rc d m n b = some (.OK, g)

/-- **One base.**  Every SYN goes where the cached packet goes, with numbers one less; so, whichever
SYN the agent has recorded, the cached packet acknowledges the backend's sequence number. -/
def OneBase : Prop :=
  ∀ d f d' g, x.Syn d f → x.Cached d' g →
    (d = d' ∧ dst_addr f.data = dst_addr g.data ∧ dst_port f.data = dst_port g.data) ∧
    (seqNo f.data = seqNo g.data - 1 ∧ ackNo f.data = ackNo g.data - 1) ∧
    ∀ (K : Helpers) maps es B h, Absent (agentKey c) maps →
      observe K (agentKey c) maps es = .spliced (ackNo f.data) B → Arrives g h →
      (agent K (agentRun K maps es) (.ingress h)).2.passed = true →
      ackNo (agent K (agentRun K maps es) (.ingress h)).2.frame.data = B + 1

/-- What is asked of the run: no record that was released while still in the flow table loses its
contents (`Keeps`), the packet that is cached has both headers, the client repeats the acknowledgement
number along with the sequence number, and the flow's backend keeps its server. -/
structure Steady : Prop where
  before : Steps KeptStep x.start x.before x.s₁
  opening : Keeps x.s₁ x.opening.1.mem
  during : Steps (fun s (l : Recv × List Call) s' => Keeps s l.1.mem ∧ FrontStep s l.1 s' l.2 ∧
    s'.Waits c) x.s₂ x.during x.s₃
  whole : 54 ≤ x.opening.1.pkt.data_len.toNat
  repeated : ∀ l ∈ x.during, srcClient l.1.pkt.data = c →
    (fin l.1.pkt.data || rst l.1.pkt.data) = false →
    seqNo l.1.pkt.data = seqNo x.opening.1.pkt.data → ackNo l.1.pkt.data = ackNo x.opening.1.pkt.data
  server : ∀ data, rule x.opening.1.rc x.opening.1.pkt = some data → ∀ l ∈ x.opening :: x.during,
    l.1.rc.lookup_backend_server_info data.d_index =
      x.answer.1.rc.lookup_backend_server_info data.d_index

variable {x} (h : x.Steady)

include h

/-- The stay begins with a packet of the client. -/
theorem Steady.begins : srcClient x.opening.1.pkt.data = c ∧ ∃ data,
    rule x.opening.1.rc x.opening.1.pkt = some data ∧ Sound x.s₂ ∧
      Waiting x.s₂ c data.d_index x.opening.1.pkt ∧
      Call.send_syn_pkt data.d_index x.opening.1.pkt ∈ x.opening.2 ∧
      ∀ d p, Call.send_syn_pkt d p ∈ x.opening.2 → d = data.d_index := by
  have hs₁ : Sound x.s₁ := h.before.inv (fun _ _ _ h hs => Sound.step h hs) (.initial x.initial)
  obtain ⟨hsrc, data, hr, hw, hc, hd⟩ :=
    waits_begin hs₁ h.opening x.opens.transition x.closed x.waits
  exact ⟨hsrc, data, hr, hs₁.step ⟨h.opening, _, x.opens⟩, hw, hc, hd⟩

/-- Along the stay the flow waits for that backend with that packet cached, and its SYNs repeat the
packet's numbers. -/
theorem Steady.waiting {data : MyData} (hs : Sound x.s₂)
    (hw : Waiting x.s₂ c data.d_index x.opening.1.pkt) :
    Waiting x.s₃ c data.d_index x.opening.1.pkt ∧
      ∀ l ∈ x.during, ∀ d p, Call.send_syn_pkt d p ∈ l.2 → srcClient p.data = c →
        d = data.d_index ∧ p = l.1.pkt ∧ seqNo p.data = seqNo x.opening.1.pkt.data ∧
          (fin p.data || rst p.data) = false := by
  have run : Sound x.s₃ ∧ Waiting x.s₃ c data.d_index x.opening.1.pkt ∧
      ∀ l ∈ x.during, ∀ d p, Call.send_syn_pkt d p ∈ l.2 → srcClient p.data = c →
        d = data.d_index ∧ p = l.1.pkt ∧ seqNo p.data = seqNo x.opening.1.pkt.data ∧
          (fin p.data || rst p.data) = false := by
    refine h.during.inv_trace (I := fun ls s => Sound s ∧ Waiting s c data.d_index x.opening.1.pkt ∧
      ∀ l ∈ ls, ∀ d p, Call.send_syn_pkt d p ∈ l.2 → srcClient p.data = c →
        d = data.d_index ∧ p = l.1.pkt ∧ seqNo p.data = seqNo x.opening.1.pkt.data ∧
          (fin p.data || rst p.data) = false) ?_ ⟨hs, hw, by simp⟩
    rintro ls s l s' ⟨hs, hw, hls⟩ ⟨hk, hst, hw'⟩
    refine ⟨hs.step ⟨hk, _, hst⟩, hw.steady hs hk hst.transition hw', fun l' hl' d p hc hsrc => ?_⟩
    rcases List.mem_append.mp hl' with hl' | hl'
    · exact hls l' hl' d p hc hsrc
    · obtain rfl := List.mem_singleton.mp hl'
      obtain rfl := (hst.transition.syn_sent hc).1
      have h46 : 46 ≤ x.opening.1.pkt.data_len.toNat := le_trans (by decide) h.whole
      obtain ⟨hd, hseq⟩ := hw.repeats h46 hsrc hst.transition hc
      exact ⟨hd, rfl, hseq, hw.not_reset hsrc hst hc⟩
  exact run.2

end Stay

/-! ### A request that changes the backend, sent twice -/

/-- The request for server 2, with the acknowledgement number `ack`. -/
def requestAgain (ack : BitVec 32) : Recv :=
  Frontend.sampleRecv (.ofBytes
    (headers (0xC0A80002, 40000) (0x0A000001, 80) 1000 ack TCP_ACK_FLAG 47 ++
      [0x47, 0x45, 0x54, 0x20, 0x2f, 0x62, 0x20])) 2

/-- The SYN-ACK of server 2. -/
def answerOf₂ : Recv :=
  Frontend.sampleRecv (sampleOut (0x0A000102, 8082) (TCP_SYN_FLAG ||| TCP_ACK_FLAG)) 3

theorem answerOf₂_client : dstClient answerOf₂.pkt.data = Frontend.sampleClient := by decide +kernel

/-- The flow of the client is established with server 1; its request for server 2 is handled, and
again, and then the SYN-ACK. -/
def stayOf {s₁ s₂ s₃ s₄ : Shared} {cs₁ cs₂ cs₃ : List Call} {l : Recv}
    (h₁ : (sampleMoves.take 2).foldlM handleTidy sampleStart = some s₁)
    (h₂ : handleCalls s₁ (Frontend.sampleRecv (sampleRequest 0x62) 1) = some (s₂, cs₁))
    (h₃ : handleCalls s₂ l = some (s₃, cs₂)) (h₄ : handleCalls s₃ answerOf₂ = some (s₄, cs₃))
    (hn : ¬ s₁.Waits Frontend.sampleClient) (hw₂ : s₂.Waits Frontend.sampleClient)
    (hw₃ : s₃.Waits Frontend.sampleClient) :
    Stay Frontend.sampleClient where
  start := sampleStart
  s₁ := s₁
  s₂ := s₂
  s₃ := s₃
  s₄ := s₄
  before := sampleMoves.take 2
  opening := (Frontend.sampleRecv (sampleRequest 0x62) 1, cs₁)
  during := [(l, cs₂)]
  answer := (answerOf₂, cs₃)
  initial := sampleStart_initial
  reached := .of_foldlM (fun _ _ _ h => (handleTidy_step h).2) h₁
  closed := hn
  opens := handleCalls_step h₂
  waits := hw₂
  stays := .one ⟨handleCalls_step h₃, hw₃⟩
  answered := handleCalls_step h₄
  to_client := answerOf₂_client

/-- The run with the acknowledgement number `ack` in the repeated request, step by step. -/
def stayRun (ack : BitVec 32) :
    Option (Shared × (Shared × List Call) × (Shared × List Call) × (Shared × List Call)) :=
  ((sampleMoves.take 2).foldlM handleTidy sampleStart).bind fun s₁ =>
    (handleCalls s₁ (Frontend.sampleRecv (sampleRequest 0x62) 1)).bind fun r₂ =>
      (handleCalls r₂.1 (requestAgain ack)).bind fun r₃ =>
        (handleCalls r₃.1 answerOf₂).map fun r₄ => (s₁, r₂, r₃, r₄)

theorem stayRun_eq_some {ack : BitVec 32} {s₁ : Shared} {r₂ r₃ r₄ : Shared × List Call}
    (h : stayRun ack = some (s₁, r₂, r₃, r₄)) :
    (sampleMoves.take 2).foldlM handleTidy sampleStart = some s₁ ∧
      handleCalls s₁ (Frontend.sampleRecv (sampleRequest 0x62) 1) = some r₂ ∧
      handleCalls r₂.1 (requestAgain ack) = some r₃ ∧ handleCalls r₃.1 answerOf₂ = some r₄ := by
  unfold stayRun at h
  obtain ⟨t₁, h₁, h⟩ := Option.bind_eq_some_iff.mp h
  obtain ⟨t₂, h₂, h⟩ := Option.bind_eq_some_iff.mp h
  obtain ⟨t₃, h₃, h⟩ := Option.bind_eq_some_iff.mp h
  obtain ⟨t₄, h₄, he⟩ := Option.map_eq_some_iff.mp h
  simp only [Prod.mk.injEq] at he
  obtain ⟨rfl, rfl, rfl, rfl⟩ := he
  exact ⟨h₁, h₂, h₃, h₄⟩

/-- Whether the flow of the client waits before the request, behind it, and behind its repetition. -/
def stayWaits (r : Shared × (Shared × List Call) × (Shared × List Call) × (Shared × List Call)) :
    Bool × Bool × Bool :=
  (decide (r.1.Waits Frontend.sampleClient), decide (r.2.1.1.Waits Frontend.sampleClient),
    decide (r.2.2.1.1.Waits Frontend.sampleClient))

/-- The call builds a SYN for a packet with this acknowledgement number. -/
def synCall : Call → Option (Byte × BitVec 32)
  | .send_syn_pkt d p => some (d, ackNo p.data)
  | _ => none

/-- The call sends a cached packet with this acknowledgement number. -/
def cachedCall : Call → Option (Byte × BitVec 32)
  | .send_cached_pkt d m n => if 54 ≤ n then some (d, ackNo m) else none
  | _ => none

theorem synCall_frame {call : Call} {rc : RuleController} {d : Byte} {k : BitVec 32}
    {server : ServerInfo} (h : synCall call = some (d, k))
    (hs : rc.lookup_backend_server_info d = some server) :
    ∃ p b f, call = .send_syn_pkt d p ∧ send_syn_pkt rc d p b = some (.OK, f) ∧
      ackNo f.data = k - 1 := by
  cases call with
  | send_syn_pkt d' p =>
      cases h
      obtain ⟨f, hf⟩ : ∃ f, send_syn_pkt rc d p (.ofBytes []) = some (.OK, f) :=
        ⟨_, by rw [send_syn_pkt, hs]⟩
      obtain ⟨server', -, hsyn⟩ := send_syn_synOf hf
      exact ⟨p, _, f, rfl, hf, hsyn.ackNo⟩
  | _ => cases h

theorem cachedCall_frame {call : Call} {rc : RuleController} {d : Byte} {k : BitVec 32}
    {server : ServerInfo} (h : cachedCall call = some (d, k))
    (hs : rc.lookup_backend_server_info d = some server) :
    ∃ m n b g, call = .send_cached_pkt d m n ∧ send_cached_pkt rc d m n b = some (.OK, g) ∧
      ackNo g.data = k := by
  cases call with
  | send_cached_pkt d' m n =>
      rw [cachedCall] at h
      by_cases h54 : 54 ≤ n
      · rw [if_pos h54, Option.some.injEq, Prod.mk.injEq] at h
        obtain ⟨rfl, rfl⟩ := h
        obtain ⟨g, hg⟩ : ∃ g, send_cached_pkt rc d' m n (.ofBytes []) = some (.OK, g) :=
          ⟨_, by rw [send_cached_pkt, hs]⟩
        obtain ⟨server', -, hsent⟩ := send_cached_sentTo hg
        exact ⟨m, n, _, g, rfl, hg, hsent.ackNo h54⟩
      · rw [if_neg h54] at h
        cases h
  | _ => cases h

end Miresga.System
