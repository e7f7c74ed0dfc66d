import Miresga.Backend.Translation
import Miresga.Frontend.Waiting
import Miresga.Switch.Pipeline

/-!
# System — splicing a backend connection to a client's

The client's connection ends at the switch, which answers its SYN, and the backend's connection is
opened by the front-end, with a SYN of its own.  Four programs move sequence and acknowledgement
numbers so that the two become one connection: `syn_reply` of the switch, `send_syn_pkt` and
`send_cached_pkt` of the front-end, `ingress_xdp_prog` and `egress_tc_prog` of the agent.

An `Exchange` is what happens when a request opens a backend connection, at the front-end and at the
agent, with frames of other clients in between.  `Exchange.Spliced` says that the numbers fit
together: the stack sees the client's numbers, the client sees the stack's bytes where it expects
them.  It holds of every exchange in which no record that was released while still in the flow table
loses its contents (`spliced_of_kept`).
-/

namespace Miresga.System

open Frontend Backend

/-- The frame that reaches a server is the one that was built: the switch and the network cards
change MAC addresses and checksums, and may add padding. -/
structure Arrives (b : Mbuf) (f : Frame) : Prop where
  header : SameHeader f.data b.data
  length : b.data_len.toNat ≤ f.data_end

/-- The agent's key for a client. -/
def agentKey (c : Client) : Key := ⟨c.addr, c.port⟩

/-- A request opens a connection to backend `d`, and the backend answers.  The front-end has run
from `start` to `s₁`, handles the request (to `s₂`), frames of other clients (to `s₃`), and the
SYN-ACK (to `s₄`); the agent handles the SYN, frames of other clients, and the SYN-ACK. -/
structure Exchange (K : Helpers) where
  start : Shared
  s₁ : Shared
  s₂ : Shared
  s₃ : Shared
  s₄ : Shared
  before : List Recv
  request : Recv
  between : List Recv
  synAck : Recv
  d : Byte
  synPkt : Mbuf
  cs : List Call
  maps : Maps
  synFrame : Frame
  es : List Backend.Event
  answer : Frame
  initial : Initial start
  reached : Steps (fun s l s' => ∃ cs, FrontStep s l s' cs) start before s₁
  whole : 54 ≤ request.pkt.data_len.toNat
  opens : Opens s₁ request s₂ d synPkt
  others : Steps (OtherStep (srcClient request.pkt.data)) s₂ between s₃
  handled : FrontStep s₃ synAck s₄ cs
  arrives : Arrives synPkt synFrame
  absent : Absent (agentKey (srcClient request.pkt.data)) maps
  es_others : ∀ e ∈ es, ¬ e.Of (agentKey (srcClient request.pkt.data))
  answer_out : Outbound (agentKey (srcClient request.pkt.data)) answer
  answer_flags : syn answer.data = true ∧ ack answer.data = true
  returns : SameHeader synAck.pkt.data
    (agent K (agentRun K maps (.ingress synFrame :: es)) (.egress answer)).2.frame.data

namespace Exchange

variable {K : Helpers} (x : Exchange K)

/-- The client. -/
def client : Client := srcClient x.request.pkt.data

/-- The client's sequence number. -/
def S : BitVec 32 := seqNo x.request.pkt.data

/-- The client's acknowledgement number. -/
def A : BitVec 32 := ackNo x.request.pkt.data

/-- The backend's initial sequence number. -/
def B : BitVec 32 := seqNo x.answer.data

/-- The agent's maps when the SYN-ACK has left and the frames `es'` after it. -/
def mapsAfter (es' : List Backend.Event) : Maps :=
  agentRun K x.maps (.ingress x.synFrame :: x.es ++ .egress x.answer :: es')

/-- **The two connections are spliced.** -/
structure Spliced : Prop where
  /-- The stack sees a SYN one below the request. -/
  syn : (agent K x.maps (.ingress x.synFrame)).2.passed = true ∧
    seqNo (agent K x.maps (.ingress x.synFrame)).2.frame.data = x.S - 1
  /-- The SYN-ACK has the cached request sent to the backend. -/
  sent : tcp_flags x.synAck.pkt.data = TCP_ACK_FLAG ||| TCP_SYN_FLAG →
    x.s₃.find (srcClient x.synAck.pkt.data) = none → ∃ req n, x.cs = [.send_cached_pkt x.d req n]
  /-- The cached request, if it passes, completes the handshake. -/
  cached : ∀ d' req n b f g es', Call.send_cached_pkt d' req n ∈ x.cs →
    send_cached_pkt x.synAck.rc d' req n b = some (.OK, f) → Arrives f g →
    (∀ e ∈ es', ¬ e.Resets (agentKey x.client)) →
    (agent K (x.mapsAfter es') (.ingress g)).2.passed = true →
    d' = x.d ∧ seqNo (agent K (x.mapsAfter es') (.ingress g)).2.frame.data = x.S ∧
      ackNo (agent K (x.mapsAfter es') (.ingress g)).2.frame.data = x.B + 1
  /-- Byte `j` of the response, at offset `i` of a segment, is byte `j` for the client. -/
  response : ∀ g es' i j, (∀ e ∈ es', ¬ e.Resets (agentKey x.client)) →
    Outbound (agentKey x.client) g → seqNo g.data + i = x.B + 1 + j →
    (agent K (x.mapsAfter es') (.egress g)).2.passed = true ∧
      seqNo (agent K (x.mapsAfter es') (.egress g)).2.frame.data + i = x.A + j
  /-- For a first request, the response goes on from the SYN-ACK that the switch sent. -/
  first : ∀ (X : Switch.Externs) (T : Switch.Tables) (e : Switch.Egress) ipv4 tcp reply,
    e.hdr.ipv4 = some ipv4 → e.hdr.tcp = some tcp → e.bridged.syn_respond = 1 →
    (Switch.SwitchEgress X T e).hdr.tcp = some reply → x.A = reply.seq_no + 1 →
    reply.seq_no = X.crc32 ipv4.src_addr tcp.src_port ∧
    ∀ g es' i j, (∀ e ∈ es', ¬ e.Resets (agentKey x.client)) → Outbound (agentKey x.client) g →
      seqNo g.data + i = x.B + 1 + j →
      seqNo (agent K (x.mapsAfter es') (.egress g)).2.frame.data + i = reply.seq_no + 1 + j

/-- No record that was released while still in the flow table loses its contents (`Keeps`), from the
start until the SYN-ACK comes. -/
structure Kept : Prop where
  before : Steps KeptStep x.start x.before x.s₁
  request : Keeps x.s₁ x.request.mem
  between : Steps (fun s l s' => Keeps s l.mem ∧ OtherStep x.client s l s') x.s₂ x.between x.s₃

/-- So it is when no client gives up a flow that waits for its backend. -/
theorem kept_of_tidy (h₁ : Steps TidyStep x.start x.before x.s₁)
    (h₂ : abandons x.s₁ x.request.pkt = false)
    (h₃ : Steps (fun s l s' => abandons s l.pkt = false ∧ OtherStep x.client s l s') x.s₂ x.between
      x.s₃) : x.Kept := by
  obtain ⟨ht, hb⟩ := Tidy.kept_run x.initial h₁
  obtain ⟨cs, hst, -⟩ := x.opens.step
  have ht₂ : Tidy x.s₂ := ht.step ⟨h₂, cs, hst⟩
  refine ⟨hb, ht.keeps _, ?_⟩
  have run : ∀ {ls s}, Steps (fun s l s' => abandons s l.pkt = false ∧ OtherStep x.client s l s')
      x.s₂ ls s → Tidy s ∧
        Steps (fun s l s' => Keeps s l.mem ∧ OtherStep x.client s l s') x.s₂ ls s := by
    intro ls s h
    induction h with
    | refl => exact ⟨ht₂, .refl⟩
    | more _ h ih => exact ⟨ih.1.step ⟨h.1, h.2.2.2⟩, ih.2.more ⟨ih.1.keeps _, h.2⟩⟩
  exact (run h₃).2

/-! ### The SYN -/

theorem isTcp : isTcp x.request.pkt.data := by
  obtain ⟨cs, hs, hc⟩ := x.opens.step
  exact hs.isTcp (List.ne_nil_of_mem hc)

/-- The SYN as it reaches the agent. -/
theorem syn_arrives :
    Inbound (agentKey x.client) x.synFrame ∧ syn x.synFrame.data = true ∧
      seqNo x.synFrame.data = x.S - 1 ∧ ackNo x.synFrame.data = x.A - 1 := by
  obtain ⟨b, hb⟩ := x.opens.built
  obtain ⟨server, -, hs⟩ := send_syn_synOf hb
  have hh := x.arrives.header
  have hlen : 54 ≤ x.synFrame.data_end := by
    have := x.arrives.length
    rw [send_syn_len hb] at this
    exact le_trans (by decide) this
  refine ⟨⟨⟨hh.isTcp.mpr (hs.isTcp.mpr x.isTcp), hlen⟩, ?_⟩, ?_, ?_, ?_⟩
  · rw [ingressKey, hh.src_addr, hh.src_port, hs.src_addr, hs.src_port]
    rfl
  · rw [syn, hh.tcp_flags, hs.tcp_flags]
    decide
  · rw [hh.seqNo, hs.seqNo]
    rfl
  · rw [hh.ackNo, hs.ackNo]
    rfl

theorem syn_passes : (agent K x.maps (.ingress x.synFrame)).2.passed = true ∧
    seqNo (agent K x.maps (.ingress x.synFrame)).2.frame.data = x.S - 1 := by
  obtain ⟨⟨hseg, hk⟩, hsyn, hseq, -⟩ := x.syn_arrives
  have hnone : x.maps.flow_map (ingressKey x.synFrame.data) = none := hk ▸ x.absent.2
  obtain ⟨hpass, -, -, hexc, -⟩ := ingress_new K hseg hnone hsyn
  refine ⟨by simp only [agent, hpass, beq_self_eq_true], ?_⟩
  exact (hexc.seqNo).trans hseq

/-- When the SYN-ACK comes, the agent has recorded the SYN. -/
theorem tracks_syn :
    Tracks (agentKey x.client) (agentRun K x.maps (.ingress x.synFrame :: x.es)) (.syn (x.A - 1)) := by
  obtain ⟨hin, hsyn, -, hack⟩ := x.syn_arrives
  have habs : Absent (agentKey x.client) x.maps := x.absent
  have ht := tracks_next_inbound K (p := .idle) habs hin
  have hp : Phase.idle.next (agentKey x.client) (.ingress x.synFrame)
      (agent K x.maps (.ingress x.synFrame)).2 = .syn (x.A - 1) := by
    simp only [Phase.next, hin, hsyn, x.syn_passes.1, and_self, if_true, hack]
  rw [hp] at ht
  exact tracks_others K ht x.es_others

/-! ### The SYN-ACK -/

/-- After the SYN-ACK, until an RST leaves, the offset is the backend's number less the SYN's. -/
theorem tracks_answer {es' : List Backend.Event} (h : ∀ e ∈ es', ¬ e.Resets (agentKey x.client)) :
    Tracks (agentKey x.client) (x.mapsAfter es') (.spliced (x.A - 1) x.B) := by
  have ht := tracks_next_outbound K x.tracks_syn x.answer_out
  have hpass := (tracks_synAck K x.tracks_syn x.answer_out x.answer_flags.1 x.answer_flags.2).1
  have hp : (Phase.syn (x.A - 1)).next (agentKey x.client) (.egress x.answer)
      (agent K (agentRun K x.maps (.ingress x.synFrame :: x.es)) (.egress x.answer)).2 =
      .spliced (x.A - 1) x.B := by
    have hout : Outbound (agentKey x.client) x.answer := x.answer_out
    simp only [Phase.next, hout, hpass, x.answer_flags, and_self, if_true]
    rfl
  have hr := tracks_unreset K (hp ▸ ht) h
  rw [mapsAfter, agentRun, List.foldl_append]
  exact hr

/-- The SYN-ACK reaches the front-end as a packet to the client. -/
theorem synAck_client : dstClient x.synAck.pkt.data = x.client := by
  obtain ⟨hseg, hk⟩ := x.answer_out
  obtain ⟨-, -, hb, -⟩ := egress_new K hseg (hk ▸ x.tracks_syn.2) x.answer_flags.1
    x.answer_flags.2 (hk ▸ x.tracks_syn.1)
  have hd : dst_addr x.synAck.pkt.data = dst_addr x.answer.data :=
    x.returns.dst_addr.trans (Mem.ld32_congr fun i _ _ => hb i (by omega) (by omega))
  have hp : dst_port x.synAck.pkt.data = dst_port x.answer.data :=
    x.returns.dst_port.trans (Mem.ld16_congr fun i _ _ => hb i (by omega) (by omega))
  obtain ⟨h₁, h₂⟩ := Key.mk.inj hk
  rw [dstClient, hd, hp, h₁, h₂]
  rfl

/-- The SYN-ACK is a TCP segment for the front-end, too. -/
theorem synAck_isTcp : Miresga.isTcp x.synAck.pkt.data := by
  obtain ⟨hseg, hk⟩ := x.answer_out
  obtain ⟨-, -, hb, -⟩ := egress_new K hseg (hk ▸ x.tracks_syn.2) x.answer_flags.1
    x.answer_flags.2 (hk ▸ x.tracks_syn.1)
  refine x.returns.isTcp.mpr ⟨?_, ?_⟩
  · exact (Mem.ld16_congr fun i _ _ => hb i (by omega) (by omega)).trans hseg.1.1
  · exact (hb 23 (by omega) (by omega)).trans hseg.1.2

/-! ### The cached request -/

/-- When the SYN-ACK comes, the flow waits with the request cached. -/
theorem waiting (h : x.Kept) : Waiting x.s₃ x.client x.d x.request.pkt := by
  have hs₁ : Sound x.s₁ := h.before.inv (fun _ _ _ h hs => Sound.step h hs) (.initial x.initial)
  obtain ⟨cs, hst, -⟩ := x.opens.step
  have hs₂ : Sound x.s₂ := hs₁.step ⟨h.request, cs, hst⟩
  exact (Waiting.run hs₂ (waiting_of_opens x.opens) h.between).2

/-- The cached request as it reaches the agent. -/
theorem cached_arrives (h : x.Kept) {d' : Byte} {req : Mem} {n : Nat} {b f : Mbuf} {g : Frame}
    (hc : Call.send_cached_pkt d' req n ∈ x.cs)
    (hb : send_cached_pkt x.synAck.rc d' req n b = some (.OK, f)) (ha : Arrives f g) :
    d' = x.d ∧ Miresga.isTcp g.data ∧ ingressKey g.data = agentKey x.client ∧ seqNo g.data = x.S ∧
      ackNo g.data = x.A := by
  obtain ⟨rfl, hn, hi⟩ := (x.waiting h).cached x.handled x.synAck_client hc
  obtain ⟨server, -, hs⟩ := send_cached_sentTo hb
  have h54 : 54 ≤ n := hn ▸ x.whole
  -- the frame is the request, byte for byte
  have hs : SentTo server x.request.pkt.data n f :=
    ⟨fun i hlt h₁ h₂ h₃ => (hs.rest i hlt h₁ h₂ h₃).trans (hi i hlt), hs.dst_addr, hs.dst_port⟩
  have hh := ha.header
  refine ⟨rfl, hh.isTcp.mpr ((hs.isTcp h54).mpr x.isTcp), ?_, ?_, ?_⟩
  · rw [ingressKey, hh.src_addr, hh.src_port, hs.src_addr h54, hs.src_port h54]
    rfl
  · rw [hh.seqNo, hs.seqNo h54]
    rfl
  · rw [hh.ackNo, hs.ackNo h54]
    rfl

end Exchange

/-- **Splicing.**  In every exchange, with frames of other clients in between in any order, the
numbers of the two connections fit together, as long as no block of a record that was released while
still in the flow table is handed out again. -/
theorem spliced_of_kept {K : Helpers} (x : Exchange K) (h : x.Kept) : x.Spliced := by
  have response : ∀ g es' i j, (∀ e ∈ es', ¬ e.Resets (agentKey x.client)) →
      Outbound (agentKey x.client) g → seqNo g.data + i = x.B + 1 + j →
      (agent K (x.mapsAfter es') (.egress g)).2.passed = true ∧
        seqNo (agent K (x.mapsAfter es') (.egress g)).2.frame.data + i = x.A + j := by
    intro g es' i j hes hg hj
    obtain ⟨hpass, hseq⟩ := (tracks_spliced K (x.tracks_answer hes)).1 g hg
    refine ⟨hpass, ?_⟩
    calc seqNo (agent K (x.mapsAfter es') (.egress g)).2.frame.data + i
        = (seqNo g.data + i) - x.B + (x.A - 1) := by rw [hseq]; ring
      _ = x.A + j := by rw [hj]; ring
  refine ⟨x.syn_passes, fun hf hsrc => ?_, ?_, response, ?_⟩
  · exact (x.waiting h).answered x.handled x.synAck_isTcp hsrc x.synAck_client hf
  · intro d' req n b f g es' hc hb ha hes hpass
    obtain ⟨hd, htcp, hk, hseq, hack⟩ := x.cached_arrives h hc hb ha
    have hact : (ingress_xdp_prog K (x.mapsAfter es') g).action = .XDP_PASS := by
      simpa [agent] using hpass
    have hseg := ingress_passed K htcp hact
    have ht := x.tracks_answer hes
    obtain ⟨-, hknown⟩ := ingress_known K hseg (hk ▸ ht)
    refine ⟨hd, (hknown hact).2.2.seqNo.trans hseq, ?_⟩
    calc ackNo (agent K (x.mapsAfter es') (.ingress g)).2.frame.data
        = ackNo g.data + x.B - (x.A - 1) := (tracks_spliced K ht).2 g ⟨hseg, hk⟩ hpass
      _ = x.B + 1 := by rw [hack]; ring
  · intro X T e ipv4 tcp reply h4 ht hsyn hreply hA
    refine ⟨?_, fun g es' i j hes hg hj => ?_⟩
    · rw [Switch.SwitchEgress, h4, ht] at hreply
      dsimp only at hreply
      rw [if_pos hsyn] at hreply
      exact (congrArg Switch.Tcp.seq_no (Option.some.inj hreply)).symm
    · rw [(response g es' i j hes hg hj).2, hA]

/-! ### Exchanges -/

/-- The request for `/a` of a client. -/
def requestOf (client : BitVec 32 × BitVec 16) (seq ack : BitVec 32) : Mbuf :=
  .ofBytes (headers client (0x0A000001, 80) seq ack TCP_ACK_FLAG 47 ++
    [0x47, 0x45, 0x54, 0x20, 0x2f, 0x61, 0x20])

/-- The SYN-ACK of server 1 to the client. -/
def synAckTo (client : BitVec 32 × BitVec 16) : List Byte :=
  headers (0x0A000101, 8081) client 70000 1000 (TCP_SYN_FLAG ||| TCP_ACK_FLAG) 40

/-- An executable `OtherStep`. -/
def handleOther (c : Client) (s : Shared) (l : Recv) : Option Shared :=
  if srcClient l.pkt.data = c ∨ dstClient l.pkt.data = c then none else handle s l

theorem handleOther_step {c : Client} {s s' : Shared} {l : Recv} (h : handleOther c s l = some s') :
    OtherStep c s l s' := by
  unfold handleOther at h
  split_ifs at h with hc
  rw [not_or] at hc
  exact ⟨hc.1, hc.2, handle_step h⟩

/-- A packet of a client without a flow that has a frame built opens a connection. -/
theorem opens_new (data : MyData) {s s' : Shared} {l : Recv} {cs : List Call} {f : Mbuf}
    (hst : FrontStep s l s' cs) (hsrc : s.find (srcClient l.pkt.data) = none)
    (hdst : s.find (dstClient l.pkt.data) = none) (hcs : cs ≠ [])
    (hr : rule l.rc l.pkt = some data)
    (hb : send_syn_pkt l.rc data.d_index l.pkt (.ofBytes []) = some (.OK, f)) :
    Opens s l s' data.d_index f := by
  refine ⟨fun a ha => (nomatch hsrc.symm.trans ha), ⟨cs, hst, ?_⟩, ⟨_, hb⟩⟩
  cases hst.transition with
  | ignored => exact absurd rfl hcs
  | fin_unsent hf | forward hf | serve hf | offload hf | unoffload hf | move hf | close_client hf
  | abandon _ hf | resyn hf => cases hsrc.symm.trans hf
  | syn_ack _ hf | reply _ hf | close_backend _ hf => cases hdst.symm.trans hf
  | create _ hr' =>
      cases hr.symm.trans hr'
      exact List.mem_singleton.mpr rfl

/-- The client whose request is followed. -/
def splicedClient : BitVec 32 × BitVec 16 := (0xC0A80003, 40001)

def splicedRequest : Mbuf := requestOf splicedClient 1000 5000

/-- The SYN for the request. -/
def splicedSyn : Mbuf :=
  match send_syn_pkt sampleRules 1 splicedRequest (.ofBytes []) with
  | some (_, f) => f
  | none => .ofBytes []

theorem splicedSyn_built :
    send_syn_pkt sampleRules 1 splicedRequest (.ofBytes []) = some (.OK, splicedSyn) := rfl

/-- The exchange for the request, after the packets `before`, with `between` in between. -/
def splicedExchange {before between : List Recv} {s₁ s₂ s₃ s₄ : Shared} {cs₁ cs : List Call}
    (h₁ : before.foldlM handle sampleStart = some s₁)
    (h₂ : handleCalls s₁ (Frontend.sampleRecv splicedRequest 0) = some (s₂, cs₁))
    (h₃ : between.foldlM (handleOther (srcClient splicedRequest.data)) s₂ = some s₃)
    (h₄ : handleCalls s₃ (Frontend.sampleRecv (.ofBytes (synAckTo splicedClient)) 3) = some (s₄, cs))
    (hsrc : s₁.find (srcClient splicedRequest.data) = none)
    (hdst : s₁.find (dstClient splicedRequest.data) = none) (hcs : cs₁ ≠ []) :
    Exchange .kernel where
  start := sampleStart
  s₁ := s₁
  s₂ := s₂
  s₃ := s₃
  s₄ := s₄
  before := before
  request := Frontend.sampleRecv splicedRequest 0
  between := between
  synAck := Frontend.sampleRecv (.ofBytes (synAckTo splicedClient)) 3
  d := 1
  synPkt := splicedSyn
  cs := cs
  maps := .empty
  synFrame := ⟨splicedSyn.data, 66⟩
  es := []
  answer := .ofBytes (synAckTo splicedClient)
  initial := sampleStart_initial
  reached := .of_foldlM (fun _ _ _ => handle_step) h₁
  whole := by decide +kernel
  opens := opens_new ⟨1, 1⟩ (handleCalls_step h₂) hsrc hdst hcs (by decide +kernel)
    splicedSyn_built
  others := .of_foldlM (fun _ _ _ => handleOther_step) h₃
  handled := handleCalls_step h₄
  arrives := ⟨fun _ _ _ _ _ _ _ => rfl, by decide +kernel⟩
  absent := ⟨rfl, rfl⟩
  es_others := nofun
  answer_out := by decide +kernel
  answer_flags := by decide +kernel
  returns := by
    have h : ∀ i, i < 54 → (i = 50 ∨ i = 51 ∨
        (Mbuf.ofBytes (synAckTo splicedClient)).data i =
        (agent .kernel (agentRun .kernel .empty [.ingress ⟨splicedSyn.data, 66⟩])
          (.egress (.ofBytes (synAckTo splicedClient)))).2.frame.data i) := by decide +kernel
    intro i _ hi _ _ h50 h51
    exact ((h i hi).resolve_left h50).resolve_left h51

/-- The other client's request is handled in between. -/
theorem spliced_of_kept_sample :
    ∃ x : Exchange .kernel, x.between.length = 1 ∧ x.Kept ∧ x.Spliced := by
  have hr : ((handleCalls sampleStart (Frontend.sampleRecv splicedRequest 0)).bind fun r =>
      ([Frontend.sampleRecv (sampleRequest 0x62) 1].foldlM (handleOther (srcClient splicedRequest.data))
        r.1).bind fun s₃ =>
      (handleCalls s₃ (Frontend.sampleRecv (.ofBytes (synAckTo splicedClient)) 3)).map fun _ =>
        (r.2.length, abandons r.1 (sampleRequest 0x62))) = some (1, false) := by decide +kernel
  obtain ⟨⟨s₂, cs₁⟩, h₂, hr⟩ := Option.bind_eq_some_iff.mp hr
  obtain ⟨s₃, h₃, hr⟩ := Option.bind_eq_some_iff.mp hr
  obtain ⟨⟨s₄, cs⟩, h₄, he⟩ := Option.map_eq_some_iff.mp hr
  rw [Prod.mk.injEq] at he
  have hcs : cs₁ ≠ [] := List.ne_nil_of_length_pos (by rw [he.1]; decide)
  have h₀ : ([] : List Recv).foldlM handle sampleStart = some sampleStart := rfl
  let x := splicedExchange h₀ h₂ h₃ h₄ rfl rfl hcs
  have hk : x.Kept := by
    have h₃ : handleOther (srcClient splicedRequest.data) s₂
        (Frontend.sampleRecv (sampleRequest 0x62) 1) = some s₃ := by simpa using h₃
    exact x.kept_of_tidy .refl rfl (.one ⟨he.2, handleOther_step h₃⟩)
  exact ⟨x, rfl, hk, spliced_of_kept x hk⟩

/-- Client `192.168.0.2:40000` has given up a flow that waited for its backend, whose record was
released and stayed in the table. -/
def danglingBefore : List Recv :=
  [Frontend.sampleRecv (sampleRequest 0x61) 0, Frontend.sampleRecv (sampleIn TCP_RST_FLAG []) 1]

/-- Its next RST releases the record again, which meanwhile is another client's, and the block goes
to a third client. -/
def danglingBetween : List Recv :=
  [Frontend.sampleRecv (sampleIn TCP_RST_FLAG []) 1,
    Frontend.sampleRecv (requestOf (0xC0A80004, 40002) 3000 6000) 0]

/-- When the SYN-ACK comes, the record in the table holds the third client's request. -/
structure Dangling (s₁ : Shared) (cs₁ : List Call) (s₃ : Shared) : Prop where
  src : s₁.find (srcClient splicedRequest.data) = none
  dst : s₁.find (dstClient splicedRequest.data) = none
  calls : cs₁.length = 1
  server : s₃.find (srcClient (Mbuf.ofBytes (synAckTo splicedClient)).data) = none
  client : s₃.find (dstClient (Mbuf.ofBytes (synAckTo splicedClient)).data) = some 0
  flow : s₃.flow 0 = ⟨.BACKEND_SYN, ⟨1, 1⟩, some 0, 61⟩
  isTcp : isTcp (s₃.cached.cell 0)
  key : ingressKey (s₃.cached.cell 0) = ⟨htonl 0xC0A80004, htons 40002⟩
  syn : syn (s₃.cached.cell 0) = false
  seqNo : seqNo (s₃.cached.cell 0) = 3000

instance (s₁ : Shared) (cs₁ : List Call) (s₃ : Shared) : Decidable (Dangling s₁ cs₁ s₃) :=
  decidable_of_iff (_ ∧ _ ∧ _ ∧ _ ∧ _ ∧ _ ∧ _ ∧ _ ∧ _ ∧ _)
    ⟨fun ⟨a, b, c, d, e, f, g, h, i, j⟩ => ⟨a, b, c, d, e, f, g, h, i, j⟩,
      fun ⟨a, b, c, d, e, f, g, h, i, j⟩ => ⟨a, b, c, d, e, f, g, h, i, j⟩⟩

theorem dangling_run : ((danglingBefore.foldlM handle sampleStart).bind fun s₁ =>
    (handleCalls s₁ (Frontend.sampleRecv splicedRequest 0)).bind fun r =>
    (danglingBetween.foldlM (handleOther (srcClient splicedRequest.data)) r.1).bind fun s₃ =>
    (handleCalls s₃ (Frontend.sampleRecv (.ofBytes (synAckTo splicedClient)) 3)).map fun _ =>
      decide (Dangling s₁ r.2 s₃)) = some true := by
  decide +kernel

/-- The agent knows nothing of the third client. -/
theorem dangling_maps : (agentRun .kernel .empty
    [.ingress ⟨splicedSyn.data, 66⟩, .egress (.ofBytes (synAckTo splicedClient))]).flow_map
      ⟨htonl 0xC0A80004, htons 40002⟩ = none := by
  decide +kernel

/-- **A block of a record that was released while still in the table is handed out again**, and the
SYN-ACK for the request of `192.168.0.3:40001`, with sequence number 1000, has the request of
`192.168.0.4:40002`, with sequence number 3000, sent. -/
theorem reused_record_not_spliced : ∃ x : Exchange .kernel,
    x.start = sampleStart ∧ x.before = danglingBefore ∧
    x.request = Frontend.sampleRecv splicedRequest 0 ∧ x.between = danglingBetween ∧
    x.synAck = Frontend.sampleRecv (.ofBytes (synAckTo splicedClient)) 3 ∧ x.S = 1000 ∧
    (∃ m, x.cs = [.send_cached_pkt 1 m 61] ∧
      ingressKey m = ⟨htonl 0xC0A80004, htons 40002⟩ ∧ seqNo m = 3000) ∧ ¬ x.Spliced := by
  obtain ⟨s₁, h₁, hr⟩ := Option.bind_eq_some_iff.mp dangling_run
  obtain ⟨⟨s₂, cs₁⟩, h₂, hr⟩ := Option.bind_eq_some_iff.mp hr
  obtain ⟨s₃, h₃, hr⟩ := Option.bind_eq_some_iff.mp hr
  obtain ⟨⟨s₄, cs⟩, h₄, he⟩ := Option.map_eq_some_iff.mp hr
  have hd : Dangling s₁ cs₁ s₃ := of_decide_eq_true he
  have hcs : cs₁ ≠ [] := List.ne_nil_of_length_pos (by rw [hd.calls]; decide)
  let x := splicedExchange h₁ h₂ h₃ h₄ hd.src hd.dst hcs
  have hS : x.S = 1000 := by
    show seqNo splicedRequest.data = 1000
    decide +kernel
  -- the SYN-ACK has what the record holds sent
  have hatt : Attributed s₃ (Frontend.sampleRecv (.ofBytes (synAckTo splicedClient)) 3).pkt.data 0 :=
    ⟨by decide +kernel, hd.server, hd.client⟩
  obtain ⟨-, q, hq, hcall⟩ := waiting_answered hatt (by rw [hd.flow]) (by decide +kernel)
    (handleCalls_step h₄)
  rw [hd.flow] at hq hcall
  cases hq
  refine ⟨x, rfl, rfl, rfl, rfl, rfl, hS, ⟨_, hcall, hd.key, hd.seqNo⟩, fun hx => ?_⟩
  have hmem : Call.send_cached_pkt 1 (s₃.cached.cell 0) 61 ∈ x.cs := by
    show _ ∈ cs
    rw [hcall]
    exact List.mem_singleton.mpr rfl
  obtain ⟨f, hf⟩ : ∃ f, send_cached_pkt sampleRules 1 (s₃.cached.cell 0) 61 (.ofBytes []) =
      some (.OK, f) := ⟨_, rfl⟩
  obtain ⟨server, -, hs⟩ := send_cached_sentTo hf
  have h54 : 54 ≤ 61 := by decide
  -- and the agent passes it
  let g : Frame := ⟨f.data, f.data_len.toNat + 54⟩
  have hg : g.Segment := ⟨(hs.isTcp h54).mpr hd.isTcp, Nat.le_add_left _ _⟩
  have hkey : ingressKey g.data = ⟨htonl 0xC0A80004, htons 40002⟩ := by
    rw [← hd.key, ingressKey, ingressKey, hs.src_addr h54, hs.src_port h54]
  have hnone : (x.mapsAfter []).flow_map (ingressKey g.data) = none := by
    have hm : x.mapsAfter [] = agentRun .kernel .empty
        [.ingress ⟨splicedSyn.data, 66⟩, .egress (.ofBytes (synAckTo splicedClient))] := rfl
    rw [hkey, hm, dangling_maps]
  have hsyn : syn g.data = false := by
    rw [syn, hs.tcp_flags h54]
    exact hd.syn
  have hpass := ingress_quiet .kernel hg hnone hsyn
  have hc := hx.cached 1 (s₃.cached.cell 0) 61 (.ofBytes []) f g [] hmem hf
    ⟨fun _ _ _ _ _ _ _ => rfl, Nat.le_add_right _ _⟩ nofun (by simp only [agent, hpass]; rfl)
  have hseq : seqNo g.data = x.S := by
    have := hc.2.1
    simpa only [agent, hpass] using this
  rw [hs.seqNo h54, hd.seqNo, hS] at hseq
  exact absurd hseq (by decide)

end Miresga.System
