import Miresga.Backend.Spec

/-!
# Backend — translation over whole runs

A run of the agent is a list of frames, each handed to one of the two programs.  For one key, an
observer who sees only the frames and whether they pass (`Phase`, `observe`) follows the
connection:

* `idle`: no SYN of the key has passed since the start, or since the last RST that left;
* `syn A`: SYNs have passed, the last one with acknowledgement number `A` on arrival;
* `spliced A B`: the first SYN-ACK after that has left, with sequence number `B`.

`Tracks` ties the two maps to the phase and survives every frame of every key (`tracks_next`), so
the phase alone says how the key's segments are translated (`tracks_spliced`).

The RST cleanup works on one hook only.  An RST that leaves through egress takes the key out of
both maps, and the next connection is observed from `idle` again; an RST that comes in through
ingress changes no map, and the old offset stays in use.
-/

namespace Miresga.Backend

/-- A frame at one of the two hooks. -/
inductive Event where
  | ingress (f : Frame)
  | egress (f : Frame)

/-- What becomes of the frame. -/
structure Out where
  passed : Bool
  frame : Frame

/-- One frame through its program. -/
def agent (K : Helpers) (m : Maps) : Event → Maps × Out
  | .ingress f =>
    let r := ingress_xdp_prog K m f
    (r.maps, ⟨r.action == .XDP_PASS, r.frame⟩)
  | .egress f =>
    let r := egress_tc_prog K m f
    (r.maps, ⟨r.action == .TC_ACT_OK, r.frame⟩)

/-- The maps after a run. -/
def agentRun (K : Helpers) (m : Maps) (es : List Event) : Maps :=
  es.foldl (fun m e => (agent K m e).1) m

/-- The frame is a segment of `k` coming in, as the program reads it: with the TCP header at byte 34,
whatever the IP header's own length says. -/
def Inbound (k : Key) (f : Frame) : Prop := f.Segment ∧ ingressKey f.data = k

/-- The frame is a segment of `k` going out, read with the TCP header at byte 34 as well. -/
def Outbound (k : Key) (f : Frame) : Prop := f.Segment ∧ egressKey f.data = k

instance (k : Key) (f : Frame) : Decidable (Inbound k f) := inferInstanceAs (Decidable (_ ∧ _))

instance (k : Key) (f : Frame) : Decidable (Outbound k f) := inferInstanceAs (Decidable (_ ∧ _))

/-- The frame is a segment of `k`, in the direction of its hook. -/
def Event.Of (k : Key) : Event → Prop
  | .ingress f => Inbound k f
  | .egress f => Outbound k f

/-- The bytes the program gets to see. -/
def Event.data : Event → Mem
  | .ingress f => f.data
  | .egress f => f.data

/-! ### The observer -/

/-- What an observer of one key's frames knows. -/
inductive Phase where
  | idle
  | syn (A : BitVec 32)
  | spliced (A B : BitVec 32)
  deriving DecidableEq, Repr

/-- The phase after one more frame. -/
def Phase.next (k : Key) (p : Phase) (e : Event) (o : Out) : Phase :=
  match e with
  | .ingress f =>
    if Inbound k f ∧ Miresga.syn f.data ∧ o.passed then
      match p with
      | .spliced A B => .spliced A B
      | _ => .syn (ackNo f.data)
    else p
  | .egress f =>
    if Outbound k f ∧ o.passed then
      match p with
      | .idle => .idle
      | .syn A => if Miresga.syn f.data ∧ ack f.data then .spliced A (seqNo f.data) else .syn A
      | .spliced A B => if rst f.data then .idle else .spliced A B
    else p

/-- Maps and phase after one more frame. -/
def watch (K : Helpers) (k : Key) (s : Maps × Phase) (e : Event) : Maps × Phase :=
  ((agent K s.1 e).1, s.2.next k e (agent K s.1 e).2)

/-- The phase of `k` after a run that starts at `m`. -/
def observe (K : Helpers) (k : Key) (m : Maps) (es : List Event) : Phase :=
  (es.foldl (watch K k) (m, .idle)).2

/-- The maps hold no entry for `k`. -/
def Absent (k : Key) (m : Maps) : Prop := m.seq_map k = none ∧ m.flow_map k = none

/-- What the maps hold for `k` in each phase. -/
def Tracks (k : Key) (m : Maps) : Phase → Prop
  | .idle => Absent k m
  | .syn A => m.seq_map k = some (htonl A) ∧ m.flow_map k = none
  | .spliced A B => m.flow_map k = some (B - A)

/-! ### One frame keeps the maps in step with the observer -/

variable (K : Helpers) {k : Key} {m : Maps} {p : Phase}

/-- A frame that is no segment of `k` leaves `k`'s entries alone. -/
theorem agent_other {e : Event} (h : ¬ e.Of k) :
    (agent K m e).1.seq_map k = m.seq_map k ∧ (agent K m e).1.flow_map k = m.flow_map k := by
  cases e with
  | ingress f =>
      by_cases hs : f.Segment
      · have hne : k ≠ ingressKey f.data := fun e => h ⟨hs, e.symm⟩
        cases hd : m.flow_map (ingressKey f.data) with
        | some d => simp only [agent, (ingress_known K hs hd).1, and_self]
        | none =>
            cases hy : syn f.data with
            | false => simp only [agent, ingress_quiet K hs hd hy, and_self]
            | true =>
                simp only [agent, (ingress_new K hs hd hy).2.2.2.2, and_true]
                exact upd_other _ _ _ hne
      · simp only [agent, ingress_other K hs, and_self]
  | egress f =>
      by_cases hs : f.Segment
      · have hne : k ≠ egressKey f.data := fun e => h ⟨hs, e.symm⟩
        cases hd : m.flow_map (egressKey f.data) with
        | some d =>
            simp only [agent, (egress_known K hs hd).2.2.2.2]
            split
            · exact ⟨upd_other _ _ _ hne, upd_other _ _ _ hne⟩
            · exact ⟨rfl, rfl⟩
        | none =>
            by_cases hq : (syn f.data && ack f.data) = false ∨ m.seq_map (egressKey f.data) = none
            · simp only [agent, egress_quiet K hs hd hq, and_self]
            · simp only [not_or, Bool.not_eq_false, Bool.and_eq_true] at hq
              obtain ⟨a, ha⟩ := Option.ne_none_iff_exists'.mp hq.2
              simp only [agent, (egress_new K hs hd hq.1.1 hq.1.2 ha).2.2.2, true_and]
              exact upd_other _ _ _ hne
      · simp only [agent, egress_other K hs, and_self]

/-- The maps track the phase through an inbound segment of `k`. -/
theorem tracks_next_inbound {f : Frame} (ht : Tracks k m p) (hf : Inbound k f) :
    Tracks k (agent K m (.ingress f)).1 (p.next k (.ingress f) (agent K m (.ingress f)).2) := by
  obtain ⟨hs, rfl⟩ := hf
  cases p with
  | spliced A B =>
      have hm : (agent K m (.ingress f)).1 = m := (ingress_known K hs ht).1
      have hp : (Phase.spliced A B).next (ingressKey f.data) (.ingress f)
          (agent K m (.ingress f)).2 = .spliced A B := by
        simp only [Phase.next, ite_self]
      rw [hm, hp]
      exact ht
  | idle | syn A =>
      have hd : m.flow_map (ingressKey f.data) = none := ht.2
      cases hy : Miresga.syn f.data with
      | false =>
          simp only [agent, ingress_quiet K hs hd hy, Phase.next, hy, Bool.false_eq_true,
            false_and, and_false, if_false]
          exact ht
      | true =>
          obtain ⟨hpass, -, -, -, hm⟩ := ingress_new K hs hd hy
          simp only [agent, hpass, hm, Phase.next, hy, Inbound, hs, beq_self_eq_true, and_self,
            if_true]
          refine ⟨(upd_same ..).trans ?_, hd⟩
          exact congrArg some (bswap32_bswap32 _).symm

/-- The maps track the phase through an outbound segment of `k`. -/
theorem tracks_next_outbound {f : Frame} (ht : Tracks k m p) (hf : Outbound k f) :
    Tracks k (agent K m (.egress f)).1 (p.next k (.egress f) (agent K m (.egress f)).2) := by
  obtain ⟨hs, rfl⟩ := hf
  cases p with
  | idle =>
      simp only [agent, egress_quiet K hs ht.2 (.inr ht.1), Phase.next, ite_self]
      exact ht
  | syn A =>
      by_cases hsa : (Miresga.syn f.data && ack f.data) = true
      · have hsa' : Miresga.syn f.data = true ∧ ack f.data = true := by simpa using hsa
        obtain ⟨hpass, -, -, hm⟩ := egress_new K hs ht.2 hsa'.1 hsa'.2 ht.1
        simp only [agent, hpass, hm, Phase.next, Outbound, hs, hsa', beq_self_eq_true, and_self,
          if_true]
        refine (upd_same ..).trans ?_
        exact congrArg (fun x => some (seqNo f.data - x)) (bswap32_bswap32 A)
      · have hsa' : ¬ (Miresga.syn f.data = true ∧ ack f.data = true) := by simpa using hsa
        simp only [agent, egress_quiet K hs ht.2 (.inl (Bool.eq_false_of_not_eq_true hsa)),
          Phase.next, hsa', if_false, ite_self]
        exact ht
  | spliced A B =>
      obtain ⟨hpass, -, -, -, hm⟩ := egress_known K hs ht
      simp only [agent, hpass, hm, Phase.next, Outbound, hs, beq_self_eq_true, and_self, if_true]
      split
      · exact ⟨upd_same .., upd_same ..⟩
      · exact ht

/-- **The maps track the observer** through every frame of every key. -/
theorem tracks_next (ht : Tracks k m p) (e : Event) :
    Tracks k (agent K m e).1 (p.next k e (agent K m e).2) := by
  have other (hp : p.next k e (agent K m e).2 = p) (h : ¬ e.Of k) :
      Tracks k (agent K m e).1 (p.next k e (agent K m e).2) := by
    obtain ⟨h₁, h₂⟩ := agent_other K (m := m) h
    rw [hp]
    cases p <;> simpa only [Tracks, Absent, h₁, h₂] using ht
  cases e with
  | ingress f =>
      by_cases hf : Inbound k f
      · exact tracks_next_inbound K ht hf
      · exact other (by simp [Phase.next, hf]) hf
  | egress f =>
      by_cases hf : Outbound k f
      · exact tracks_next_outbound K ht hf
      · exact other (by simp [Phase.next, hf]) hf

theorem tracks_foldl (ht : Tracks k m p) (es : List Event) :
    Tracks k (agentRun K m es) (es.foldl (watch K k) (m, p)).2 ∧
      (es.foldl (watch K k) (m, p)).1 = agentRun K m es := by
  induction es generalizing m p with
  | nil => exact ⟨ht, rfl⟩
  | cons e es ih => exact ih (tracks_next K ht e)

/-- **The maps track the observer** along every run from maps without `k`. -/
theorem tracks_run (h : Absent k m) (es : List Event) :
    Tracks k (agentRun K m es) (observe K k m es) :=
  (tracks_foldl K (p := .idle) h es).1

/-- The observer sees one more frame. -/
theorem observe_snoc (h : Absent k m) (es : List Event) (e : Event) :
    observe K k m (es ++ [e]) =
      (observe K k m es).next k e (agent K (agentRun K m es) e).2 := by
  have hm := (tracks_foldl K (p := .idle) h es).2
  simp only [observe, List.foldl_append, List.foldl_cons, List.foldl_nil, watch, hm]

/-! ### Runs that leave a phase as it is -/

/-- Frames of other keys leave the phase as it is. -/
theorem tracks_others (ht : Tracks k m p) {es : List Event} (h : ∀ e ∈ es, ¬ e.Of k) :
    Tracks k (agentRun K m es) p := by
  induction es generalizing m with
  | nil => exact ht
  | cons e es ih =>
      refine ih ?_ fun e' he' => h e' (List.mem_cons_of_mem _ he')
      obtain ⟨h₁, h₂⟩ := agent_other K (m := m) (h e List.mem_cons_self)
      cases p <;> simpa only [Tracks, Absent, h₁, h₂] using ht

/-- The frame is an RST of `k` that leaves. -/
def Event.Resets (k : Key) : Event → Prop
  | .ingress _ => False
  | .egress f => Outbound k f ∧ rst f.data = true

/-- A splice stays until an RST of the key leaves. -/
theorem tracks_unreset {A B : BitVec 32} (ht : Tracks k m (.spliced A B)) {es : List Event}
    (h : ∀ e ∈ es, ¬ e.Resets k) : Tracks k (agentRun K m es) (.spliced A B) := by
  induction es generalizing m with
  | nil => exact ht
  | cons e es ih =>
      refine ih ?_ fun e' he' => h e' (List.mem_cons_of_mem _ he')
      have hp : (Phase.spliced A B).next k e (agent K m e).2 = .spliced A B := by
        have he := h e List.mem_cons_self
        cases e with
        | ingress f => simp only [Phase.next, ite_self]
        | egress f =>
            by_cases ho : Outbound k f
            · have hr : ¬ rst f.data = true := fun hr => he ⟨ho, hr⟩
              simp only [Phase.next, hr, if_false, ite_self, Bool.false_eq_true]
            · simp only [Phase.next, ho, false_and, if_false]
      have hn := tracks_next K ht e
      rwa [hp] at hn

/-! ### What a phase says about the next frame -/

/-- The SYN-ACK that completes the splice leaves with its own sequence number. -/
theorem tracks_synAck {A : BitVec 32} {f : Frame} (ht : Tracks k m (.syn A)) (hf : Outbound k f)
    (hs : syn f.data = true) (ha : ack f.data = true) :
    (agent K m (.egress f)).2.passed = true ∧
      seqNo (agent K m (.egress f)).2.frame.data = seqNo f.data := by
  obtain ⟨hseg, rfl⟩ := hf
  obtain ⟨hpass, -, hb, -⟩ := egress_new K hseg ht.2 hs ha ht.1
  refine ⟨by simp only [agent, hpass, beq_self_eq_true], congrArg ntohl ?_⟩
  exact Mem.ld32_congr fun i _ _ => hb i (by omega) (by omega)

/-- A spliced connection's segments are moved by `B - A`: back when they leave, forth when they
come in. -/
theorem tracks_spliced {A B : BitVec 32} (ht : Tracks k m (.spliced A B)) :
    (∀ f, Outbound k f → (agent K m (.egress f)).2.passed = true ∧
      seqNo (agent K m (.egress f)).2.frame.data = seqNo f.data - B + A) ∧
    (∀ f, Inbound k f → (agent K m (.ingress f)).2.passed = true →
      ackNo (agent K m (.ingress f)).2.frame.data = ackNo f.data + B - A) := by
  refine ⟨fun f ⟨hs, hk⟩ => ?_, fun f ⟨hs, hk⟩ hp => ?_⟩
  · subst hk
    obtain ⟨hpass, -, hseq, -, -⟩ := egress_known K hs ht
    refine ⟨by simp only [agent, hpass, beq_self_eq_true], ?_⟩
    show seqNo (egress_tc_prog K m f).frame.data = _
    rw [hseq]
    ring
  · subst hk
    obtain ⟨-, hpass⟩ := ingress_known K hs ht
    show ackNo (ingress_xdp_prog K m f).frame.data = _
    rw [(hpass (by simpa [agent] using hp)).2.1]
    ring

/-! ### Translation along a run -/

/-- **Translation.**  From maps without `k`, along every run: the first SYN-ACK of `k` that leaves
after a SYN of `k` passed keeps its sequence number `B`.  From then until an RST of `k` leaves,
with `A` the acknowledgement number of the last such SYN on arrival, segments of `k` leave with
their sequence number moved by `A - B` and reach the stack with their acknowledgement number moved
by `B - A`; so what the peer acknowledges of an outbound number arrives as that number. -/
theorem agent_translates (h : Absent k m) (es : List Event) :
    (∀ A f, observe K k m es = .syn A → Outbound k f → syn f.data = true → ack f.data = true →
      (agent K (agentRun K m es) (.egress f)).2.passed = true ∧
      seqNo (agent K (agentRun K m es) (.egress f)).2.frame.data = seqNo f.data ∧
      observe K k m (es ++ [.egress f]) = .spliced A (seqNo f.data)) ∧
    (∀ A B, observe K k m es = .spliced A B →
      (∀ f, Outbound k f → (agent K (agentRun K m es) (.egress f)).2.passed = true ∧
        seqNo (agent K (agentRun K m es) (.egress f)).2.frame.data = seqNo f.data - B + A) ∧
      (∀ f, Inbound k f → (agent K (agentRun K m es) (.ingress f)).2.passed = true →
        ackNo (agent K (agentRun K m es) (.ingress f)).2.frame.data = ackNo f.data + B - A) ∧
      (∀ f es' g n, Outbound k f → observe K k m (es ++ es') = .spliced A B → Inbound k g →
        (agent K (agentRun K m (es ++ es')) (.ingress g)).2.passed = true →
        ackNo g.data = seqNo (agent K (agentRun K m es) (.egress f)).2.frame.data + n →
        ackNo (agent K (agentRun K m (es ++ es')) (.ingress g)).2.frame.data
          = seqNo f.data + n)) := by
  have ht := tracks_run K h es
  refine ⟨fun A f ho hf hs ha => ?_, fun A B ho => ?_⟩
  · rw [ho] at ht
    obtain ⟨hp, hq⟩ := tracks_synAck K ht hf hs ha
    refine ⟨hp, hq, ?_⟩
    rw [observe_snoc K h, ho]
    simp [Phase.next, hf, hp, hs, ha]
  · rw [ho] at ht
    obtain ⟨hout, hin⟩ := tracks_spliced K ht
    refine ⟨hout, hin, fun f es' g n hf ho' hg hp hack => ?_⟩
    have ht' := tracks_run K h (es ++ es')
    rw [ho'] at ht'
    rw [(tracks_spliced K ht').2 g hg hp, hack, (hout f hf).2]
    ring

/-! ### A connection in frames -/

def sampleClient : BitVec 32 × BitVec 16 := (0xC0A80002, 40000)

def sampleServer : BitVec 32 × BitVec 16 := (0x0A000102, 8080)

def sampleKey : Key := ⟨htonl sampleClient.1, htons sampleClient.2⟩

/-- The client's SYN as the front-end builds it, acknowledging 4999. -/
def sampleSyn : Frame := .ofBytes (headers sampleClient sampleServer 999 4999 TCP_SYN_FLAG 40)

/-- The server's answer, with initial sequence number 70000. -/
def sampleSynAck : Frame :=
  .ofBytes (headers sampleServer sampleClient 70000 1000 (TCP_SYN_FLAG ||| TCP_ACK_FLAG) 40)

/-- A later segment of the server. -/
def sampleReply : Frame := .ofBytes (headers sampleServer sampleClient 70001 1000 TCP_ACK_FLAG 40)

theorem agent_translates_sample :
    Absent sampleKey Maps.empty ∧ Outbound sampleKey sampleReply ∧
    observe .kernel sampleKey .empty [.ingress sampleSyn, .egress sampleSynAck]
      = .spliced 4999 70000 ∧
    seqNo (agent .kernel (agentRun .kernel .empty [.ingress sampleSyn, .egress sampleSynAck])
      (.egress sampleReply)).2.frame.data = 5000 :=
  ⟨⟨rfl, rfl⟩, by decide, by decide +kernel,
    (((agent_translates (k := sampleKey) .kernel ⟨rfl, rfl⟩
      [.ingress sampleSyn, .egress sampleSynAck]).2 4999 70000 (by decide +kernel)).1 sampleReply (by decide)).2.trans (by decide +kernel)⟩

end Miresga.Backend
