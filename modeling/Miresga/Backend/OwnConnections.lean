import Miresga.Backend.Translation

/-!
# Backend — connections the backend opens itself

The maps are meant for the connections that clients open through the front-end.  A connection to
`k` that the backend opens itself should pass both programs as it is (`LeftAlone`).

Egress takes a segment for a new flow when SYN and ACK are both set.  Ingress looks at SYN alone,
so the peer's SYN-ACK is recorded in `seq_map` and loses its acknowledgement number.  As long as no
SYN of `k` arrives the connection is left alone (`leftAlone_of_no_syn`), and from the first one on
it is not (`own_connection_touched`).
-/

namespace Miresga.Backend

/-- The frame given to the program. -/
def Event.frame : Event → Frame
  | .ingress f => f
  | .egress f => f

/-- The two encodings of a zero checksum. -/
def ZeroCksum (m : Mem) : Prop := cksum m = 0 ∨ cksum m = 0xffff

/-- The same bytes, but that a zero checksum may change its encoding. -/
structure SameUpToZero (f g : Frame) : Prop where
  data_end : g.data_end = f.data_end
  rest : ∀ i, i ≠ 50 → i ≠ 51 → g.data i = f.data i
  cksum : cksum g.data = cksum f.data ∨ ZeroCksum f.data ∧ ZeroCksum g.data

theorem SameUpToZero.refl (f : Frame) : SameUpToZero f f := ⟨rfl, fun _ _ _ => rfl, .inl rfl⟩

/-- In the run `es` from `m` every frame of `k` passes as it is, and no map ever holds `k`. -/
def LeftAlone (K : Helpers) (k : Key) (m : Maps) (es : List Event) : Prop :=
  ∀ es₁ e es₂, es = es₁ ++ e :: es₂ →
    Absent k (agentRun K m (es₁ ++ [e])) ∧
    (e.Of k → (agent K (agentRun K m es₁) e).2.passed = true ∧
      SameUpToZero e.frame (agent K (agentRun K m es₁) e).2.frame)

/-- A run in which the backend opens a connection to `k` and `k` accepts it: a SYN to `k` leaves,
then a SYN-ACK of `k` arrives; no SYN without ACK arrives from `k`. -/
structure OwnConnection (k : Key) (es : List Event) : Prop where
  opened : ∃ es₁ f es₂ g es₃, es = es₁ ++ .egress f :: es₂ ++ .ingress g :: es₃ ∧
    (Outbound k f ∧ syn f.data = true ∧ ack f.data = false) ∧
    (Inbound k g ∧ syn g.data = true ∧ ack g.data = true)
  no_client : ∀ f, .ingress f ∈ es → Inbound k f → syn f.data = true → ack f.data = true

variable {K : Helpers} {k : Key} {m : Maps} {es : List Event}

theorem agentRun_snoc (m : Maps) (es : List Event) (e : Event) :
    agentRun K m (es ++ [e]) = (agent K (agentRun K m es) e).1 := by
  simp [agentRun]

/-- A run that leaves `k` alone never shows `k` to the next frame. -/
theorem LeftAlone.absent (h₀ : Absent k m) (h : LeftAlone K k m es) {es₁ es₂ : List Event}
    (he : es = es₁ ++ es₂) : Absent k (agentRun K m es₁) := by
  rcases List.eq_nil_or_concat es₁ with rfl | ⟨es', e, rfl⟩
  · exact h₀
  · rw [List.concat_eq_append] at he ⊢
    exact (h es' e es₂ (by rw [he, List.append_assoc]; rfl)).1

/-! ### Without a SYN from the peer -/

/-- A frame that is no inbound SYN of `k` leaves the maps without `k`, and passes as it is if it is
one of `k`. -/
theorem agent_absent (h : Absent k m) {e : Event}
    (he : ∀ f, e = .ingress f → Inbound k f → syn f.data = false) :
    Absent k (agent K m e).1 ∧ (e.Of k → (agent K m e).2.passed = true ∧
      SameUpToZero e.frame (agent K m e).2.frame) := by
  by_cases hk : e.Of k
  · cases e with
    | ingress f =>
        obtain ⟨hs, rfl⟩ := hk
        have hq := ingress_quiet K hs h.2 (he f rfl ⟨hs, rfl⟩)
        simp only [agent, hq]
        exact ⟨h, fun _ => ⟨rfl, .refl f⟩⟩
    | egress f =>
        obtain ⟨hs, rfl⟩ := hk
        have hq := egress_quiet K hs h.2 (.inr h.1)
        simp only [agent, hq]
        exact ⟨h, fun _ => ⟨rfl, .refl f⟩⟩
  · obtain ⟨h₁, h₂⟩ := agent_other K (m := m) hk
    exact ⟨⟨h₁.trans h.1, h₂.trans h.2⟩, fun hk' => absurd hk' hk⟩

/-- A run without inbound SYN of `k` leaves `k` alone. -/
theorem leftAlone_of_no_syn (h₀ : Absent k m)
    (h : ∀ f, .ingress f ∈ es → Inbound k f → syn f.data = false) : LeftAlone K k m es := by
  have habs : ∀ es', (∀ f, .ingress f ∈ es' → Inbound k f → syn f.data = false) →
      Absent k (agentRun K m es') := by
    intro es'
    induction es' using List.reverseRecOn with
    | nil => exact fun _ => h₀
    | append_singleton es' e ih =>
        intro h
        rw [agentRun_snoc]
        refine (agent_absent (ih fun f hf => h f (List.mem_append_left _ hf)) ?_).1
        rintro f rfl
        exact h f (by simp)
  rintro es₁ e es₂ rfl
  rw [agentRun_snoc]
  refine agent_absent (habs es₁ fun f hf => h f (List.mem_append_left _ hf)) ?_
  rintro f rfl
  exact h f (by simp)

/-! ### With one -/

/-- A SYN of `k` that arrives puts `k` into `seq_map`, whether or not ACK is set. -/
theorem not_leftAlone_of_syn (h₀ : Absent k m) {f : Frame} (hf : .ingress f ∈ es)
    (hk : Inbound k f) (hs : syn f.data = true) : ¬ LeftAlone K k m es := by
  intro h
  obtain ⟨es₁, es₂, rfl⟩ := List.append_of_mem hf
  obtain ⟨hseg, rfl⟩ := hk
  have habs := h.absent h₀ rfl
  have hafter := (h es₁ _ es₂ rfl).1
  rw [agentRun_snoc] at hafter
  have hseq : (agent K (agentRun K m es₁) (.ingress f)).1.seq_map (ingressKey f.data)
      = some (recv_ack f.data) := by
    simp only [agent, (ingress_new K hseg habs.2 hs).2.2.2.2, upd_same]
  rw [hafter.1] at hseq
  cases hseq

/-- **The backend's own connections are touched.**  In no run in which the backend opens a
connection to `k` and `k` accepts it is `k` left alone. -/
theorem own_connection_touched (h₀ : Absent k m) (h : OwnConnection k es) :
    ¬ LeftAlone K k m es := by
  obtain ⟨⟨es₁, f, es₂, g, es₃, rfl, -, hg, hs, -⟩, -⟩ := h
  exact not_leftAlone_of_syn h₀ (by simp) hg hs

/-- The remote end of a connection the backend opens: 10.0.9.9, port 5432. -/
def sampleRemote : BitVec 32 × BitVec 16 := (0x0A000909, 5432)

def sampleRemoteKey : Key := ⟨htonl sampleRemote.1, htons sampleRemote.2⟩

/-- The backend's SYN, from port 50000. -/
def sampleOwnSyn : Frame :=
  .ofBytes (headers (0x0A000102, 50000) sampleRemote 700 0 TCP_SYN_FLAG 40)

/-- The answer, which acknowledges it. -/
def sampleOwnSynAck : Frame :=
  .ofBytes (headers sampleRemote (0x0A000102, 50000) 90000 701 (TCP_SYN_FLAG ||| TCP_ACK_FLAG) 40)

def sampleOwnRun : List Event := [.egress sampleOwnSyn, .ingress sampleOwnSynAck]

theorem sampleOwnRun_own : OwnConnection sampleRemoteKey sampleOwnRun where
  opened := ⟨[], sampleOwnSyn, [], sampleOwnSynAck, [], rfl, by decide +kernel, by decide +kernel⟩
  no_client f hf _ _ := by
    obtain rfl : f = sampleOwnSynAck := by simpa [sampleOwnRun] using hf
    decide +kernel

theorem own_connection_touched_sample : ¬ LeftAlone .kernel sampleRemoteKey .empty sampleOwnRun :=
  own_connection_touched ⟨rfl, rfl⟩ sampleOwnRun_own

/-- The SYN-ACK passes acknowledging 0 and not 701, and the remote end stands in `seq_map`. -/
theorem own_synAck_recorded :
    OwnConnection sampleRemoteKey sampleOwnRun ∧
    ackNo sampleOwnSynAck.data = 701 ∧
    ackNo (agent .kernel (agentRun .kernel .empty [.egress sampleOwnSyn])
      (.ingress sampleOwnSynAck)).2.frame.data = 0 ∧
    (agentRun .kernel .empty sampleOwnRun).seq_map sampleRemoteKey = some (htonl 701) ∧
    ¬ LeftAlone .kernel sampleRemoteKey .empty sampleOwnRun := by
  refine ⟨sampleOwnRun_own, by decide +kernel, by decide +kernel, by decide +kernel, fun h => ?_⟩
  have hrec : (agentRun .kernel .empty sampleOwnRun).seq_map sampleRemoteKey = some (htonl 701) := by
    decide +kernel
  have habs := (h [.egress sampleOwnSyn] (.ingress sampleOwnSynAck) [] rfl).1
  exact nomatch hrec.symm.trans habs.1

end Miresga.Backend
