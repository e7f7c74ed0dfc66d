import Miresga.Backend.Sack
import Miresga.Backend.Translation

/-!
# Backend — teardown of a connection

A connection is torn down when neither map holds its key any more and the next connection of the
same client is followed from the start (`TornDown`): its SYN is recorded, and its segments are
moved by its own offset.

An RST that leaves through egress does this.  Ingress has the same cleanup, but behind the option
chain, where it is never reached: an RST that comes in leaves the maps as they are, and only if its
options make ingress drop it, nothing has been promised (`tornDown_iff`).
-/

namespace Miresga.Backend

/-- The maps hold nothing of `k`, and whatever frames follow, the next SYN of `k` is recorded as a
new flow and the connection it opens is translated with its own offset. -/
def TornDown (K : Helpers) (k : Key) (m : Maps) : Prop :=
  Absent k m ∧ ∀ es : List Event,
    (∀ f, observe K k m es = .idle → Inbound k f → syn f.data = true →
      (agent K (agentRun K m es) (.ingress f)).2.passed = true ∧
      (agent K (agentRun K m es) (.ingress f)).1.seq_map k = some (recv_ack f.data) ∧
      observe K k m (es ++ [.ingress f]) = .syn (ackNo f.data)) ∧
    (∀ A B, observe K k m es = .spliced A B →
      (∀ f, Outbound k f → (agent K (agentRun K m es) (.egress f)).2.passed = true ∧
        seqNo (agent K (agentRun K m es) (.egress f)).2.frame.data = seqNo f.data - B + A) ∧
      (∀ f, Inbound k f → (agent K (agentRun K m es) (.ingress f)).2.passed = true →
        ackNo (agent K (agentRun K m es) (.ingress f)).2.frame.data = ackNo f.data + B - A))

variable (K : Helpers) {k : Key} {m : Maps}

/-- Maps without `k` are enough: from there the observer and the maps agree for good. -/
theorem tornDown_of_absent (h : Absent k m) : TornDown K k m := by
  refine ⟨h, fun es => ⟨fun f ho hf hs => ?_, fun A B ho => ?_⟩⟩
  · have ht := tracks_run K h es
    rw [ho] at ht
    obtain ⟨hseg, rfl⟩ := hf
    obtain ⟨ha, -, -, -, hm⟩ := ingress_new K hseg ht.2 hs
    have hp : (agent K (agentRun K m es) (.ingress f)).2.passed = true := by
      simp only [agent, ha, beq_self_eq_true]
    refine ⟨hp, ?_, ?_⟩
    · simp only [agent, hm, upd_same]
    · rw [observe_snoc K h, ho]
      simp [Phase.next, Inbound, hseg, hs, hp]
  · have ht := tracks_run K h es
    rw [ho] at ht
    exact tracks_spliced K ht

/-- An RST that leaves takes its key out of both maps. -/
theorem egress_rst_absent {d : BitVec 32} {f : Frame} (hk : m.flow_map k = some d)
    (hf : Outbound k f) (hr : rst f.data = true) : Absent k (agent K m (.egress f)).1 := by
  obtain ⟨hs, rfl⟩ := hf
  simp only [agent, (egress_known K hs hk).2.2.2.2, hr, if_true]
  exact ⟨upd_same .., upd_same ..⟩

/-- An RST that comes in tears nothing down. -/
theorem ingress_rst_not_tornDown {d : BitVec 32} {f : Frame} (hk : m.flow_map k = some d)
    (hf : Inbound k f) : ¬ TornDown K k (agent K m (.ingress f)).1 := by
  obtain ⟨hs, rfl⟩ := hf
  intro h
  have hm : (agent K m (.ingress f)).1 = m := (ingress_known K hs hk).1
  rw [hm] at h
  cases hk.symm.trans h.1.2

/-- **Teardown.**  Let `k` be in `flow_map`, and let an RST of `k` come to its program.  If it is
passed, the connection is torn down: this holds exactly when the program is not ingress, or the
options of the frame are such that ingress drops it. -/
theorem tornDown_iff {d : BitVec 32} {e : Event} (hk : m.flow_map k = some d)
    (he : e.Of k) (hr : rst e.data = true) :
    ((agent K m e).2.passed = true → TornDown K k (agent K m e).1) ↔
      ∀ f, e = .ingress f → ¬ OptionsFit f := by
  cases e with
  | egress f =>
      exact ⟨fun _ _ => nofun, fun _ _ => tornDown_of_absent K (egress_rst_absent K hk he hr)⟩
  | ingress f =>
      have hpass : (agent K m (.ingress f)).2.passed = true ↔ OptionsFit f := by
        obtain ⟨hs, rfl⟩ := he
        rw [← ingress_passed_iff K hs hk]
        exact beq_iff_eq
      constructor
      · rintro h _ ⟨⟩ hfit
        exact ingress_rst_not_tornDown K hk he (h (hpass.mpr hfit))
      · intro h hp
        exact absurd (hpass.mp hp) (h f rfl)

/-- The maps of a connection that is set up. -/
def sampleMaps : Maps := agentRun .kernel .empty [.ingress sampleSyn, .egress sampleSynAck]

/-- The server closes with an RST. -/
def sampleRstOut : Frame := .ofBytes (headers sampleServer sampleClient 70001 1000 TCP_RST_FLAG 40)

/-- The client closes with an RST. -/
def sampleRstIn : Frame := .ofBytes (headers sampleClient sampleServer 1000 5000 TCP_RST_FLAG 40)

/-- The client's next SYN from the same port, acknowledging 899999. -/
def sampleSyn₂ : Frame := .ofBytes (headers sampleClient sampleServer 7999 899999 TCP_SYN_FLAG 40)

theorem tornDown_sample :
    sampleMaps.flow_map sampleKey = some 65001 ∧ Outbound sampleKey sampleRstOut ∧
    (agent .kernel sampleMaps (.egress sampleRstOut)).2.passed = true ∧
    TornDown .kernel sampleKey (agent .kernel sampleMaps (.egress sampleRstOut)).1 :=
  ⟨by decide +kernel, by decide, by decide +kernel,
    (tornDown_iff (k := sampleKey) (d := 65001) (e := .egress sampleRstOut) .kernel
      (by decide +kernel) (show Outbound sampleKey sampleRstOut by decide)
      (by decide)).mpr nofun (by decide +kernel)⟩

/-- The client's RST passes and both entries stay; its next SYN is not recorded, and passes with an
acknowledgement number moved by the old connection's offset. -/
theorem ingress_rst_keeps_entries :
    sampleMaps.flow_map sampleKey = some 65001 ∧ Inbound sampleKey sampleRstIn ∧
    rst sampleRstIn.data = true ∧
    (agent .kernel sampleMaps (.ingress sampleRstIn)).2.passed = true ∧
    (agent .kernel sampleMaps (.ingress sampleRstIn)).1.flow_map sampleKey = some 65001 ∧
    (agent .kernel sampleMaps (.ingress sampleRstIn)).1.seq_map sampleKey = some (htonl 4999) ∧
    (agentRun .kernel sampleMaps [.ingress sampleRstIn, .ingress sampleSyn₂]).seq_map sampleKey
      = some (htonl 4999) ∧
    ackNo (agent .kernel (agentRun .kernel sampleMaps [.ingress sampleRstIn])
      (.ingress sampleSyn₂)).2.frame.data = 899999 + 65001 := by
  decide +kernel

end Miresga.Backend
