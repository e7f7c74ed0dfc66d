import Miresga.Frontend.Binding
import Miresga.Frontend.Routing

/-!
# Frontend — a flow that waits for its backend

A request that opens a connection to a backend, the first of a flow or one that changes the flow's
backend, is cached until the SYN-ACK comes.

* `Waiting`: the flow of a client waits for a backend with a packet cached;
* `waiting_of_opens`: the request leaves its flow so;
* `Waiting.run`: frames of other clients leave it so, in a run in which no record that was released
  while still in the table loses its contents (`Keeps`);
* `Waiting.cached`, `Waiting.answered`: what is sent when the SYN-ACK is handled is that packet, for
  that backend.
-/

namespace Miresga.Frontend

variable {s s' : Shared} {c : Client} {d : Byte} {p : Mbuf} {l : Recv} {cs : List Call}

/-- The flow of `c` waits for backend `d`, with `p` cached. -/
def Waiting (s : Shared) (c : Client) (d : Byte) (p : Mbuf) : Prop :=
  ∃ a q, s.find c = some a ∧ (s.flow a).state = .BACKEND_SYN ∧ (s.flow a).entry_data.d_index = d ∧
    (s.flow a).recv_pkt = some q ∧ (s.flow a).pkt_size = p.data_len.toNat ∧
    ∀ i, i < p.data_len.toNat → s.cached.cell q i = p.data i

/-- The flow of `c` waits for a backend. -/
def Shared.Waits (s : Shared) (c : Client) : Prop :=
  ∃ a, s.find c = some a ∧ (s.flow a).state = .BACKEND_SYN

/-- The packet of the step opens a connection to backend `d` for its sender, which has no flow or one
with another backend, and `f` is the SYN that is built for it. -/
structure Opens (s : Shared) (l : Recv) (s' : Shared) (d : Byte) (f : Mbuf) : Prop where
  flow : ∀ a, s.find (srcClient l.pkt.data) = some a → (s.flow a).Established
  step : ∃ cs, FrontStep s l s' cs ∧ Call.send_syn_pkt d l.pkt ∈ cs
  built : ∃ b, send_syn_pkt l.rc d l.pkt b = some (.OK, f)

/-! ### The request -/

/-- How a SYN for backend `d` comes to be built. -/
inductive SynSent (rc : RuleController) (mem : Alloc) (p : Mbuf) (s : Shared) :
    Shared → Byte → Prop where
  | resyn {a q : Addr} (hf : s.find (srcClient p.data) = some a)
      (hs : (s.flow a).state = .BACKEND_SYN) (hq : (s.flow a).recv_pkt = some q)
      (hseq : sent_seq (s.cached.cell q) = sent_seq p.data) :
      SynSent rc mem p s s (s.flow a).entry_data.d_index
  | move {a : Addr} {data : MyData} {s' : Shared} (hf : s.find (srcClient p.data) = some a)
      (he : (s.flow a).Established)
      (hm : (s.unoffload (srcClient p.data) a).move a data mem.recv_pkt p = some s') :
      SynSent rc mem p s s' data.d_index
  | create {data : MyData} {s' : Shared} (hn : s.SrcFree (srcClient p.data))
      (hc : s.create (srcClient p.data) data mem p = some s') : SynSent rc mem p s s' data.d_index

/-- **A SYN is built for the packet at hand**: one that repeats the request of a waiting flow, or one
that opens a connection. -/
theorem Transition.syn_sent {rc : RuleController} {mem : Alloc} {p' : Mbuf}
    (ht : Transition rc mem p s s' cs) (hc : Call.send_syn_pkt d p' ∈ cs) :
    p' = p ∧ SynSent rc mem p s s' d := by
  cases ht with
  | ignored => cases hc
  | fin_unsent | forward | serve | offload | unoffload | abandon | syn_ack | reply =>
      cases List.mem_singleton.mp hc
  | close_client _ _ hcs =>
      rcases hcs with ⟨-, rfl⟩ | rfl <;> simp at hc
  | close_backend _ _ _ hcs =>
      rcases hcs with rfl | rfl <;> simp at hc
  | resyn hf hs hq hseq =>
      cases List.mem_singleton.mp hc
      exact ⟨rfl, .resyn hf hs hq hseq⟩
  | move hf he _ hm =>
      obtain ⟨rfl, rfl⟩ : d = _ ∧ p' = p := by simpa using hc
      exact ⟨rfl, .move hf he hm⟩
  | create hn _ hcr =>
      cases List.mem_singleton.mp hc
      exact ⟨rfl, .create hn hcr⟩

theorem waiting_of_move {a : Addr} {data : MyData} {q : Addr} (hf : s.find c = some a)
    (hm : s.move a data q p = some s') : Waiting s' c data.d_index p := by
  obtain ⟨-, ht, -, hfl, -, -, hcell⟩ := move_eq_some hm
  have own : s'.flow a = Shared.await data q p := by
    rw [Shared.flow, hfl, Heap.put_cell_same]
  have hf' : s'.find c = some a := by
    rw [Shared.find, ht]
    exact hf
  refine ⟨a, q, hf', by rw [own]; rfl, by rw [own]; rfl, by rw [own]; rfl, by rw [own]; rfl,
    fun i hi => ?_⟩
  rw [hcell, upd_same, Mem.copy_apply, if_pos hi]

theorem waiting_of_create {data : MyData} {mem : Alloc} (hn : s.find c = none)
    (hc : s.create c data mem p = some s') : Waiting s' c data.d_index p := by
  obtain ⟨-, -, ht, -, -, -, -, hcell, -, hpkt⟩ := create_eq_some hc hn
  have own : s'.flow mem.flow_data = Shared.await data mem.recv_pkt p := by
    rw [Shared.flow, hcell, upd_same]
  have hf' : s'.find c = some mem.flow_data := by
    rw [Shared.find, ht, upd_same]
  refine ⟨mem.flow_data, mem.recv_pkt, hf', by rw [own]; rfl, by rw [own]; rfl, by rw [own]; rfl,
    by rw [own]; rfl, fun i hi => ?_⟩
  rw [hpkt, upd_same, Mem.copy_apply, if_pos hi]

/-- **The request that opens a connection waits for its backend.** -/
theorem waiting_of_opens {f : Mbuf} (h : Opens s l s' d f) :
    Waiting s' (srcClient l.pkt.data) d l.pkt := by
  obtain ⟨cs, hs, hc⟩ := h.step
  cases (hs.transition.syn_sent hc).2 with
  | resyn hf hst =>
      rcases h.flow _ hf with he | he <;> cases hst.symm.trans he
  | move hf _ hm => exact waiting_of_move ((unoffload_find ..).trans hf) hm
  | create hn hcr =>
      refine waiting_of_create ?_ hcr
      -- a flow of the sender would be established, and the step is one for a sender without
      cases hf : s.find (srcClient l.pkt.data) with
      | none => rfl
      | some a =>
          rcases h.flow a hf with he | he <;> cases (hn a hf).symm.trans he

/-! ### Frames of other clients -/

/-- A step that handles a frame neither from `c` nor to `c`. -/
def OtherStep (c : Client) (s : Shared) (l : Recv) (s' : Shared) : Prop :=
  srcClient l.pkt.data ≠ c ∧ dstClient l.pkt.data ≠ c ∧ ∃ cs, FrontStep s l s' cs

namespace Waiting

/-- The part of the state that a waiting flow consists of is the same. -/
theorem congr (h : Waiting s c d p) (ht : s'.find c = s.find c)
    (hf : ∀ a, s.find c = some a → s'.flow a = s.flow a)
    (hq : ∀ a q, s.find c = some a → (s.flow a).recv_pkt = some q →
      s'.cached.cell q = s.cached.cell q) : Waiting s' c d p := by
  obtain ⟨a, q, ha, hst, hd, hpq, hn, hi⟩ := h
  refine ⟨a, q, ht.trans ha, ?_⟩
  rw [hf a ha, hq a q ha hpq]
  exact ⟨hst, hd, hpq, hn, hi⟩

/-- Another client has another record. -/
theorem record_ne (hs : Sound s) {c' : Client} {a b : Addr} (hc : c' ≠ c)
    (hf : s.find c' = some a) (hb : s.find c = some b) : b ≠ a := by
  rintro rfl
  exact hc (Client.slot_inj.mp (hs.inj hf hb))

theorem set_state (hs : Sound s) (h : Waiting s c d p) {c' : Client} {a : Addr} (hc : c' ≠ c)
    (hf : s.find c' = some a) (st : FlowState) : Waiting (s.set_state a st) c d p :=
  h.congr rfl (fun _ hb => set_state_flow_other _ _ _ (record_ne hs hc hf hb)) fun _ _ _ _ => rfl

theorem close (h : Waiting s c d p) {c' : Client} (hc : c' ≠ c) (a : Addr) :
    Waiting (s.close c' a) c d p := by
  have hslot : c.slot ≠ c'.slot := fun e => hc (Client.slot_inj.mp e).symm
  refine h.congr ?_ (fun b _ => ?_) fun b q _ _ => ?_
  · rw [Shared.find, Shared.close, release_table, erase_other _ _ hslot, unoffload_table, Shared.find]
  · rw [Shared.close, release_flow]
    exact unoffload_flow ..
  · rw [Shared.close, release_cached, erase_free_pkt_cached, Traced.free_pkt_cell, unoffload_cached]

theorem move (hs : Sound s) (h : Waiting s c d p) {c' : Client} {a : Addr} {data : MyData}
    (hk : Keeps s l.mem) (hc : c' ≠ c) (hf : s.find c' = some a)
    (hm : s.move a data l.mem.recv_pkt l.pkt = some s') : Waiting s' c d p := by
  obtain ⟨hl, ht, -, hfl, -, -, hcell⟩ := move_eq_some hm
  refine h.congr (by rw [Shared.find, ht, Shared.find]) (fun b hb => ?_) fun b q hb hq => ?_
  · rw [Shared.flow, hfl, Heap.put_cell_other _ (record_ne hs hc hf hb), Shared.flow]
  · have hne : q ≠ l.mem.recv_pkt := fun e =>
      hs.pkt_fresh_free hk hf hl hb (record_ne hs hc hf hb) (e ▸ hq)
    rw [hcell, upd_other _ _ _ hne, Traced.free_pkt_cell]

theorem waits (h : Waiting s c d p) : s.Waits c := by
  obtain ⟨a, -, ha, hst, -⟩ := h
  exact ⟨a, ha, hst⟩

theorem create (hs : Sound s) (h : Waiting s c d p) {c' : Client} {data : MyData}
    (hk : Keeps s l.mem) (hc : c' ≠ c) (hn : s.find c' = none)
    (hcr : s.create c' data l.mem l.pkt = some s') : Waiting s' c d p := by
  obtain ⟨hlf, hlq, ht, -, -, -, -, hcell, -, hpkt⟩ := create_eq_some hcr hn
  have hslot : c.slot ≠ c'.slot := fun e => hc (Client.slot_inj.mp e).symm
  refine h.congr ?_ (fun b hb => ?_) fun b q hb hq => ?_
  · rw [Shared.find, ht, upd_other _ _ _ hslot, Shared.find]
  · rw [Shared.flow, hcell, upd_other _ _ _ (hk.flow_fresh hlf hb), Shared.flow]
  · have hne : q ≠ l.mem.recv_pkt := fun e => hs.pkt_fresh hk hlq hb (e ▸ hq)
    rw [hpkt, upd_other _ _ _ hne]

/-- The backend's answer ends the wait. -/
theorem not_waits_establish {a : Addr} (hf : s.find c = some a) : ¬ (s.establish c a).Waits c := by
  rintro ⟨b, hb, hst⟩
  unfold Shared.establish at hb hst
  dsimp only at hb hst
  split at hst
  next hoff =>
    rw [if_pos hoff] at hb
    cases hf.symm.trans hb
    rw [Shared.flow, enqueue_flows, ← Shared.flow, set_state_flow_same] at hst
    cases hst
  next hoff =>
    rw [if_neg hoff] at hb
    cases hf.symm.trans hb
    rw [set_state_flow_same] at hst
    cases hst

/-- **A frame of another sender leaves a waiting flow as it is**, unless it ends the wait. -/
theorem transition (hs : Sound s) (h : Waiting s c d p) (hk : Keeps s l.mem)
    (hsrc : srcClient l.pkt.data ≠ c) (hdst : dstClient l.pkt.data = c → s'.Waits c)
    (ht : Transition l.rc l.mem l.pkt s s' cs) : Waiting s' c d p := by
  cases ht with
  | ignored | fin_unsent | forward | serve | resyn | reply => exact h
  | offload hf => exact h.set_state hs hsrc hf .OFFLOAD
  | unoffload hf => exact h.set_state hs hsrc hf .COMPLETE
  | @move a data _ hf _ _ hm =>
      have h' : Waiting (s.unoffload (srcClient l.pkt.data) a) c d p :=
        h.congr (unoffload_find ..) (fun _ _ => unoffload_flow ..) fun _ _ _ _ => by
          rw [unoffload_cached]
      have hf' := (unoffload_find s (srcClient l.pkt.data) a (srcClient l.pkt.data)).trans hf
      refine move (hs.unoffload _ _) h' (fun k b e hl => ?_) hsrc hf' hm
      simp only [unoffload_table, unoffload_flows] at e hl
      rw [unoffload_flow]
      exact hk k b e hl
  | @close_client a => exact h.close hsrc a
  | @close_backend a _ _ hf he =>
      refine h.close (fun hc => ?_) a
      obtain ⟨b, hb, hst⟩ := h.waits
      rw [hc, hb] at hf
      cases hf
      rcases he with he | he <;> cases hst.symm.trans he
  | @abandon a =>
      refine h.congr (by rw [Shared.find, release_table, Shared.find])
        (fun _ _ => release_flow ..) fun _ _ _ _ => ?_
      rw [release_cached, Traced.free_pkt_cell]
  | @syn_ack a _ _ hf =>
      have hdst : dstClient l.pkt.data ≠ c := fun hc => by
        subst hc
        exact not_waits_establish hf (hdst rfl)
      unfold Shared.establish
      dsimp only
      split
      · exact h.set_state hs hdst hf .OFFLOAD
      · exact h.set_state hs hdst hf .COMPLETE
  | create hn _ hc => exact h.create hs hk hsrc (hs.find_none hn) hc

/-- Frames of other clients leave a waiting flow as it is, in any order. -/
theorem run (hs : Sound s) (h : Waiting s c d p) {ls : List Recv}
    (hr : Steps (fun s l s' => Keeps s l.mem ∧ OtherStep c s l s') s ls s') :
    Sound s' ∧ Waiting s' c d p := by
  refine hr.inv (I := fun s => Sound s ∧ Waiting s c d p) (fun s l s' h hs => ?_) ⟨hs, h⟩
  obtain ⟨hk, hsrc, hdst, cs, hst⟩ := hs
  exact ⟨h.1.step ⟨hk, cs, hst⟩, h.2.transition h.1 hk hsrc (fun e => absurd e hdst) hst.transition⟩

/-! ### The SYN-ACK -/

/-- **What is sent when a packet to the client is handled** is the cached packet, for the backend the
flow waits for. -/
theorem cached (h : Waiting s c d p) (hst : FrontStep s l s' cs) (hdst : dstClient l.pkt.data = c)
    {d' : Byte} {m : Mem} {n : Nat} (hc : Call.send_cached_pkt d' m n ∈ cs) :
    d' = d ∧ n = p.data_len.toNat ∧ ∀ i, i < n → m i = p.data i := by
  obtain ⟨a, q, ha, -, rfl, hpq, hn, hi⟩ := h
  cases hst.transition with
  | ignored => cases hc
  | fin_unsent | forward | serve | offload | unoffload | abandon | resyn | reply | create =>
      cases List.mem_singleton.mp hc
  | move => simp at hc
  | close_client _ _ hcs =>
      rcases hcs with ⟨-, rfl⟩ | rfl <;> simp at hc
  | close_backend _ _ _ hcs =>
      rcases hcs with rfl | rfl <;> simp at hc
  | @syn_ack b q' _ hf _ hq =>
      rw [hdst, ha] at hf
      cases hf
      rw [hpq] at hq
      cases hq
      cases List.mem_singleton.mp hc
      exact ⟨rfl, hn, fun i hlt => hi i (hn ▸ hlt)⟩

/-- A SYN-ACK that is handled has the cached packet sent. -/
theorem answered (h : Waiting s c d p) (hst : FrontStep s l s' cs) (ht : isTcp l.pkt.data)
    (hsrc : s.find (srcClient l.pkt.data) = none) (hdst : dstClient l.pkt.data = c)
    (hf : tcp_flags l.pkt.data = TCP_ACK_FLAG ||| TCP_SYN_FLAG) :
    ∃ req n, cs = [.send_cached_pkt d req n] := by
  obtain ⟨a, q, ha, hstate, rfl, -⟩ := h
  obtain ⟨-, q', -, hcs⟩ := waiting_answered ⟨ht, hsrc, hdst ▸ ha⟩ hstate hf hst
  exact ⟨_, _, hcs⟩

end Waiting

/-- A packet that a frame is built for is a TCP segment. -/
theorem FrontStep.isTcp (h : FrontStep s l s' cs) (hc : cs ≠ []) : isTcp l.pkt.data := by
  obtain ⟨t, p, hd, -, hcs⟩ := h.proc
  by_contra ht
  refine hc ?_
  have hp : process_pkt l.rc l.mem l.pkt ⟨s, t⟩ = .next ⟨s, t⟩ := by
    unfold process_pkt process_pkt_within
    by_cases he : ether_type l.pkt.data = htons ETHER_TYPE_IPV4
    · rw [if_neg (not_not.mpr he), if_pos fun hn => ht ⟨he, hn⟩]
    · rw [if_pos he]
  rw [hp] at hd
  cases hd
  simpa using hcs

end Miresga.Frontend
