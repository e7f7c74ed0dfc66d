import Miresga.Frontend.Run

/-!
# Frontend — who owns a flow record

`Owned` is what the release of records rests on: every record in the table is live, and so is its
cached packet, no two keys lead to one record, and nothing was released twice.  One branch breaks
it: a client that sends FIN or RST while its flow waits for the backend (`abandons`) has its record
released, and its table entry stays.  The branches for an established flow erase the entry first.

In a run without that event every state is `Owned`, whatever the allocator returns; with it, the
next packet of the client follows a dangling pointer, and a second RST releases the record again.
-/

namespace Miresga.Frontend

/-- Every record in the table is live with its packet, and nothing was released twice. -/
structure Owned (s : Shared) : Prop where
  live : ∀ k a, s.flow_hash_map k = some a → s.flows.live a = true
  pkt_live : ∀ k a q, s.flow_hash_map k = some a → (s.flow a).recv_pkt = some q →
    s.cached.live q = true
  inj : ∀ k k' a, s.flow_hash_map k = some a → s.flow_hash_map k' = some a → k = k'
  flows_once : s.flows.double = false
  cached_once : s.cached.double = false

/-- A FIN or RST of a client whose flow waits for the backend. -/
def abandons (s : Shared) (p : Mbuf) : Bool :=
  match s.find (srcClient p.data) with
  | none => false
  | some a =>
    isTcp p.data && (s.flow a).state == .BACKEND_SYN && (fin p.data || rst p.data)

/-- A step in which no client gives up a flow that waits for the backend. -/
def TidyStep (s : Shared) (l : Recv) (s' : Shared) : Prop :=
  abandons s l.pkt = false ∧ ∃ cs, FrontStep s l s' cs

/-- The invariant: `Owned` on top of `Sound`. -/
structure Tidy (s : Shared) : Prop extends Sound s where
  live : ∀ {k a}, s.flow_hash_map k = some a → s.flows.live a = true
  flows_once : s.flows.double = false
  cached_once : s.cached.double = false

namespace Tidy

variable {s s' : Shared} {c : Client} {a : Addr}

theorem initial (h : Initial s) : Tidy s where
  toSound := .initial h
  live e := by rw [h.table] at e; cases e
  flows_once := h.flows
  cached_once := h.cached

theorem owned (h : Tidy s) : Owned s where
  live _ _ e := h.live e
  pkt_live _ _ _ e hq := h.pkt_live e (h.live e) hq
  inj _ _ _ e e' := h.inj e e'
  flows_once := h.flows_once
  cached_once := h.cached_once

/-- With all records live, the allocator cannot return one of theirs. -/
theorem keeps (h : Tidy s) (mem : Alloc) : Keeps s mem := fun k b e hl => by
  rw [h.live e] at hl
  cases hl

/-- A packet is released once: it was live. -/
theorem free_pkt_double (h : Tidy s) (hf : s.find c = some a) :
    (s.free_pkt a).cached.double = false := by
  unfold Shared.free_pkt
  split
  · exact h.cached_once
  next q hq => exact (Heap.free_double (h.pkt_live hf (h.live hf) hq)).trans h.cached_once

theorem set_state (h : Tidy s) (a : Addr) (st : FlowState) (hst : st ≠ .INIT) :
    Tidy (s.set_state a st) :=
  ⟨h.toSound.set_state a st hst, h.live, h.flows_once, h.cached_once⟩

theorem enqueue (h : Tidy s) (e : Enq) : Tidy (s.enqueue e) :=
  ⟨h.toSound.enqueue e, h.live, h.flows_once, h.cached_once⟩

theorem unoffload (h : Tidy s) (c : Client) (a : Addr) : Tidy (s.unoffload c a) where
  toSound := h.toSound.unoffload c a
  live e := by
    simp only [unoffload_table, unoffload_flows] at e ⊢
    exact h.live e
  flows_once := by rw [unoffload_flows]; exact h.flows_once
  cached_once := by rw [unoffload_cached]; exact h.cached_once

/-- The record is released, and no entry leads to it any more. -/
theorem close (h : Tidy s) (hf : s.find c = some a) : Tidy (s.close c a) where
  toSound := h.toSound.close hf
  live {k b} e := by
    have hk : k ≠ c.slot := fun hk => by
      subst hk; simp [Shared.close] at e
    rw [Shared.close, release_table, erase_other _ _ hk, unoffload_table] at e
    have hne : b ≠ a := fun hb => hk (h.inj (hb ▸ e) hf)
    rw [Shared.close, release_flows, Heap.free_live_other hne, erase_flows, unoffload_flows]
    exact h.live e
  flows_once := by
    rw [Shared.close, release_flows, erase_flows, unoffload_flows, Heap.free_double (h.live hf)]
    exact h.flows_once
  cached_once := by
    rw [Shared.close, release_cached, erase_free_pkt_cached]
    exact (h.unoffload c a).free_pkt_double ((unoffload_find ..).trans hf)

theorem move (h : Tidy s) {data : MyData} {mem : Alloc} {p : Mbuf} (hf : s.find c = some a)
    (hm : s.move a data mem.recv_pkt p = some s') : Tidy s' := by
  obtain ⟨-, ht, -, hfl, hd, -⟩ := move_eq_some hm
  refine ⟨h.toSound.move (h.keeps mem) hf hm, fun e => ?_, ?_, ?_⟩
  · rw [ht] at e
    rw [hfl, Heap.put_live]
    exact h.live e
  · rw [hfl, Heap.put_double]
    exact h.flows_once
  · rw [hd]
    exact h.free_pkt_double hf

theorem create (h : Tidy s) {data : MyData} {mem : Alloc} {p : Mbuf} (hn : s.find c = none)
    (hc : s.create c data mem p = some s') : Tidy s' := by
  obtain ⟨-, -, ht, -, hfd, hcd, hfl, -⟩ := create_eq_some hc hn
  refine ⟨h.toSound.create (h.keeps mem) hn hc, fun {k b} e => ?_, ?_, ?_⟩
  · rw [hfl]
    by_cases hb : b = mem.flow_data
    · rw [hb, upd_same]
    · have hk : k ≠ c.slot := fun hk => by
        rw [ht, hk, upd_same] at e
        exact hb (Option.some.inj e).symm
      rw [ht, upd_other _ _ _ hk] at e
      rw [upd_other _ _ _ hb]
      exact h.live e
  · rw [hfd]; exact h.flows_once
  · rw [hcd]; exact h.cached_once

/-- Every transition but the one for an abandoned flow keeps the table tidy. -/
theorem transition (h : Tidy s) {rc : RuleController} {mem : Alloc} {p : Mbuf} {cs : List Call}
    (ha : abandons s p = false) (ht : Transition rc mem p s s' cs) : Tidy s' := by
  cases ht with
  | ignored | fin_unsent | forward | serve | resyn | reply => exact h
  | @offload a => exact (h.set_state a .OFFLOAD nofun).enqueue _
  | @unoffload a => exact (h.set_state a .COMPLETE nofun).enqueue _
  | @move a _ _ hf _ _ hm =>
      exact (h.unoffload (srcClient p.data) a).move ((unoffload_find ..).trans hf) hm
  | close_client hf | close_backend _ hf => exact h.close hf
  | abandon hp hf hs hfr =>
      simp [abandons, hf, hp, hs, hfr] at ha
  | @syn_ack a =>
      unfold Shared.establish
      dsimp only
      split
      · exact (h.set_state a .OFFLOAD nofun).enqueue _
      · exact h.set_state a .COMPLETE nofun
  | create hn _ hc => exact h.create (h.find_none hn) hc

theorem step (h : Tidy s) {l : Recv} (hs : TidyStep s l s') : Tidy s' := by
  obtain ⟨ha, cs, hs⟩ := hs
  exact h.transition ha hs.transition

/-- A tidy run is one in which released records keep their contents: there are none. -/
theorem kept_run {s₀ : Shared} {ls : List Recv} (h₀ : Initial s₀)
    (hr : Steps TidyStep s₀ ls s) : Tidy s ∧ Steps KeptStep s₀ ls s := by
  induction hr with
  | refl => exact ⟨.initial h₀, .refl⟩
  | more _ h ih => exact ⟨ih.1.step h, ih.2.more ⟨ih.1.keeps _, h.2⟩⟩

end Tidy

/-- **Ownership.**  In every run in which no client sends FIN or RST while its flow waits for the
backend, every state is owned. -/
theorem owned_of_tidy_run {s₀ s : Shared} {ls : List Recv} (h₀ : Initial s₀)
    (hr : Steps TidyStep s₀ ls s) : Owned s := by
  exact (Tidy.kept_run h₀ hr).1.owned

/-! ### A flow that is abandoned -/

/-- The rule `a` leads to server 1 and the rules `b` and `c` to server 2; flows of `a` and `c` are
offloaded. -/
def sampleRules : RuleController where
  rule_map url :=
    if url = [0x61] then some ⟨1, 1⟩ else if url = [0x62] then some ⟨0, 2⟩
    else if url = [0x63] then some ⟨1, 2⟩ else none
  d_index_map d :=
    if d = 1 then some ⟨sampleMac 1, 0x0A000101, 8081⟩
    else if d = 2 then some ⟨sampleMac 2, 0x0A000102, 8082⟩ else none
  virtual_server_info := ⟨sampleMac 3, 0x0A000001, 80⟩

/-- A segment of the client to the virtual server. -/
def sampleIn (flags : Byte) (payload : List Byte) : Mbuf :=
  .ofBytes (headers (0xC0A80002, 40000) (0x0A000001, 80) 1000 5000 flags (40 + payload.length)
    ++ payload)

/-- A segment without payload of a server to the client. -/
def sampleOut (server : BitVec 32 × BitVec 16) (flags : Byte) : Mbuf :=
  .ofBytes (headers server (0xC0A80002, 40000) 70000 1000 flags 40)

/-- The client's request for the one-letter URL. -/
def sampleRequest (url : Byte) : Mbuf :=
  sampleIn TCP_ACK_FLAG [0x47, 0x45, 0x54, 0x20, 0x2f, url, 0x20]

def sampleClient : Client := srcClient (sampleRequest 0x61).data

/-- The packet under the sample rules, with the allocator's next addresses. -/
def sampleRecv (p : Mbuf) (n : Addr) : Recv := ⟨sampleRules, p, ⟨n, n⟩⟩

def sampleStart : Shared :=
  ⟨fun _ => none, .empty ⟨.INIT, ⟨0, 0⟩, none, 0⟩, .empty fun _ => 0, []⟩

theorem sampleStart_initial : Initial sampleStart := ⟨fun _ => rfl, rfl, rfl, rfl⟩

/-- An executable `TidyStep`. -/
def handleTidy (s : Shared) (l : Recv) : Option Shared :=
  if abandons s l.pkt then none else handle s l

theorem handleTidy_step {s s' : Shared} {l : Recv} (h : handleTidy s l = some s') :
    TidyStep s l s' := by
  unfold handleTidy at h
  split at h
  · cases h
  next ha => exact ⟨by simpa using ha, handle_step h⟩

/-- The SYN-ACK of server 1. -/
def sampleSynAck : Mbuf := sampleOut (0x0A000101, 8081) (TCP_SYN_FLAG ||| TCP_ACK_FLAG)

/-- A request, the backend's SYN-ACK, and the request that moves the flow to the other server. -/
def sampleMoves : List Recv :=
  [sampleRecv (sampleRequest 0x61) 0,
    sampleRecv sampleSynAck 1,
    sampleRecv (sampleRequest 0x62) 1]

theorem owned_of_tidy_run_sample :
    ∃ s, Steps TidyStep sampleStart sampleMoves s ∧ s.find sampleClient = some 0 ∧
      (s.flow 0).recv_pkt = some 1 ∧ Owned s := by
  have hr : ((sampleMoves.foldlM handleTidy sampleStart).map fun s =>
      (s.find sampleClient, (s.flow 0).recv_pkt)) = some (some 0, some 1) := by decide +kernel
  obtain ⟨s, hs, he⟩ := Option.map_eq_some_iff.mp hr
  have hr := Steps.of_foldlM (R := TidyStep) (fun _ _ _ => handleTidy_step) hs
  rw [Prod.mk.injEq] at he
  exact ⟨s, hr, he.1, he.2, owned_of_tidy_run sampleStart_initial hr⟩

/-- The client resets its connection while the flow waits for the backend, twice. -/
def sampleAbandoned : List Recv :=
  [sampleRecv (sampleRequest 0x61) 0, sampleRecv (sampleIn TCP_RST_FLAG []) 1,
    sampleRecv (sampleIn TCP_RST_FLAG []) 1]

/-- After the first RST the table leads to a released record; the second releases it again. -/
theorem abandoned_not_owned :
    ∃ s₁ s₂, Initial sampleStart ∧
      Steps (fun s l s' => ∃ cs, FrontStep s l s' cs) sampleStart (sampleAbandoned.take 2) s₁ ∧
      s₁.find sampleClient = some 0 ∧ s₁.flows.live 0 = false ∧ ¬ Owned s₁ ∧
      Steps (fun s l s' => ∃ cs, FrontStep s l s' cs) sampleStart sampleAbandoned s₂ ∧
      s₂.flows.double = true ∧ s₂.cached.double = true := by
  have h₁ : (((sampleAbandoned.take 2).foldlM handle sampleStart).map fun s =>
      (s.find sampleClient, s.flows.live 0)) = some (some 0, false) := by decide +kernel
  have h₂ : ((sampleAbandoned.foldlM handle sampleStart).map fun s =>
      (s.flows.double, s.cached.double)) = some (true, true) := by decide +kernel
  obtain ⟨s₁, hs₁, he₁⟩ := Option.map_eq_some_iff.mp h₁
  obtain ⟨s₂, hs₂, he₂⟩ := Option.map_eq_some_iff.mp h₂
  rw [Prod.mk.injEq] at he₁ he₂
  refine ⟨s₁, s₂, sampleStart_initial, .of_foldlM (fun _ _ _ => handle_step) hs₁, he₁.1, he₁.2, ?_,
    .of_foldlM (fun _ _ _ => handle_step) hs₂, he₂⟩
  intro h
  have hl := h.live _ _ he₁.1
  rw [he₁.2] at hl
  cases hl

end Miresga.Frontend
