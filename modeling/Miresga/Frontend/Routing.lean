import Miresga.Frontend.BuilderSpec
import Miresga.Frontend.Ownership

/-!
# Frontend — routing

Every request reaches the backend its rule named when the request came in.  For a request that is
forwarded at once the rule is looked up on the spot.  A request that waits in a flow record for its
backend's SYN-ACK may be sent much later, under other rules; what has to stay in step is the cached
packet, its size and the record's `entry_data`.

`Sourced` says where a record's packet came from: a packet received earlier in the run, whose rule at
that moment was the record's `entry_data`.  It is a property of the state together with the packets
so far (`Traced`), kept by every step.
-/

namespace Miresga.Frontend

/-! ### Where a cached packet came from -/

/-- The packet cached for `f` was received in `ls`, when its rule was `f`'s data. -/
def Sourced (ls : List Recv) (s : Shared) (f : FlowData) : Prop :=
  ∀ q, f.recv_pkt = some q →
    ∃ l ∈ ls, rule l.rc l.pkt = some f.entry_data ∧ f.pkt_size = l.pkt.data_len.toNat ∧
      ∀ i, i < f.pkt_size → s.cached.cell q i = l.pkt.data i

/-- Every record of the table has a packet that was received. -/
def Traced (ls : List Recv) (s : Shared) : Prop :=
  ∀ k a, s.flow_hash_map k = some a → Sourced ls s (s.flow a)

variable {s s' : Shared} {ls : List Recv} {l : Recv}

/-- More packets come in, and the cached one stays as it is. -/
theorem Sourced.mono {f : FlowData} (h : Sourced ls s f)
    (hc : ∀ q, f.recv_pkt = some q → s'.cached.cell q = s.cached.cell q) :
    Sourced (ls ++ [l]) s' f := by
  intro q hq
  obtain ⟨l₀, hl, hr, hn, hi⟩ := h q hq
  refine ⟨l₀, List.mem_append_left _ hl, hr, hn, ?_⟩
  rw [hc q hq]
  exact hi

/-- The record of a packet that is being cached. -/
theorem Sourced.await {data : MyData} {q : Addr} {m : Mem} (hr : rule l.rc l.pkt = some data)
    (hq : s'.cached.cell q = m.copy l.pkt.data l.pkt.data_len.toNat) :
    Sourced (ls ++ [l]) s' (Shared.await data q l.pkt) := by
  intro q' hq'
  cases hq'
  refine ⟨l, by simp, hr, rfl, fun i hi => ?_⟩
  rw [hq, Mem.copy_apply]
  exact if_pos hi

namespace Traced

theorem initial (h : Initial s) : Traced [] s := fun k a e => by
  rw [h.table] at e
  cases e

/-- The table loses entries at most, and no record changes but in its state. -/
theorem mono (h : Traced ls s)
    (ht : ∀ k a, s'.flow_hash_map k = some a → s.flow_hash_map k = some a)
    (hf : ∀ a, ∃ st, s'.flow a = { s.flow a with state := st })
    (hc : s'.cached.cell = s.cached.cell) : Traced (ls ++ [l]) s' := by
  intro k a e
  obtain ⟨st, hst⟩ := hf a
  rw [hst]
  exact (h k a (ht k a e)).mono fun q _ => congrFun hc q

theorem set_state (h : Traced ls s) (a : Addr) (st : FlowState) :
    Traced (ls ++ [l]) (s.set_state a st) := by
  refine h.mono (fun _ _ e => e) (fun b => ?_) rfl
  by_cases hb : b = a
  · subst hb
    exact ⟨st, set_state_flow_same ..⟩
  · exact ⟨_, set_state_flow_other _ _ _ hb⟩

theorem free_pkt_cell (s : Shared) (a : Addr) : (s.free_pkt a).cached.cell = s.cached.cell := by
  unfold Shared.free_pkt
  split <;> rfl

theorem close (h : Traced ls s) (c : Client) (a : Addr) : Traced (ls ++ [l]) (s.close c a) := by
  refine h.mono (fun k b e => ?_) (fun b => ⟨(s.flow b).state, ?_⟩) ?_
  · by_cases hk : k = c.slot
    · subst hk
      rw [Shared.close, release_table, erase_same] at e
      cases e
    · rwa [Shared.close, release_table, erase_other _ _ hk, unoffload_table] at e
  · rw [Shared.close, release_flow]
    exact unoffload_flow ..
  · rw [Shared.close, release_cached, erase_free_pkt_cached, free_pkt_cell, unoffload_cached]

theorem move (hs : Sound s) (h : Traced ls s) {c : Client} {a : Addr} {data : MyData}
    (hk : Keeps s l.mem) (hf : s.find c = some a) (hr : rule l.rc l.pkt = some data)
    (hm : s.move a data l.mem.recv_pkt l.pkt = some s') : Traced (ls ++ [l]) s' := by
  obtain ⟨hl, ht, -, hfl, -, -, hcell⟩ := move_eq_some hm
  intro k b e
  rw [ht] at e
  by_cases hb : b = a
  · subst hb
    rw [Shared.flow, hfl, Heap.put_cell_same]
    exact .await hr (by rw [hcell, upd_same])
  · rw [Shared.flow, hfl, Heap.put_cell_other _ hb]
    refine (h k b e).mono fun q hq => ?_
    have hne : q ≠ l.mem.recv_pkt := fun hq' => hs.pkt_fresh_free hk hf hl e hb (hq' ▸ hq)
    rw [hcell, upd_other _ _ _ hne, free_pkt_cell]

theorem create (hs : Sound s) (h : Traced ls s) {c : Client} {data : MyData}
    (hk : Keeps s l.mem) (hn : s.find c = none) (hr : rule l.rc l.pkt = some data)
    (hc : s.create c data l.mem l.pkt = some s') : Traced (ls ++ [l]) s' := by
  obtain ⟨hlf, hlq, ht, -, -, -, -, hcell, -, hpkt⟩ := create_eq_some hc hn
  intro k b e
  rw [ht] at e
  by_cases hkc : k = c.slot
  · rw [hkc, upd_same] at e
    cases e
    rw [Shared.flow, hcell, upd_same]
    exact .await hr (by rw [hpkt, upd_same])
  · rw [upd_other _ _ _ hkc] at e
    rw [Shared.flow, hcell, upd_other _ _ _ (hk.flow_fresh hlf e)]
    refine (h k b e).mono fun q hq => ?_
    have hne : q ≠ l.mem.recv_pkt := fun hq' => hs.pkt_fresh hk hlq e (hq' ▸ hq)
    rw [hpkt, upd_other _ _ _ hne]

/-- **Every transition keeps the packets traced.** -/
theorem transition (hs : Sound s) (h : Traced ls s) {cs : List Call} (hk : Keeps s l.mem)
    (ht : Transition l.rc l.mem l.pkt s s' cs) : Traced (ls ++ [l]) s' := by
  cases ht with
  | ignored | fin_unsent | forward | serve | resyn | reply =>
      exact h.mono (fun _ _ e => e) (fun a => ⟨_, rfl⟩) rfl
  | @offload a => exact h.set_state a .OFFLOAD
  | @unoffload a => exact h.set_state a .COMPLETE
  | @move a data _ hf _ hr hm =>
      have h' : Traced ls (s.unoffload (srcClient l.pkt.data) a) := fun k b e => by
        rw [unoffload_table] at e
        rw [unoffload_flow]
        intro q hq
        rw [unoffload_cached]
        exact h k b e q hq
      have hf' := (unoffload_find s (srcClient l.pkt.data) a (srcClient l.pkt.data)).trans hf
      refine move (hs.unoffload _ _) h' (fun k b e hl => ?_) hf' hr hm
      simp only [unoffload_table, unoffload_flows] at e hl
      rw [unoffload_flow]
      exact hk k b e hl
  | @close_client a _ hf => exact h.close _ a
  | @close_backend a _ _ hf => exact h.close _ a
  | @abandon a =>
      refine h.mono (fun k b e => by rwa [release_table] at e) (fun b => ⟨_, release_flow ..⟩) ?_
      rw [release_cached, free_pkt_cell]
  | @syn_ack a =>
      unfold Shared.establish
      dsimp only
      split
      · exact h.set_state a .OFFLOAD
      · exact h.set_state a .COMPLETE
  | create hn hr hc => exact create hs h hk (hs.find_none hn) hr hc

/-- Along a run every cached packet is one that was received. -/
theorem run {s₀ : Shared} (h₀ : Initial s₀) (hr : Steps KeptStep s₀ ls s) : Traced ls s := by
  have h : Sound s ∧ Traced ls s :=
    hr.inv_trace (I := fun ls s => Sound s ∧ Traced ls s)
      (fun ls s l s' h hs => ⟨h.1.step hs, by
        obtain ⟨hk, cs, hs⟩ := hs
        exact transition h.1 h.2 hk hs.transition⟩)
      ⟨.initial h₀, .initial h₀⟩
  exact h.2

end Traced

/-! ### What the frames carry -/

/-- The backend index a call builds its frame for. -/
def Call.backend : Call → Option Byte
  | .forward_inbound_pkt d _ | .send_rst_pkt d _ | .send_cached_pkt d _ _ | .send_syn_pkt d _ => some d
  | .forward_outbound_pkt _ | .reply_rst_pkt _ => none

/-- How many bytes of a packet the call copies. -/
def Call.size : Call → Nat
  | .forward_inbound_pkt _ r | .forward_outbound_pkt r => r.data_len.toNat
  | .send_cached_pkt _ _ n => n
  | .reply_rst_pkt _ | .send_rst_pkt _ _ => 54
  | .send_syn_pkt _ _ => 66

/-- The frame `f` of the call carries TCP payload: the packet has bytes behind the smallest headers,
and the frame's own length fields, read with the TCP header at byte 34, leave room for payload. -/
def Call.CarriesPayload (c : Call) (f : Mbuf) : Prop :=
  54 < c.size ∧ payload_flag f.data = true

theorem SentTo.payload_flag {server : ServerInfo} {m : Mem} {n : Nat} {f : Mbuf}
    (h : SentTo server m n f) (hn : 54 ≤ n) : payload_flag f.data = payload_flag m := by
  rw [Frontend.payload_flag, header_size, tcp_hdr_len, doff, h.data_off hn, h.total_length hn]
  rfl

theorem SentTo.rst {server : ServerInfo} {m : Mem} {n : Nat} {f : Mbuf}
    (h : SentTo server m n f) (hn : 54 ≤ n) : rst f.data = rst m := by
  rw [Miresga.rst, h.tcp_flags hn, Miresga.rst]

/-- A SYN fills its total length with headers. -/
theorem SynOf.payload_flag {server : ServerInfo} {m : Mem} {f : Mbuf} (h : SynOf server m f) :
    payload_flag f.data = false := by
  rw [Frontend.payload_flag, header_size, tcp_hdr_len, doff, h.data_off, h.total_length]
  decide

/-- The frame is for `d`, and it is the packet of `l₀`, whose rule named `d`. -/
def RoutedBy (l₀ : Recv) (rc : RuleController) (d : Byte) (f : Mbuf) : Prop :=
  ∃ data server, rule l₀.rc l₀.pkt = some data ∧ data.d_index = d ∧
    rc.lookup_backend_server_info d = some server ∧
    SentTo server l₀.pkt.data l₀.pkt.data_len.toNat f

/-- A request that is forwarded at once is the one just received. -/
theorem routed_forward {data : MyData} {b f : Mbuf} {d : Byte} (hr : rule l.rc l.pkt = some data)
    (hd : data.d_index = d) (hb : (Call.forward_inbound_pkt d l.pkt).build l.rc b = some (.OK, f)) :
    ∃ l₀ ∈ ls ++ [l], RoutedBy l₀ l.rc d f := by
  obtain ⟨server, hs, hf⟩ := forward_inbound_sentTo hb
  exact ⟨l, by simp, data, server, hr, hd, hs, hf⟩

/-- A request that was cached is one received before. -/
theorem routed_cached {k : Slot} {a q : Addr} {b f : Mbuf} (h : Traced ls s)
    (ha : s.flow_hash_map k = some a) (hq : (s.flow a).recv_pkt = some q)
    (hb : (Call.send_cached_pkt (s.flow a).entry_data.d_index (s.cached.cell q)
      (s.flow a).pkt_size).build l.rc b = some (.OK, f)) :
    ∃ l₀ ∈ ls ++ [l], RoutedBy l₀ l.rc (s.flow a).entry_data.d_index f := by
  obtain ⟨l₀, hl, hr, hn, hi⟩ := h k a ha q hq
  obtain ⟨server, hs, hf⟩ := send_cached_sentTo hb
  refine ⟨l₀, List.mem_append_left _ hl, _, server, hr, rfl, hs, ⟨fun i hin => ?_, hf.2, hf.3⟩⟩
  rw [← hn] at hin
  rw [← hi i hin]
  exact hf.rest i hin

theorem with_rst_rst (p : Mbuf) : rst (with_rst p).data = true := by
  simp only [rst, tcp_flags, with_rst, Mem.st8_apply, if_true]
  decide

/-- **Routing.**  In every run, a frame that a step builds for the backend `d`, that carries TCP
payload and has no RST flag, is a packet of the run, received in this step or earlier, whose URL's
rule named `d` when it was received. -/
theorem routing_correct {s₀ : Shared} {cs : List Call} {c : Call} {d : Byte} {b f : Mbuf}
    (h₀ : Initial s₀) (hr : Steps KeptStep s₀ ls s) (hs : FrontStep s l s' cs) (hc : c ∈ cs)
    (hd : c.backend = some d) (hb : c.build l.rc b = some (.OK, f)) (hp : c.CarriesPayload f)
    (hrst : rst f.data = false) : ∃ l₀ ∈ ls ++ [l], RoutedBy l₀ l.rc d f := by
  have htr := Traced.run h₀ hr
  -- frames that do not count: those with RST, and those without payload
  have syn : ∀ {d r}, c ≠ .send_syn_pkt d r := fun {d r} e => by
    subst e
    obtain ⟨server, -, hf⟩ := send_syn_synOf hb
    rw [Call.CarriesPayload, hf.payload_flag] at hp
    cases hp.2
  have rst_pkt : ∀ {d r}, c ≠ .send_rst_pkt d r := fun {d r} e => by
    subst e
    rw [rst, send_rst_flags hb] at hrst
    cases hrst
  have fwd_rst : ∀ {d r}, rst r.data = true → c ≠ .forward_inbound_pkt d r := fun {d r} hr e => by
    subst e
    obtain ⟨server, -, hf⟩ := forward_inbound_sentTo hb
    rw [hf.rst (Nat.le_of_lt hp.1), hr] at hrst
    cases hrst
  cases hs.transition with
  | ignored => cases hc
  | fin_unsent | abandon | reply =>
      cases List.mem_singleton.mp hc
      cases hd
  | forward _ _ hnp =>
      cases List.mem_singleton.mp hc
      obtain ⟨server, -, hf⟩ := forward_inbound_sentTo hb
      rw [Call.CarriesPayload, hf.payload_flag (Nat.le_of_lt hp.1), hnp] at hp
      cases hp.2
  | serve _ _ hr hd' | offload _ _ hr hd' | unoffload _ _ hr hd' =>
      cases List.mem_singleton.mp hc
      cases hd
      exact routed_forward hr hd' hb
  | move =>
      rcases List.mem_pair.mp hc with e | e
      · exact absurd e rst_pkt
      · exact absurd e syn
  | close_client _ _ hcs =>
      rcases hcs with ⟨hr, rfl⟩ | rfl
      · exact absurd (List.mem_singleton.mp hc) (fwd_rst hr)
      · rcases List.mem_pair.mp hc with e | e
        · cases e
          cases hd
        · exact absurd e (fwd_rst (with_rst_rst l.pkt))
  | resyn | create => exact absurd (List.mem_singleton.mp hc) syn
  | syn_ack _ hf _ hq =>
      cases List.mem_singleton.mp hc
      cases hd
      exact routed_cached htr hf hq hb
  | close_backend _ _ _ hcs =>
      rcases hcs with rfl | rfl
      · cases List.mem_singleton.mp hc
        cases hd
      · rcases List.mem_pair.mp hc with e | e
        · cases e
          cases hd
        · cases e
          cases hd

/-- The request that waited for the SYN-ACK is sent to the server its rule named. -/
theorem routing_correct_sample :
    ∃ s s' c f, Steps KeptStep sampleStart (sampleMoves.take 1) s ∧
      FrontStep s (sampleRecv sampleSynAck 1) s' [c] ∧ c.backend = some 1 ∧
      c.build sampleRules (.ofBytes []) = some (.OK, f) ∧ c.CarriesPayload f ∧
      rst f.data = false ∧
      ∃ l₀ ∈ sampleMoves.take 1 ++ [sampleRecv sampleSynAck 1], RoutedBy l₀ sampleRules 1 f := by
  have hr : (((sampleMoves.take 1).foldlM handleTidy sampleStart).bind fun s =>
      (handleCalls s (sampleRecv sampleSynAck 1)).map fun r => r.2.map fun c =>
        (c.backend, c.size, decide (((c.build sampleRules (.ofBytes [])).map fun o =>
          (o.1, payload_flag o.2.data, rst o.2.data)) = some (.OK, true, false))))
      = some [(some 1, 61, true)] := by decide +kernel
  obtain ⟨s, hs, hr⟩ := Option.bind_eq_some_iff.mp hr
  obtain ⟨⟨s', cs⟩, hc, hcs⟩ := Option.map_eq_some_iff.mp hr
  obtain ⟨c, rfl, he⟩ := List.map_eq_singleton_iff.mp hcs
  simp only [Prod.mk.injEq, decide_eq_true_eq, Option.map_eq_some_iff] at he
  obtain ⟨hd, hn, ⟨st, f⟩, hb, rfl, hp, hrst⟩ := he
  have hk := (Tidy.kept_run sampleStart_initial
    (.of_foldlM (R := TidyStep) (fun _ _ _ => handleTidy_step) hs)).2
  have hf := handleCalls_step hc
  have hpay : c.CarriesPayload f := ⟨by omega, hp⟩
  exact ⟨s, s', c, f, hk, hf, hd, hb, hpay, hrst,
    routing_correct sampleStart_initial hk hf (by simp) hd hb hpay hrst⟩

end Miresga.Frontend
