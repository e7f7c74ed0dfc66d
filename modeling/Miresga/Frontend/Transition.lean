import Miresga.Frontend.Process

/-!
# Frontend — the transitions of the flow table

`Transition` lists what one packet can do: how the shared state changes, under which guards, and
which builder calls fill counted send buffers.  `process_pkt_takes` says that the loop body
does nothing else, on every path that ends in `continue` or in an early return.  Every invariant of
the flow table is proved over `Transition`, not over the loop body.
-/

namespace Miresga.Frontend

/-- The flow's backend connection is up. -/
def FlowData.Established (f : FlowData) : Prop := f.state = .COMPLETE ∨ f.state = .OFFLOAD

/-- The source of the packet leads to no state of the `switch`. -/
def Shared.SrcFree (s : Shared) (c : Client) : Prop :=
  ∀ a, s.find c = some a → (s.flow a).state = .INIT

/-- The rule for the packet's URL. -/
def rule (rc : RuleController) (p : Mbuf) : Option MyData :=
  rc.lookup_balancing_rule (url_copy p.data)

/-- What the packet `p` can do to the shared state, with the builder calls it makes. -/
inductive Transition (rc : RuleController) (mem : Alloc) (p : Mbuf) (s : Shared) :
    Shared → List Call → Prop where
  | ignored : Transition rc mem p s s []
  /-- A client's FIN whose backend is unknown: `process_pkts` returns after the reply. -/
  | fin_unsent {a : Addr} (hf : s.find (srcClient p.data) = some a) (hfin : fin p.data = true) :
      Transition rc mem p s s [.reply_rst_pkt p]
  | forward {a : Addr} (hf : s.find (srcClient p.data) = some a) (he : (s.flow a).Established)
      (hp : payload_flag p.data = false) :
      Transition rc mem p s s [.forward_inbound_pkt (s.flow a).entry_data.d_index p]
  | serve {a : Addr} {data : MyData} (hf : s.find (srcClient p.data) = some a)
      (he : (s.flow a).Established) (hr : rule rc p = some data)
      (hd : data.d_index = (s.flow a).entry_data.d_index) :
      Transition rc mem p s s [.forward_inbound_pkt (s.flow a).entry_data.d_index p]
  | offload {a : Addr} {data : MyData} (hf : s.find (srcClient p.data) = some a)
      (hs : (s.flow a).state = .COMPLETE) (hr : rule rc p = some data)
      (hd : data.d_index = (s.flow a).entry_data.d_index) :
      Transition rc mem p s
        ((s.set_state a .OFFLOAD).enqueue
          (.add ⟨(srcClient p.data).my_key, (s.flow a).entry_data⟩))
        [.forward_inbound_pkt (s.flow a).entry_data.d_index p]
  | unoffload {a : Addr} {data : MyData} (hf : s.find (srcClient p.data) = some a)
      (hs : (s.flow a).state = .OFFLOAD) (hr : rule rc p = some data)
      (hd : data.d_index = (s.flow a).entry_data.d_index) :
      Transition rc mem p s
        ((s.set_state a .COMPLETE).enqueue (.del (srcClient p.data).my_key))
        [.forward_inbound_pkt (s.flow a).entry_data.d_index p]
  | move {a : Addr} {data : MyData} {s' : Shared} (hf : s.find (srcClient p.data) = some a)
      (he : (s.flow a).Established) (hr : rule rc p = some data)
      (hm : (s.unoffload (srcClient p.data) a).move a data mem.recv_pkt p = some s') :
      Transition rc mem p s s'
        [.send_rst_pkt (s.flow a).entry_data.d_index p, .send_syn_pkt data.d_index p]
  | close_client {a : Addr} {cs : List Call} (hf : s.find (srcClient p.data) = some a)
      (he : (s.flow a).Established)
      (hcs : rst p.data = true ∧ cs = [.forward_inbound_pkt (s.flow a).entry_data.d_index p] ∨
        cs = [.reply_rst_pkt p,
          .forward_inbound_pkt (s.flow a).entry_data.d_index (with_rst p)]) :
      Transition rc mem p s (s.close (srcClient p.data) a) cs
  | abandon {a : Addr} (hp : isTcp p.data) (hf : s.find (srcClient p.data) = some a)
      (hs : (s.flow a).state = .BACKEND_SYN) (hfr : (fin p.data || rst p.data) = true) :
      Transition rc mem p s (s.release a) [.reply_rst_pkt p]
  | resyn {a q : Addr} (hf : s.find (srcClient p.data) = some a)
      (hs : (s.flow a).state = .BACKEND_SYN) (hq : (s.flow a).recv_pkt = some q)
      (hseq : sent_seq (s.cached.cell q) = sent_seq p.data) :
      Transition rc mem p s s [.send_syn_pkt (s.flow a).entry_data.d_index p]
  | syn_ack {a q : Addr} (hn : s.SrcFree (srcClient p.data))
      (hf : s.find (dstClient p.data) = some a) (hs : (s.flow a).state = .BACKEND_SYN)
      (hq : (s.flow a).recv_pkt = some q) :
      Transition rc mem p s (s.establish (dstClient p.data) a)
        [.send_cached_pkt (s.flow a).entry_data.d_index (s.cached.cell q) (s.flow a).pkt_size]
  | reply {a : Addr} (hn : s.SrcFree (srcClient p.data))
      (hf : s.find (dstClient p.data) = some a) (he : (s.flow a).Established) :
      Transition rc mem p s s [.forward_outbound_pkt p]
  | close_backend {a : Addr} {cs : List Call} (hn : s.SrcFree (srcClient p.data))
      (hf : s.find (dstClient p.data) = some a) (he : (s.flow a).Established)
      (hcs : cs = [.forward_outbound_pkt p] ∨
        cs = [.reply_rst_pkt p, .forward_outbound_pkt (with_rst p)]) :
      Transition rc mem p s (s.close (dstClient p.data) a) cs
  | create {data : MyData} {s' : Shared} (hn : s.SrcFree (srcClient p.data))
      (hr : rule rc p = some data)
      (hc : s.create (srcClient p.data) data mem p = some s') :
      Transition rc mem p s s' [.send_syn_pkt data.d_index p]

/-! ### Calls -/

/-- The loop body is done with the packet and leaves `s'`. -/
inductive Outcome.Done : Outcome → Proc → Prop where
  | next (s : Proc) : Done (.next s) s
  | ret (st : Status) (s : Proc) : Done (.ret st s) s

/-- The calls behind the counted send buffers. -/
def Sends.calls (t : Sends) : List Call := t.built.map Prod.snd

@[simp] theorem filled_shared (s : Proc) (c : Call) (b : Mbuf) :
    (s.filled c b).shared = s.shared := rfl

@[simp] theorem filled_calls (s : Proc) (c : Call) (b : Mbuf) :
    (s.filled c b).sends.calls = s.sends.calls ++ [c] := by
  simp [Proc.filled, Sends.calls]

@[simp] theorem bump_shared (s : Proc) : s.bump.shared = s.shared := rfl

@[simp] theorem bump_calls (s : Proc) : s.bump.sends.calls = s.sends.calls := rfl

@[simp] theorem on_shared (s : Proc) (f : Shared → Shared) : (s.on f).shared = f s.shared := rfl

@[simp] theorem on_calls (s : Proc) (f : Shared → Shared) :
    (s.on f).sends.calls = s.sends.calls := rfl

/-- Only `forward_inbound_pkt` ever returns an error. -/
theorem build_status {rc : RuleController} {b b' : Mbuf} {c : Call} {st : Status}
    (h : c.build rc b = some (st, b')) : st = .OK ∨ ∃ d r, c = .forward_inbound_pkt d r := by
  cases c with
  | forward_inbound_pkt d r => exact .inr ⟨d, r, rfl⟩
  | forward_outbound_pkt r => exact .inl (by cases h; rfl)
  | reply_rst_pkt r => exact .inl (by cases h; rfl)
  | send_rst_pkt d r | send_cached_pkt d c n | send_syn_pkt d r =>
      simp only [Call.build, send_rst_pkt, send_cached_pkt, send_syn_pkt] at h
      split at h
      · cases h
      · cases h; exact .inl rfl

/-- A call that comes back either filled the buffer and went on, or failed and returned. -/
theorem call_done {rc : RuleController} {s s' : Proc} {c : Call} {k : Proc → Outcome}
    (h : (call rc s c k).Done s') :
    (∃ b, (k (s.filled c b)).Done s') ∨
      (s'.shared = s.shared ∧ s'.sends.calls = s.sends.calls ∧
        ∃ d r, c = .forward_inbound_pkt d r) := by
  unfold call at h
  split at h
  · cases h
  · exact .inl ⟨_, h⟩
  next st b hne hb =>
    cases h
    refine .inr ⟨rfl, rfl, ?_⟩
    rcases build_status hb with rfl | hc
    · exact absurd rfl hne
    · exact hc

/-- A call of any other builder that comes back filled its buffer. -/
theorem call_done_ok {rc : RuleController} {s s' : Proc} {c : Call} {k : Proc → Outcome}
    (h : (call rc s c k).Done s') (hc : ∀ d r, c ≠ .forward_inbound_pkt d r) :
    ∃ b, (k (s.filled c b)).Done s' := by
  rcases call_done h with h | ⟨-, -, d, r, he⟩
  · exact h
  · exact absurd he (hc d r)

/-- Without a fence, a copy that fits is made. -/
theorem copy_url_fits {p : Mbuf} (h : url_fits p.data = true) (k : List Byte → Outcome) :
    copy_url none p k = k (url_copy p.data) := if_pos h

theorem copy_url_overflow {p : Mbuf} (h : url_fits p.data = false) (fence : Option Nat)
    (k : List Byte → Outcome) : copy_url fence p k = .overflow := by
  rw [copy_url, h, if_neg Bool.false_ne_true]

/-- A copy that does not end in an overflow fitted. -/
theorem copy_url_ne {p : Mbuf} {k : List Byte → Outcome} (h : copy_url none p k ≠ .overflow) :
    url_fits p.data = true ∧ copy_url none p k = k (url_copy p.data) := by
  cases hfits : url_fits p.data with
  | false => exact absurd (copy_url_overflow hfits none k) h
  | true => exact ⟨rfl, copy_url_fits hfits k⟩

theorem copy_url_next {y : Proc} {p : Mbuf} {k : List Byte → Outcome}
    (h : copy_url none p k = .next y) : url_fits p.data = true ∧ k (url_copy p.data) = .next y := by
  obtain ⟨hfits, hk⟩ := copy_url_ne (by rw [h]; nofun)
  exact ⟨hfits, hk.symm.trans h⟩

theorem copy_url_done {s' : Proc} {p : Mbuf} {k : List Byte → Outcome}
    (h : (copy_url none p k).Done s') : url_fits p.data = true ∧ (k (url_copy p.data)).Done s' := by
  obtain ⟨hfits, hk⟩ := copy_url_ne (fun e => by rw [e] at h; cases h)
  exact ⟨hfits, hk ▸ h⟩

/-! ### The loop body takes transitions -/

/-- The step from `s` to `s'` is a transition, and the calls it adds are the transition's. -/
def Takes (rc : RuleController) (mem : Alloc) (p : Mbuf) (s s' : Proc) : Prop :=
  ∃ cs, Transition rc mem p s.shared s'.shared cs ∧ s'.sends.calls = s.sends.calls ++ cs

variable {rc : RuleController} {mem : Alloc} {p : Mbuf} {s s' : Proc} {a : Addr}

theorem Takes.same (hs : s'.shared = s.shared) (hc : s'.sends.calls = s.sends.calls) :
    Takes rc mem p s s' :=
  ⟨[], by rw [hs]; exact .ignored, by simp [hc]⟩

theorem client_payload_takes (hf : s.shared.find (srcClient p.data) = some a)
    (he : (s.shared.flow a).Established) (h : (client_payload none rc mem p s a).Done s') :
    Takes rc mem p s s' := by
  unfold client_payload at h
  dsimp only at h
  split at h
  · cases h; exact .same rfl rfl
  obtain ⟨-, h⟩ := copy_url_done h
  split at h
  · cases h; exact .same rfl rfl
  next data hr =>
    split at h
    · obtain ⟨b, h⟩ := call_done_ok h nofun
      obtain ⟨b', h⟩ := call_done_ok h nofun
      split at h
      · cases h
      next t ht =>
        cases h
        refine ⟨_, .move hf he hr ht, ?_⟩
        simp
    next hd =>
      have hd : data.d_index = (s.shared.flow a).entry_data.d_index := not_not.mp hd
      rcases call_done h with ⟨b, h⟩ | ⟨hs, hc, -⟩
      · split_ifs at h with hoff hun
        · cases h
          exact ⟨_, .offload hf hoff.1 hr hd, by simp⟩
        · cases h
          exact ⟨_, .unoffload hf hun.1 hr hd, by simp⟩
        · cases h
          exact ⟨_, .serve hf he hr hd, by simp⟩
      · exact .same hs hc

theorem client_established_takes (hf : s.shared.find (srcClient p.data) = some a)
    (he : (s.shared.flow a).Established) (h : (client_established none rc mem p s a).Done s') :
    Takes rc mem p s s' := by
  unfold client_established at h
  dsimp only at h
  split_ifs at h with hr hfin hp
  · rcases call_done h with ⟨b, h⟩ | ⟨hs, hc, -⟩
    · cases h
      exact ⟨_, .close_client hf he (.inl ⟨hr, rfl⟩), by simp⟩
    · exact .same hs hc
  · obtain ⟨b, h⟩ := call_done_ok h nofun
    rcases call_done h with ⟨b', h⟩ | ⟨hs, hc, -⟩
    · cases h
      exact ⟨_, .close_client hf he (.inr rfl), by simp⟩
    · refine ⟨[.reply_rst_pkt p], ?_, hc.trans (by simp)⟩
      rw [hs]
      exact .fin_unsent hf hfin
  · exact client_payload_takes hf he h
  · rcases call_done h with ⟨b, h⟩ | ⟨hs, hc, -⟩
    · cases h
      exact ⟨_, .forward hf he (by simpa using hp), by simp⟩
    · exact .same hs hc

theorem client_backend_syn_takes (hp : isTcp p.data)
    (hf : s.shared.find (srcClient p.data) = some a) (hst : (s.shared.flow a).state = .BACKEND_SYN)
    (h : (client_backend_syn rc p s a).Done s') : Takes rc mem p s s' := by
  unfold client_backend_syn at h
  dsimp only at h
  split at h
  next hfr =>
    obtain ⟨b, h⟩ := call_done_ok h nofun
    cases h
    exact ⟨_, .abandon hp hf hst hfr, by simp⟩
  · split at h
    · cases h; exact .same rfl rfl
    next q hq =>
      split at h
      next hseq =>
        obtain ⟨b, h⟩ := call_done_ok h nofun
        cases h
        exact ⟨_, .resyn hf hst hq hseq, by simp⟩
      · cases h; exact .same rfl rfl

theorem establish_cached (h : Shared) (c : Client) : (h.establish c a).cached = h.cached := by
  unfold Shared.establish
  dsimp only
  split <;> rfl

theorem backend_syn_ack_takes (hn : s.shared.SrcFree (srcClient p.data))
    (hf : s.shared.find (dstClient p.data) = some a)
    (hst : (s.shared.flow a).state = .BACKEND_SYN) (h : (backend_syn_ack rc p s a).Done s') :
    Takes rc mem p s s' := by
  unfold backend_syn_ack at h
  dsimp only at h
  split at h
  · cases h; exact .same rfl rfl
  split at h
  · cases h
  next q hq =>
    obtain ⟨b, h⟩ := call_done_ok h nofun
    cases h
    refine ⟨_, .syn_ack hn hf hst hq, ?_⟩
    simp [establish_cached]

theorem backend_established_takes (hn : s.shared.SrcFree (srcClient p.data))
    (hf : s.shared.find (dstClient p.data) = some a) (he : (s.shared.flow a).Established)
    (h : (backend_established rc p s a).Done s') : Takes rc mem p s s' := by
  unfold backend_established at h
  dsimp only at h
  split_ifs at h with hr hfin
  · obtain ⟨b, h⟩ := call_done_ok h nofun
    cases h
    exact ⟨_, .close_backend hn hf he (.inl rfl), by simp⟩
  · obtain ⟨b, h⟩ := call_done_ok h nofun
    obtain ⟨b', h⟩ := call_done_ok h nofun
    cases h
    exact ⟨_, .close_backend hn hf he (.inr rfl), by simp⟩
  · obtain ⟨b, h⟩ := call_done_ok h nofun
    cases h
    exact ⟨_, .reply hn hf he, by simp⟩

theorem new_flow_takes (hn : s.shared.SrcFree (srcClient p.data))
    (h : (new_flow none rc mem p s).Done s') : Takes rc mem p s s' := by
  unfold new_flow at h
  split_ifs at h
  · cases h; exact .same rfl rfl
  · cases h; exact .same rfl rfl
  obtain ⟨-, h⟩ := copy_url_done h
  split at h
  · cases h; exact .same rfl rfl
  next data hr =>
    obtain ⟨b, h⟩ := call_done_ok h nofun
    split at h
    · cases h
    next t ht =>
      cases h
      exact ⟨_, .create hn hr ht, by simp⟩

theorem from_backend_takes (hn : s.shared.SrcFree (srcClient p.data))
    (h : (from_backend none rc mem p s).Done s') : Takes rc mem p s s' := by
  unfold from_backend at h
  split at h
  · exact new_flow_takes hn h
  next a hf =>
    split at h
    next hst => exact backend_syn_ack_takes hn hf hst h
    next hst => exact backend_established_takes hn hf (.inl hst) h
    next hst => exact backend_established_takes hn hf (.inr hst) h
    · exact new_flow_takes hn h

/-- **The loop body takes transitions.**  Whatever the packet, a loop body that continues or
returns has taken one of the transitions, and has made its calls. -/
theorem process_pkt_takes (h : (process_pkt rc mem p s).Done s') : Takes rc mem p s s' := by
  unfold process_pkt process_pkt_within at h
  split_ifs at h with he hp
  · cases h; exact .same rfl rfl
  · cases h; exact .same rfl rfl
  split at h
  next hf => exact from_backend_takes (fun a ha => nomatch hf.symm.trans ha) h
  next a hf =>
    split at h
    next hst => exact client_established_takes hf (.inl hst) h
    next hst => exact client_established_takes hf (.inr hst) h
    next hst => exact client_backend_syn_takes ⟨not_not.mp he, not_not.mp hp⟩ hf hst h
    next hst =>
      exact from_backend_takes (fun b hb => by cases hf.symm.trans hb; exact hst) h

end Miresga.Frontend
