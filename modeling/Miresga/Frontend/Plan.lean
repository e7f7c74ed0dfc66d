import Miresga.Frontend.Run

/-!
# Frontend — a packet's plan

The loop body never looks into a send buffer.  What it does to the flow table, which builders it
calls and where it stops is decided by the packet, the two tables and the flow table alone; the
buffers only take what the builders write.  `Plan` is that decision and `Plan.exec` carries it out
on any send buffers (`process_pkt_plan`).

A builder that looks up a server (`Call.d_index`) finds one or not (`Call.served`).  Without one,
`forward_inbound_pkt` makes `process_pkts` return, and the others dereference a null pointer.  A URL
that does not fit `url_copy` ends the plan before any call.  The `d_index` of a call is that of the
packet's rule or of a flow in the table (`Named`), which is what the table of servers has to cover.
-/

namespace Miresga.Frontend

/-! ### Calls and their servers -/

/-- The `d_index` whose server the builder looks up. -/
def Call.d_index : Call → Option Byte
  | .forward_inbound_pkt d _ | .send_rst_pkt d _ | .send_cached_pkt d _ _ | .send_syn_pkt d _ => some d
  | .forward_outbound_pkt _ | .reply_rst_pkt _ => none

/-- The server the builder looks up is there. -/
def Call.served (rc : RuleController) (c : Call) : Bool :=
  match c.d_index with
  | none => true
  | some d => (rc.lookup_backend_server_info d).isSome

/-- The builder tests the server it looks up. -/
def Call.tested : Call → Bool
  | .forward_inbound_pkt _ _ => true
  | _ => false

section build

variable {rc : RuleController} {c : Call} {d : Byte}

theorem served_of_some (hd : c.d_index = some d) :
    c.served rc = (rc.lookup_backend_server_info d).isSome := by
  rw [Call.served, hd]

theorem lookup_of_served (hd : c.d_index = some d) (h : c.served rc = true) :
    ∃ server, rc.lookup_backend_server_info d = some server := by
  rw [served_of_some hd] at h
  exact Option.isSome_iff_exists.mp h

theorem lookup_of_unserved (hd : c.d_index = some d) (h : c.served rc = false) :
    rc.lookup_backend_server_info d = none := by
  rw [served_of_some hd] at h
  exact Option.isNone_iff_eq_none.mp (Option.isSome_eq_false_iff.mp h)

theorem build_served (b : Mbuf) (h : c.served rc = true) :
    ∃ b', c.build rc b = some (.OK, b') := by
  cases c with
  | forward_inbound_pkt d r =>
      obtain ⟨server, hs⟩ := lookup_of_served rfl h
      exact ⟨_, by rw [Call.build, forward_inbound_pkt, hs]⟩
  | send_rst_pkt d r =>
      obtain ⟨server, hs⟩ := lookup_of_served rfl h
      exact ⟨_, by rw [Call.build, send_rst_pkt, hs]⟩
  | send_cached_pkt d m n =>
      obtain ⟨server, hs⟩ := lookup_of_served rfl h
      exact ⟨_, by rw [Call.build, send_cached_pkt, hs]⟩
  | send_syn_pkt d r =>
      obtain ⟨server, hs⟩ := lookup_of_served rfl h
      exact ⟨_, by rw [Call.build, send_syn_pkt, hs]⟩
  | forward_outbound_pkt r => exact ⟨_, rfl⟩
  | reply_rst_pkt r => exact ⟨_, rfl⟩

theorem build_tested (b : Mbuf) (h : c.served rc = false) (ht : c.tested = true) :
    ∃ b', c.build rc b = some (.INTERNAL_ERROR, b') := by
  cases c with
  | forward_inbound_pkt d r =>
      exact ⟨_, by rw [Call.build, forward_inbound_pkt, lookup_of_unserved rfl h]⟩
  | _ => cases ht

/-- **Three of the four builders that look up a server use it untested.** -/
theorem build_untested (b : Mbuf) (h : c.served rc = false) (ht : c.tested = false) :
    c.build rc b = none := by
  cases c with
  | forward_inbound_pkt d r => cases ht
  | send_rst_pkt d r => rw [Call.build, send_rst_pkt, lookup_of_unserved rfl h]
  | send_cached_pkt d m n => rw [Call.build, send_cached_pkt, lookup_of_unserved rfl h]
  | send_syn_pkt d r => rw [Call.build, send_syn_pkt, lookup_of_unserved rfl h]
  | forward_outbound_pkt r => cases h
  | reply_rst_pkt r => cases h

end build

/-! ### Buffers -/

namespace Sends

/-- `send_pkts[send_size]` filled by a builder and counted. -/
def fill (rc : RuleController) (t : Sends) (c : Call) : Sends :=
  match c.build rc (t.send_pkts t.send_size) with
  | some (.OK, b) =>
    { send_pkts := upd t.send_pkts t.send_size b
      send_size := t.send_size + 1
      built := t.built ++ [(t.send_size, c)] }
  | _ => t

/-- `send_pkts[send_size]` as a builder that failed leaves it. -/
def spoil (rc : RuleController) (t : Sends) (c : Call) : Sends :=
  match c.build rc (t.send_pkts t.send_size) with
  | some (_, b) => { t with send_pkts := upd t.send_pkts t.send_size b }
  | none => t

/-- One buffer after the other filled. -/
def fills (rc : RuleController) (t : Sends) (cs : List Call) : Sends := cs.foldl (fill rc) t

end Sends

/-! ### Plans -/

/-- What the loop body is going to do: the builders it calls, and how it ends. -/
inductive Plan where
  /-- All calls are made, and the loop goes on. -/
  | next (cs : List Call) (s : Shared)
  /-- Behind `cs`, the call `c` fails, and `process_pkts` returns. -/
  | fail (cs : List Call) (c : Call) (s : Shared)
  /-- Behind `cs`, the call `c` uses a server that is not there. -/
  | null (cs : List Call) (c : Call)
  /-- The flow has no cached packet. -/
  | no_pkt
  | overflow
  | refused

/-- The plan carried out on send buffers. -/
def Plan.exec (rc : RuleController) (t : Sends) : Plan → Outcome
  | .next cs s => .next ⟨s, t.fills rc cs⟩
  | .fail cs c s => .ret .INTERNAL_ERROR ⟨s, (t.fills rc cs).spoil rc c⟩
  | .null _ _ => .crash
  | .no_pkt => .crash
  | .overflow => .overflow
  | .refused => .refused

/-- A flow in the table names the `d_index`. -/
def Shared.Names (s : Shared) (d : Byte) : Prop :=
  ∃ k a, s.flow_hash_map k = some a ∧ (s.flow a).entry_data.d_index = d

/-- The packet's rule names the `d_index`, or a flow in the table. -/
def Named (rc : RuleController) (p : Mbuf) (s : Shared) (d : Byte) : Prop :=
  (∃ data, rule rc p = some data ∧ data.d_index = d) ∨ s.Names d

/-- The packet is to go to the backend of its sender's flow, which has no server. -/
def unserved (rc : RuleController) (s : Shared) (p : Mbuf) : Bool :=
  match s.find (srcClient p.data) with
  | none => false
  | some a =>
    isTcp p.data && ((s.flow a).state == .COMPLETE || (s.flow a).state == .OFFLOAD) &&
      (rc.lookup_backend_server_info (s.flow a).entry_data.d_index).isNone &&
      (rst p.data || fin p.data || !payload_flag p.data ||
        (url_fits p.data && (rule rc p).any (·.d_index == (s.flow a).entry_data.d_index)))

/-- A packet of no flow that is ignored. -/
def idle_new (rc : RuleController) (p : Mbuf) : Bool :=
  !payload_flag p.data || (url_fits p.data && (rule rc p).isNone)

/-- A packet whose source has no flow and that is ignored. -/
def idle_backend (rc : RuleController) (s : Shared) (p : Mbuf) : Bool :=
  match s.find (dstClient p.data) with
  | none => idle_new rc p
  | some a =>
    match (s.flow a).state with
    | .BACKEND_SYN => tcp_flags p.data != TCP_ACK_FLAG ||| TCP_SYN_FLAG
    | .COMPLETE | .OFFLOAD => false
    | .INIT => idle_new rc p

/-- A packet that is ignored: no TCP segment, a request without a rule, a packet that repeats no
request or answers none. -/
def idle (rc : RuleController) (s : Shared) (p : Mbuf) : Bool :=
  !decide (isTcp p.data) ||
    match s.find (srcClient p.data) with
    | none => idle_backend rc s p
    | some a =>
      match (s.flow a).state with
      | .COMPLETE | .OFFLOAD =>
        !rst p.data && !fin p.data && payload_flag p.data && (url_fits p.data && (rule rc p).isNone)
      | .BACKEND_SYN =>
        !(fin p.data || rst p.data) &&
          (s.flow a).recv_pkt.all fun q => sent_seq (s.cached.cell q) != sent_seq p.data
      | .INIT => idle_backend rc s p

/-- What is known of the plan for a packet: at most `n` calls, whose servers are there or named, and
why it ends as it does; `Q` is why no call is made. -/
inductive Plan.Known (rc : RuleController) (p : Mbuf) (s : Shared) (n : Nat) (Q : Prop) :
    Plan → Prop where
  | next {cs : List Call} {s' : Shared} (hcs : ∀ c ∈ cs, c.served rc = true) (hn : cs.length ≤ n)
      (hQ : cs = [] → Q) : Known rc p s n Q (.next cs s')
  | fail {cs : List Call} {c : Call} (hcs : ∀ c ∈ cs, c.served rc = true) (hn : cs.length < n)
      (hu : unserved rc s p = true) : Known rc p s n Q (.fail cs c s)
  | null {cs : List Call} {c : Call} {d : Byte} (hd : c.d_index = some d)
      (hc : c.served rc = false) (hnamed : Named rc p s d) : Known rc p s n Q (.null cs c)
  | no_pkt {k : Slot} {a : Addr} (hf : s.flow_hash_map k = some a)
      (hs : (s.flow a).state = .BACKEND_SYN) (hq : (s.flow a).recv_pkt = none) :
      Known rc p s n Q .no_pkt
  | overflow : Known rc p s n Q .overflow
  | refused : Known rc p s n Q .refused

/-- The end of a packet whose last step may find no address free. -/
def Proc.stored (x : Proc) : Option Shared → Outcome
  | none => .refused
  | some h => .next { x with shared := h }

/-- The code `f`, run on any send buffers, carries out one plan. -/
def Planned (rc : RuleController) (p : Mbuf) (s : Shared) (n : Nat) (Q : Prop) (f : Sends → Outcome) :
    Prop :=
  ∃ P : Plan, P.Known rc p s n Q ∧ ∀ t, f t = P.exec rc t

section planned

variable {rc : RuleController} {mem : Alloc} {p : Mbuf} {s s₁ : Shared} {n : Nat}
  {Q Q' : Prop}

theorem Planned.next (s' : Shared) (hQ : Q) : Planned rc p s n Q fun t => .next ⟨s', t⟩ :=
  ⟨.next [] s', .next (by simp) (Nat.zero_le n) fun _ => hQ, fun _ => rfl⟩

theorem Planned.on (f : Shared → Shared) :
    Planned rc p s n True fun t => .next (Proc.on ⟨s₁, t⟩ f) :=
  .next (f s₁) trivial

theorem Planned.refused : Planned rc p s n Q fun _ => .refused := ⟨.refused, .refused, fun _ => rfl⟩

/-- **A URL in front of planned code**, which runs if the URL fits. -/
theorem Planned.copy {k : Sends → List Byte → Outcome}
    (h : url_fits p.data = true → Planned rc p s n Q fun t => k t (url_copy p.data)) :
    Planned rc p s n Q fun t => copy_url none p (k t) := by
  cases hfits : url_fits p.data with
  | false => exact ⟨.overflow, .overflow, fun t => copy_url_overflow hfits none (k t)⟩
  | true =>
      simp only [copy_url_fits hfits]
      exact h hfits

theorem Planned.stored (o : Option Shared) :
    Planned rc p s n True fun t => Proc.stored ⟨s₁, t⟩ o := by
  cases o with
  | none => exact .refused
  | some s' => exact .next s' trivial

/-- Another reason why no call is made. -/
theorem Planned.mono {f : Sends → Outcome} (h : Planned rc p s n Q f) (hQ : Q → Q') :
    Planned rc p s n Q' f := by
  obtain ⟨P, hP, he⟩ := h
  refine ⟨P, ?_, he⟩
  cases hP with
  | next hcs hn hQ' => exact .next hcs hn fun h => hQ (hQ' h)
  | fail hcs hn hu => exact .fail hcs hn hu
  | null hd hc hnamed => exact .null hd hc hnamed
  | no_pkt hf hs hq => exact .no_pkt hf hs hq
  | overflow => exact .overflow
  | refused => exact .refused

/-- The plan with one more call in front. -/
def Plan.cons (c : Call) : Plan → Plan
  | .next cs s => .next (c :: cs) s
  | .fail cs c' s => .fail (c :: cs) c' s
  | .null cs c' => .null (c :: cs) c'
  | .no_pkt => .no_pkt
  | .overflow => .overflow
  | .refused => .refused

theorem Plan.Known.cons {c : Call} {P : Plan} (hc : c.served rc = true) (h : P.Known rc p s n Q) :
    (P.cons c).Known rc p s (n + 1) Q' := by
  cases h with
  | next hcs hn => exact .next (by simp [hc]; exact hcs) (by simp; omega) nofun
  | fail hcs hn hu => exact .fail (by simp [hc]; exact hcs) (by simp; omega) hu
  | null hd hc' hnamed => exact .null hd hc' hnamed
  | no_pkt hf hs hq => exact .no_pkt hf hs hq
  | overflow => exact .overflow
  | refused => exact .refused

theorem Plan.exec_cons (c : Call) (P : Plan) (t : Sends) :
    (P.cons c).exec rc t = P.exec rc (t.fill rc c) := by
  cases P <;> rfl

section calls

variable {c : Call} {k : Proc → Outcome} (t : Sends)

theorem call_served (F : Proc → Outcome) (hk : ∀ x, k x = F x.bump) (hc : c.served rc = true) :
    call rc ⟨s, t⟩ c k = F ⟨s, t.fill rc c⟩ := by
  obtain ⟨b, hb⟩ := build_served (t.send_pkts t.send_size) hc
  rw [Frontend.call, hb, Sends.fill, hb]
  exact hk _

theorem call_tested (hc : c.served rc = false) (ht : c.tested = true) :
    call rc ⟨s, t⟩ c k = .ret .INTERNAL_ERROR ⟨s, t.spoil rc c⟩ := by
  obtain ⟨b, hb⟩ := build_tested (t.send_pkts t.send_size) hc ht
  rw [Frontend.call, hb, Sends.spoil, hb]
  rfl

theorem call_untested (hc : c.served rc = false) (ht : c.tested = false) :
    call rc ⟨s, t⟩ c k = .crash := by
  rw [Frontend.call, build_untested _ hc ht]

end calls

/-- **A call in front of planned code.**  `F` runs with the buffer counted; a call that tests its
server and has none must be the reason why the packet fails. -/
theorem Planned.call {c : Call} {k : Proc → Outcome} (F : Proc → Outcome)
    (hk : ∀ x, k x = F x.bump) (hnamed : ∀ d, c.d_index = some d → Named rc p s d)
    (hfail : c.tested = true → c.served rc = false → s₁ = s ∧ unserved rc s p = true)
    (h : Planned rc p s n Q' fun t => F ⟨s₁, t⟩) :
    Planned rc p s (n + 1) Q fun t => call rc ⟨s₁, t⟩ c k := by
  cases hc : c.served rc with
  | true =>
      obtain ⟨P, hP, he⟩ := h
      refine ⟨P.cons c, hP.cons hc, fun t => ?_⟩
      rw [Plan.exec_cons, ← he]
      exact call_served t F hk hc
  | false =>
      cases ht : c.tested with
      | true =>
          obtain ⟨rfl, hu⟩ := hfail ht hc
          exact ⟨.fail [] c s₁, .fail (by simp) (Nat.succ_pos n) hu, fun t => call_tested t hc ht⟩
      | false =>
          obtain ⟨d, hd⟩ : ∃ d, c.d_index = some d := by
            cases hd : c.d_index with
            | some d => exact ⟨d, rfl⟩
            | none => rw [Call.served, hd] at hc; cases hc
          exact ⟨.null [] c, .null hd hc (hnamed d hd), fun t => call_untested t hc ht⟩

/-- The same for a call that tests nothing. -/
theorem Planned.call_plain {c : Call} {k : Proc → Outcome} (F : Proc → Outcome)
    (hk : ∀ x, k x = F x.bump) (ht : c.tested = false)
    (hnamed : ∀ d, c.d_index = some d → Named rc p s d) (h : Planned rc p s n Q' fun t => F ⟨s₁, t⟩) :
    Planned rc p s (n + 1) Q fun t => Frontend.call rc ⟨s₁, t⟩ c k :=
  .call F hk hnamed (fun ht' => absurd (ht.symm.trans ht') Bool.false_ne_true) h

/-! ### The loop body carries out a plan -/

variable {a : Addr}

theorem Named.of_rule {data : MyData} (h : rule rc p = some data) : Named rc p s data.d_index :=
  .inl ⟨data, h, rfl⟩

theorem Named.of_find {c : Client} (h : s.find c = some a) :
    Named rc p s (s.flow a).entry_data.d_index :=
  .inr ⟨_, a, h, rfl⟩

/-- When a packet of an established flow is not served. -/
theorem unserved_of_find (hp : isTcp p.data) (hf : s.find (srcClient p.data) = some a)
    (he : (s.flow a).Established)
    (hl : rc.lookup_backend_server_info (s.flow a).entry_data.d_index = none)
    (hto : (rst p.data || fin p.data || !payload_flag p.data ||
      (url_fits p.data && (rule rc p).any (·.d_index == (s.flow a).entry_data.d_index))) = true) :
    unserved rc s p = true := by
  rw [unserved, hf]
  dsimp only
  rw [hl, hto]
  rcases he with he | he <;> simp [hp, he]

/-- `forward_inbound_pkt` for a flow of the table, in front of planned code. -/
theorem Planned.forward {q : Mbuf} {k : Proc → Outcome} (F : Proc → Outcome)
    (hk : ∀ x, k x = F x.bump) (hp : isTcp p.data) (hf : s.find (srcClient p.data) = some a)
    (he : (s.flow a).Established)
    (hto : (rst p.data || fin p.data || !payload_flag p.data ||
      (url_fits p.data && (rule rc p).any (·.d_index == (s.flow a).entry_data.d_index))) = true)
    (h : Planned rc p s n Q' fun t => F ⟨s, t⟩) :
    Planned rc p s (n + 1) Q fun t =>
      Frontend.call rc ⟨s, t⟩ (.forward_inbound_pkt (s.flow a).entry_data.d_index q) k := by
  refine .call F hk (fun d hd => ?_) (fun _ hc => ⟨rfl, ?_⟩) h
  · cases hd
    exact .of_find hf
  · exact unserved_of_find hp hf he (lookup_of_unserved rfl hc) hto

/-- A payload always has a size. -/
theorem parse_url_size (m : Mem) : (parse_url m).2 ≠ -1 := by
  have h : (0 : Int) ≤ (parse_url m).2 := Int.natCast_nonneg _
  omega

theorem client_payload_planned (hp : isTcp p.data) (hf : s.find (srcClient p.data) = some a)
    (he : (s.flow a).Established) :
    Planned rc p s 2 ((url_fits p.data && (rule rc p).isNone) = true)
      fun t => client_payload none rc mem p ⟨s, t⟩ a := by
  unfold client_payload
  dsimp only
  simp only [if_neg (parse_url_size p.data)]
  refine .copy fun hfits => ?_
  split
  next hr =>
    have hr' : rule rc p = none := hr
    exact .next s (by rw [hfits, hr']; rfl)
  next data hr =>
    split
    · let F : Proc → Outcome := fun x => x.stored (x.shared.move a data mem.recv_pkt p)
      have hF : Planned rc p s 0 True fun t => F ⟨s.unoffload (srcClient p.data) a, t⟩ := by
        dsimp only [F]
        exact .stored _
      have hsyn : Planned rc p s 1 True fun t => call rc ⟨s.unoffload (srcClient p.data) a, t⟩
          (.send_syn_pkt data.d_index p) fun x => F x.bump :=
        .call_plain F (fun _ => rfl) rfl (fun d hd => by cases hd; exact .of_rule hr) hF
      exact .call_plain (fun x => call rc (x.on (·.unoffload (srcClient p.data) a))
        (.send_syn_pkt data.d_index p) fun x => F x.bump) (fun _ => rfl)
        rfl (fun d hd => by cases hd; exact .of_find hf) hsyn
    next hd =>
      let F : Proc → Outcome := fun x =>
        if (s.flow a).state = .COMPLETE ∧ data.offload_flag = 1 then
          .next (x.on fun h => (h.set_state a .OFFLOAD).enqueue
            (.add ⟨(srcClient p.data).my_key, (s.flow a).entry_data⟩))
        else if (s.flow a).state = .OFFLOAD ∧ data.offload_flag = 0 then
          .next (x.on fun h => (h.set_state a .COMPLETE).enqueue (.del (srcClient p.data).my_key))
        else .next x
      have hF : Planned rc p s 1 True fun t => F ⟨s, t⟩ := by
        dsimp only [F]
        split_ifs
        · exact .on _
        · exact .on _
        · exact .next s trivial
      have hr' : rule rc p = some data := hr
      exact .forward F (fun _ => rfl) hp hf he (by simp [hfits, hr', not_not.mp hd]) hF

theorem client_established_planned (hp : isTcp p.data) (hf : s.find (srcClient p.data) = some a)
    (he : (s.flow a).Established) :
    Planned rc p s 2
      ((!rst p.data && !fin p.data && payload_flag p.data &&
        (url_fits p.data && (rule rc p).isNone)) = true)
      fun t => client_established none rc mem p ⟨s, t⟩ a := by
  unfold client_established
  let close : Proc → Outcome := fun x => .next (x.on (·.close (srcClient p.data) a))
  dsimp only
  split_ifs with hr hfin hpay
  · exact .forward close (fun _ => rfl) hp hf he (by simp [hr]) (.on _)
  · have hfwd : Planned rc p s 1 True fun t => call rc ⟨s, t⟩
        (.forward_inbound_pkt (s.flow a).entry_data.d_index (with_rst p)) fun x => close x.bump :=
      .forward close (fun _ => rfl) hp hf he (by simp [hfin]) (.on _)
    exact .call_plain (fun x => call rc x
      (.forward_inbound_pkt (s.flow a).entry_data.d_index (with_rst p)) fun x => close x.bump)
      (fun _ => rfl) rfl nofun hfwd
  · refine (client_payload_planned hp hf he).mono fun hrule => ?_
    simp [hr, hfin, hpay, hrule]
  · exact .forward .next (fun _ => rfl) hp hf he (by simp [hpay]) (.next s trivial)

theorem client_backend_syn_planned (hf : s.find (srcClient p.data) = some a) :
    Planned rc p s 2 ((!(fin p.data || rst p.data) && (s.flow a).recv_pkt.all fun q =>
      sent_seq (s.cached.cell q) != sent_seq p.data) = true)
      fun t => client_backend_syn rc p ⟨s, t⟩ a := by
  unfold client_backend_syn
  dsimp only
  by_cases hfr : (fin p.data || rst p.data) = true
  · simp only [if_pos hfr]
    exact .call_plain (fun x => .next (x.on (·.release a))) (fun _ => rfl) rfl nofun (.on _)
  simp only [if_neg hfr]
  cases hq : (s.flow a).recv_pkt with
  | none => exact .next s (by simpa using hfr)
  | some q =>
      dsimp only
      by_cases hseq : sent_seq (s.cached.cell q) = sent_seq p.data
      · simp only [if_pos hseq]
        refine .call_plain .next (fun _ => rfl) rfl (fun d hd => ?_) (.next s trivial)
        cases hd
        exact .of_find hf
      · simp only [if_neg hseq]
        exact .next s (by simpa [hseq] using hfr)

theorem backend_syn_ack_planned (hf : s.find (dstClient p.data) = some a)
    (hs : (s.flow a).state = .BACKEND_SYN) :
    Planned rc p s 2 (tcp_flags p.data ≠ TCP_ACK_FLAG ||| TCP_SYN_FLAG)
      fun t => backend_syn_ack rc p ⟨s, t⟩ a := by
  unfold backend_syn_ack
  dsimp only
  split
  next hflags => exact .next s hflags
  split
  next hq => exact ⟨.no_pkt, .no_pkt hf hs hq, fun _ => rfl⟩
  next q hq =>
    refine Planned.call_plain (c := .send_cached_pkt (s.flow a).entry_data.d_index
      ((s.establish (dstClient p.data) a).cached.cell q) (s.flow a).pkt_size) .next (fun _ => rfl)
      rfl (fun d hd => ?_) (.next (s.establish (dstClient p.data) a) trivial)
    cases hd
    exact .of_find hf

theorem backend_established_planned :
    Planned rc p s 2 Q fun t => backend_established rc p ⟨s, t⟩ a := by
  unfold backend_established
  let close : Proc → Outcome := fun x => .next (x.on (·.close (dstClient p.data) a))
  dsimp only
  split_ifs
  · exact .call_plain close (fun _ => rfl) rfl nofun (.on _)
  · have hfwd : Planned rc p s 1 True fun t =>
        call rc ⟨s, t⟩ (.forward_outbound_pkt (with_rst p)) fun x => close x.bump :=
      .call_plain close (fun _ => rfl) rfl nofun (.on _)
    exact .call_plain (fun x => call rc x (.forward_outbound_pkt (with_rst p)) fun x => close x.bump)
      (fun _ => rfl) rfl nofun hfwd
  · exact .call_plain .next (fun _ => rfl) rfl nofun (.next s trivial)

theorem new_flow_planned :
    Planned rc p s 2 (idle_new rc p = true) fun t => new_flow none rc mem p ⟨s, t⟩ := by
  unfold new_flow
  simp only [if_neg (parse_url_size p.data)]
  split_ifs with hpay
  · exact .next s (by simp [idle_new, hpay])
  refine .copy fun hfits => ?_
  split
  next hr =>
    have hr' : rule rc p = none := hr
    exact .next s (by simp [idle_new, hfits, hr'])
  next data hr =>
    let F : Proc → Outcome := fun x => x.stored (x.shared.create (srcClient p.data) data mem p)
    have hF : Planned rc p s 1 True fun t => F ⟨s, t⟩ := by
      dsimp only [F]
      exact .stored _
    refine .call_plain F (fun _ => rfl) rfl (fun d hd => ?_) hF
    cases hd
    exact .of_rule hr

theorem from_backend_planned :
    Planned rc p s 2 (idle_backend rc s p = true) fun t => from_backend none rc mem p ⟨s, t⟩ := by
  cases hf : s.find (dstClient p.data) with
  | none =>
      simp only [from_backend, idle_backend, hf]
      exact new_flow_planned
  | some a =>
      cases hs : (s.flow a).state with
      | INIT =>
          simp only [from_backend, idle_backend, hf, hs]
          exact new_flow_planned
      | BACKEND_SYN =>
          simp only [from_backend, idle_backend, hf, hs]
          exact (backend_syn_ack_planned hf hs).mono fun h => by simpa using h
      | OFFLOAD | COMPLETE =>
          simp only [from_backend, idle_backend, hf, hs]
          exact backend_established_planned

/-- **The loop body carries out a plan**, the same on all send buffers. -/
theorem process_pkt_plan (rc : RuleController) (mem : Alloc) (p : Mbuf) (s : Shared) :
    ∃ P : Plan, P.Known rc p s 2 (idle rc s p = true) ∧
      ∀ t, process_pkt rc mem p ⟨s, t⟩ = P.exec rc t := by
  show Planned rc p s 2 (idle rc s p = true) fun t => process_pkt rc mem p ⟨s, t⟩
  unfold process_pkt process_pkt_within
  split_ifs with he hp
  · exact .next s (by simp [idle, isTcp, he])
  · exact .next s (by simp [idle, isTcp, hp])
  have ht : isTcp p.data := ⟨not_not.mp he, not_not.mp hp⟩
  cases hf : s.find (srcClient p.data) with
  | none =>
      simp only [idle, decide_eq_true ht, hf]
      exact from_backend_planned
  | some a =>
      cases hs : (s.flow a).state with
      | INIT =>
          simp only [idle, decide_eq_true ht, hf, hs]
          exact from_backend_planned
      | BACKEND_SYN =>
          simp only [idle, decide_eq_true ht, hf, hs]
          exact client_backend_syn_planned hf
      | OFFLOAD =>
          simp only [idle, decide_eq_true ht, hf, hs]
          exact client_established_planned ht hf (.inr hs)
      | COMPLETE =>
          simp only [idle, decide_eq_true ht, hf, hs]
          exact client_established_planned ht hf (.inl hs)

/-! ### Packets that are ignored, and packets that fail -/

variable (t : Sends)

theorem new_flow_idle (h : idle_new rc p = true) : new_flow none rc mem p ⟨s, t⟩ = .next ⟨s, t⟩ := by
  unfold new_flow
  cases hp : payload_flag p.data with
  | false => rfl
  | true =>
      rw [idle_new, hp, Bool.not_true, Bool.false_or, Bool.and_eq_true,
        Option.isNone_iff_eq_none] at h
      have hr : rc.lookup_balancing_rule (url_copy p.data) = none := h.2
      rw [if_neg (by simp), if_neg (parse_url_size _), copy_url_fits h.1, hr]

theorem from_backend_idle (h : idle_backend rc s p = true) :
    from_backend none rc mem p ⟨s, t⟩ = .next ⟨s, t⟩ := by
  cases hf : s.find (dstClient p.data) with
  | none =>
      simp only [idle_backend, hf] at h
      simp only [from_backend, hf]
      exact new_flow_idle t h
  | some a =>
      cases hs : (s.flow a).state with
      | INIT =>
          simp only [idle_backend, hf, hs] at h
          simp only [from_backend, hf, hs]
          exact new_flow_idle t h
      | BACKEND_SYN =>
          simp only [idle_backend, hf, hs, bne_iff_ne] at h
          simp only [from_backend, hf, hs, backend_syn_ack, if_pos h]
      | OFFLOAD | COMPLETE =>
          simp only [idle_backend, hf, hs] at h
          cases h

theorem client_backend_syn_idle (h : (!(fin p.data || rst p.data) && (s.flow a).recv_pkt.all fun q =>
    sent_seq (s.cached.cell q) != sent_seq p.data) = true) :
    client_backend_syn rc p ⟨s, t⟩ a = .next ⟨s, t⟩ := by
  rw [Bool.and_eq_true, Bool.not_eq_true'] at h
  unfold client_backend_syn
  dsimp only
  rw [if_neg (by rw [h.1]; exact Bool.false_ne_true)]
  cases hq : (s.flow a).recv_pkt with
  | none => rfl
  | some q =>
      have hseq := h.2
      rw [hq, Option.all_some, bne_iff_ne] at hseq
      exact if_neg hseq

theorem client_established_idle
    (h : (!rst p.data && !fin p.data && payload_flag p.data &&
      (url_fits p.data && (rule rc p).isNone)) = true) :
    client_established none rc mem p ⟨s, t⟩ a = .next ⟨s, t⟩ := by
  simp only [Bool.and_eq_true, Bool.not_eq_true', Option.isNone_iff_eq_none] at h
  obtain ⟨⟨⟨hr, hf⟩, hp⟩, hfits, hrule⟩ := h
  have hrule' : rc.lookup_balancing_rule (url_copy p.data) = none := hrule
  unfold client_established client_payload
  dsimp only
  rw [hr, hf, hp, if_neg Bool.false_ne_true, if_neg Bool.false_ne_true, if_pos rfl,
    if_neg (parse_url_size _), copy_url_fits hfits, hrule']

/-- **A packet that is ignored** changes nothing. -/
theorem process_pkt_idle (h : idle rc s p = true) : process_pkt rc mem p ⟨s, t⟩ = .next ⟨s, t⟩ := by
  by_cases ht : isTcp p.data
  · have h₁ : ¬ ether_type p.data ≠ htons ETHER_TYPE_IPV4 := not_not.mpr ht.1
    have h₂ : ¬ next_proto_id p.data ≠ IPPROTO_TCP := not_not.mpr ht.2
    cases hf : s.find (srcClient p.data) with
    | none =>
        simp only [idle, decide_eq_true ht, hf, Bool.not_true, Bool.false_or] at h
        simp only [process_pkt, process_pkt_within, if_neg h₁, if_neg h₂, hf]
        exact from_backend_idle t h
    | some a =>
        cases hs : (s.flow a).state with
        | INIT =>
            simp only [idle, decide_eq_true ht, hf, hs, Bool.not_true, Bool.false_or] at h
            simp only [process_pkt, process_pkt_within, if_neg h₁, if_neg h₂, hf, hs]
            exact from_backend_idle t h
        | BACKEND_SYN =>
            simp only [idle, decide_eq_true ht, hf, hs, Bool.not_true, Bool.false_or] at h
            simp only [process_pkt, process_pkt_within, if_neg h₁, if_neg h₂, hf, hs]
            exact client_backend_syn_idle t h
        | OFFLOAD | COMPLETE =>
            simp only [idle, decide_eq_true ht, hf, hs, Bool.not_true, Bool.false_or] at h
            simp only [process_pkt, process_pkt_within, if_neg h₁, if_neg h₂, hf, hs]
            exact client_established_idle t h
  · unfold process_pkt process_pkt_within
    by_cases he : ether_type p.data = htons ETHER_TYPE_IPV4
    · rw [if_neg (not_not.mpr he), if_pos fun hn => ht ⟨he, hn⟩]
    · rw [if_pos he]

/-- What it is for a packet to be unserved. -/
theorem unserved_iff : unserved rc s p = true ↔ ∃ a, s.find (srcClient p.data) = some a ∧
    isTcp p.data ∧ (s.flow a).Established ∧
    rc.lookup_backend_server_info (s.flow a).entry_data.d_index = none ∧
    (rst p.data || fin p.data || !payload_flag p.data ||
      (url_fits p.data && (rule rc p).any (·.d_index == (s.flow a).entry_data.d_index))) = true := by
  constructor
  · intro h
    unfold unserved at h
    split at h
    · cases h
    next a hf =>
      rw [Bool.and_eq_true, Bool.and_eq_true, Bool.and_eq_true, decide_eq_true_eq, Bool.or_eq_true,
        beq_iff_eq, beq_iff_eq, Option.isNone_iff_eq_none] at h
      exact ⟨a, hf, h.1.1.1, h.1.1.2, h.1.2, h.2⟩
  · rintro ⟨a, hf, ht, he, hl, hto⟩
    exact unserved_of_find ht hf he hl hto

theorem client_established_unserved (mem : Alloc)
    (hl : rc.lookup_backend_server_info (s.flow a).entry_data.d_index = none)
    (hto : (rst p.data || fin p.data || !payload_flag p.data ||
      (url_fits p.data && (rule rc p).any (·.d_index == (s.flow a).entry_data.d_index))) = true) :
    ∃ u, client_established none rc mem p ⟨s, t⟩ a = .ret .INTERNAL_ERROR ⟨s, u⟩ := by
  have hfwd : ∀ q k t, call rc ⟨s, t⟩ (.forward_inbound_pkt (s.flow a).entry_data.d_index q) k =
      .ret .INTERNAL_ERROR ⟨s, t.spoil rc (.forward_inbound_pkt (s.flow a).entry_data.d_index q)⟩ :=
    fun q k t => call_tested t (by rw [served_of_some rfl, hl]; rfl) rfl
  unfold client_established client_payload
  dsimp only
  split_ifs with hr hfin hpay hsize
  · exact ⟨_, hfwd p _ t⟩
  · refine ⟨_, (call_served t (fun x => call rc x (.forward_inbound_pkt
      (s.flow a).entry_data.d_index (with_rst p)) fun x => .next (x.bump.on
        (·.close (srcClient p.data) a))) (fun _ => rfl) rfl).trans (hfwd _ _ _)⟩
  · exact absurd hsize (parse_url_size _)
  · -- the rule is for the backend of the flow
    simp only [hr, hfin, hpay, Bool.not_true, Bool.or_self, Bool.false_or] at hto
    rw [Bool.and_eq_true] at hto
    obtain ⟨data, hrule, hd⟩ := (Option.any_eq_true ..).mp hto.2
    have hrule' : rc.lookup_balancing_rule (url_copy p.data) = some data := hrule
    rw [copy_url_fits hto.1, hrule']
    dsimp only
    rw [if_neg (not_not.mpr (beq_iff_eq.mp hd))]
    exact ⟨_, hfwd p _ t⟩
  · exact ⟨_, hfwd p _ t⟩

/-- **A packet that is unserved** makes `process_pkts` return. -/
theorem process_pkt_unserved (mem : Alloc) (h : unserved rc s p = true) :
    ∃ u, process_pkt rc mem p ⟨s, t⟩ = .ret .INTERNAL_ERROR ⟨s, u⟩ := by
  obtain ⟨a, hf, ht, he, hl, hto⟩ := unserved_iff.mp h
  have h₁ : ¬ ether_type p.data ≠ htons ETHER_TYPE_IPV4 := not_not.mpr ht.1
  have h₂ : ¬ next_proto_id p.data ≠ IPPROTO_TCP := not_not.mpr ht.2
  obtain ⟨u, hu⟩ := client_established_unserved t mem hl hto
  refine ⟨u, hu ▸ ?_⟩
  rcases he with hs | hs <;> simp only [process_pkt, process_pkt_within, if_neg h₁, if_neg h₂, hf, hs]

end planned

/-! ### What the calls leave behind -/

theorem Transition.nil {rc : RuleController} {mem : Alloc} {p : Mbuf} {s s' : Shared}
    (h : Transition rc mem p s s' []) : s' = s := by
  generalize hcs : ([] : List Call) = cs at h
  cases h with
  | ignored => rfl
  | fin_unsent | forward | serve | offload | unoffload | move | abandon | resyn | syn_ack | reply
  | create => cases hcs
  | close_client _ _ h => rcases h with ⟨-, rfl⟩ | rfl <;> cases hcs
  | close_backend _ _ _ h => rcases h with rfl | rfl <;> cases hcs

/-- A call whose server is there fills the next buffer. -/
theorem fill_eq {rc : RuleController} {c : Call} (h : c.served rc = true) (t : Sends) :
    ∃ b, c.build rc (t.send_pkts t.send_size) = some (.OK, b) ∧
      t.fill rc c =
        ⟨upd t.send_pkts t.send_size b, t.send_size + 1, t.built ++ [(t.send_size, c)]⟩ := by
  obtain ⟨b, hb⟩ := build_served (t.send_pkts t.send_size) h
  exact ⟨b, hb, by rw [Sends.fill, hb]⟩

theorem fills_calls {rc : RuleController} {cs : List Call} (h : ∀ c ∈ cs, c.served rc = true)
    (t : Sends) : (t.fills rc cs).calls = t.calls ++ cs := by
  induction cs generalizing t with
  | nil => simp [Sends.fills]
  | cons c cs ih =>
      obtain ⟨b, -, hf⟩ := fill_eq (h c List.mem_cons_self) t
      have hc : (t.fill rc c).calls = t.calls ++ [c] := by simp [hf, Sends.calls]
      have hcs := ih (fun c' hc' => h c' (List.mem_cons_of_mem _ hc')) (t.fill rc c)
      rw [hc, List.append_assoc] at hcs
      exact hcs

/-- **How a packet is handled**, on any send buffers: it fails for want of a server, it is handled
with at most two frames and ignored without any, or it does not come to an end. -/
theorem process_pkt_cases (rc : RuleController) (mem : Alloc) (p : Mbuf) (s : Shared) :
    (unserved rc s p = true ∧ ∀ t, ∃ u, process_pkt rc mem p ⟨s, t⟩ = .ret .INTERNAL_ERROR ⟨s, u⟩) ∨
    (unserved rc s p = false ∧ ∃ cs s', (∀ c ∈ cs, c.served rc = true) ∧ cs.length ≤ 2 ∧
      (cs = [] → idle rc s p = true) ∧ Transition rc mem p s s' cs ∧
      ∀ t, process_pkt rc mem p ⟨s, t⟩ = .next ⟨s', t.fills rc cs⟩) ∨
    (unserved rc s p = false ∧ ∃ o, (o = .crash ∨ o = .overflow ∨ o = .refused) ∧
      ∀ t, process_pkt rc mem p ⟨s, t⟩ = o) := by
  cases hu : unserved rc s p with
  | true => exact .inl ⟨rfl, fun t => process_pkt_unserved t mem hu⟩
  | false =>
      right
      obtain ⟨P, hP, he⟩ := process_pkt_plan rc mem p s
      cases hP with
      | @next cs s' hcs hn hQ =>
          refine .inl ⟨rfl, cs, s', hcs, hn, hQ, ?_, he⟩
          have hd : (process_pkt rc mem p ⟨s, .blank⟩).Done ⟨s', Sends.blank.fills rc cs⟩ := by
            rw [he .blank]
            exact .next _
          obtain ⟨cs', ht, hcs'⟩ := process_pkt_takes hd
          rw [fills_calls hcs] at hcs'
          cases List.append_cancel_left hcs'
          exact ht
      | fail _ _ hu' => exact absurd (hu.symm.trans hu') Bool.false_ne_true
      | null | no_pkt => exact .inr ⟨rfl, .crash, .inl rfl, he⟩
      | overflow => exact .inr ⟨rfl, .overflow, .inr (.inl rfl), he⟩
      | refused => exact .inr ⟨rfl, .refused, .inr (.inr rfl), he⟩

end Miresga.Frontend
