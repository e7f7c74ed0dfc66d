import Miresga.Frontend.Refinement

/-!
# Frontend — clients do not disturb each other

By Refinement.lean the front-end is one machine for each client, but which machine takes a packet
depends on the others: a packet whose sender has no connection goes to its receiver's.  Once the
clients are told from the servers (`Disciplined`: a segment goes from a client to a server or the
other way, and what a server sends is no request under the rules), it depends on the packet alone,
and the front-end is the product of the clients' machines (`conns_product`).  So

* `connection_isolated`: two runs in which a client meets the same packets, whatever other clients do
  in either and whatever the allocators return, end in the same connection of that client, with the
  same frames and the same requests to the switch for it;
* `shuffled_goes_through`: any order of the packets that keeps the order of each client's goes through
  if one does, and ends in the same connections;
* `allocator_unseen`: without any assumption on clients and servers, what the allocator returns and
  what the heaps held before does not show.

All three are about steps of `HandleStep`: the allocator may return what it likes, except a block of a
record that was released while still in the table, and the packets reach up to their sequence number.
-/

namespace Miresga.Frontend

/-! ### The requests of one connection -/

/-- The requests are for `c`'s entry. -/
def OwnRequests (c : Client) (es : List Enq) : Prop :=
  es = [] ∨ es = [.del c.my_key] ∨ ∃ data, es = [.add ⟨c.my_key, data⟩]

section requests

variable {rc : RuleController} {c c' : Client} {p : Mbuf} {q : Conn} {data : MyData} {b : Bool}
  {r r' : Reaction}

theorem OwnRequests.other {es : List Enq} (h : OwnRequests c es) (hc : c ≠ c') : ops c' es = [] := by
  rcases h with rfl | rfl | ⟨data, rfl⟩
  · rfl
  · exact ops_del_other hc
  · exact ops_add_other data hc

theorem unoffload_own : OwnRequests c (Conn.unoffload c b) := by
  cases b
  · exact .inl rfl
  · exact .inr (.inl rfl)

theorem request_own : OwnRequests c (Conn.request rc c p data b).enqueued := by
  unfold Conn.request
  cases rule rc p with
  | none => exact .inl rfl
  | some new_data =>
      dsimp only
      split_ifs
      · exact unoffload_own
      · exact .inr (.inr ⟨data, rfl⟩)
      · exact .inr (.inl rfl)
      · exact .inl rfl

theorem from_client_own : OwnRequests c (q.from_client rc c p).enqueued := by
  cases q with
  | closed =>
      unfold Conn.from_client
      dsimp only
      split_ifs
      · exact .inl rfl
      · cases rule rc p with
        | none => exact .inl rfl
        | some data => exact .inl rfl
  | waiting data request =>
      unfold Conn.from_client
      dsimp only
      split_ifs <;> exact .inl rfl
  | established data b =>
      unfold Conn.from_client
      dsimp only
      split_ifs
      · exact unoffload_own
      · exact unoffload_own
      · exact request_own
      · exact .inl rfl

theorem to_client_own : OwnRequests c (q.to_client c p).enqueued := by
  cases q with
  | closed => exact .inl rfl
  | waiting data request =>
      unfold Conn.to_client
      dsimp only
      split_ifs
      · exact .inl rfl
      · exact .inr (.inr ⟨data, rfl⟩)
      · exact .inl rfl
  | established data b =>
      unfold Conn.to_client
      dsimp only
      split_ifs
      · exact unoffload_own
      · exact unoffload_own
      · exact .inl rfl

theorem commit_own (h : OwnRequests c r.enqueued) (hr : r.commit rc q = some r') :
    OwnRequests c r'.enqueued := by
  unfold Reaction.commit at hr
  split at hr
  · cases hr
    exact h
  · split_ifs at hr
    cases hr
    exact .inl rfl

end requests

/-! ### Clients and servers -/

/-- A segment goes from a client to a server or the other way, and a server sends no request. -/
def Disciplined (C : Set Client) (l : Input) : Prop :=
  isTcp l.2.data →
    (srcClient l.2.data ∈ C ∧ dstClient l.2.data ∉ C) ∨
    (srcClient l.2.data ∉ C ∧ dstClient l.2.data ∈ C ∧
      (payload_flag l.2.data = true → rule l.1 l.2 = none))

/-- Only clients have connections. -/
def Conns.Within (C : Set Client) (m : Conns) : Prop := ∀ c, c ∉ C → m c = .closed

variable (C : Set Client) [DecidablePred (· ∈ C)]

/-- The client of a packet between a client and a server. -/
def home (l : Input) : Client :=
  if srcClient l.2.data ∈ C then srcClient l.2.data else dstClient l.2.data

/-- The machine of one client. -/
def Conn.handle (c : Client) (l : Input) (q : Conn) : Option (Conn × List Call × List Enq) :=
  ((if ¬ isTcp l.2.data then .ignore q
    else if srcClient l.2.data ∈ C then q.from_client l.1 c l.2
    else q.to_client c l.2 : Reaction).commit l.1 q).map fun r => (r.conn, r.calls, r.enqueued)

section product

variable {C} {l : Input} {m m' : Conns} {q q' : Conn} {c : Client}
  {o : List Call × List Enq}

theorem commit_ignore (rc : RuleController) (q q' : Conn) :
    (Reaction.ignore q).commit rc q' = some (.ignore q) := rfl

/-- What a server sends to a client without connection is no request. -/
theorem react_server (hs : m (srcClient l.2.data) = .closed) (hd : m (dstClient l.2.data) = .closed)
    (hr : payload_flag l.2.data = true → rule l.1 l.2 = none) (ht : isTcp l.2.data) :
    m.react l.1 l.2 = .ignore .closed := by
  rw [react_src ht (owner_new hd), hs, Conn.from_client]
  split_ifs with hp
  · rfl
  · rw [hr (by simpa using hp)]

/-- **One packet moves the machine of its client**, and no other. -/
theorem conns_product (hm : m.Within C) (hl : Disciplined C l) :
    Conns.step l m = Product.step (home C) (Conn.handle C) l m := by
  unfold Conns.step Product.step Conn.handle
  rw [Option.map_map]
  by_cases ht : isTcp l.2.data
  · rw [if_neg (not_not.mpr ht)]
    rcases hl ht with ⟨hs, hd⟩ | ⟨hs, hd, hr⟩
    · have ho : m.owner l.2 = srcClient l.2.data := owner_new (hm _ hd)
      rw [if_pos hs, home, if_pos hs, react_src ht ho, ho]
      rfl
    · rw [if_neg hs, home, if_neg hs]
      by_cases hc : m (dstClient l.2.data) = .closed
      · -- no connection at either end, and nothing happens
        have ho := owner_new (p := l.2) hc
        rw [react_server (hm _ hs) hc hr ht, ho, hc, Conn.to_client, commit_ignore, commit_ignore,
          Option.map_some, Option.map_some]
        have h₁ := upd_self m (srcClient l.2.data)
        have h₂ := upd_self m (dstClient l.2.data)
        rw [hm _ hs] at h₁
        rw [hc] at h₂
        simp only [Reaction.ignore, Function.comp_apply, h₁, h₂]
      · rw [react_dst ht (hm _ hs) hc, owner_dst (hm _ hs) hc]
        rfl
  · rw [if_pos ht, Conns.react, if_pos ht, commit_ignore, commit_ignore, Option.map_some,
      Option.map_some]
    simp only [Reaction.ignore, Function.comp_apply, upd_self]

theorem home_mem (hl : Disciplined C l) (ht : isTcp l.2.data) : home C l ∈ C := by
  unfold home
  rcases hl ht with ⟨hs, -⟩ | ⟨hs, hd, -⟩
  · rwa [if_pos hs]
  · rwa [if_neg hs]

theorem Conns.Within.step (hm : m.Within C) (hl : Disciplined C l)
    (h : Conns.step l m = some (m', o)) : m'.Within C := by
  intro c hc
  by_cases ht : isTcp l.2.data
  · rw [conns_product hm hl] at h
    obtain ⟨q, -, rfl⟩ := Product.step_eq_some.mp h
    rw [upd_other _ _ _ fun e : c = home C l => hc (e ▸ home_mem hl ht)]
    exact hm c hc
  · rw [Conns.step, Conns.react, if_pos ht, commit_ignore, Option.map_some] at h
    cases h
    simp only [Reaction.ignore, upd_self]
    exact hm c hc

theorem handle_own (h : Conn.handle C c l q = some (q', o)) : OwnRequests c o.2 := by
  obtain ⟨r, hr, he⟩ := Option.map_eq_some_iff.mp h
  cases he
  refine commit_own ?_ hr
  split_ifs
  · exact from_client_own
  · exact to_client_own
  · exact .inl rfl

/-- **A disciplined run of the connections is a run of the clients' machines.** -/
theorem run_product {ls : List Input} (hls : ∀ l ∈ ls, Disciplined C l) :
    Machine.run Conns.step ls .closed =
      Machine.run (Product.step (home C) (Conn.handle C)) ls Conns.closed :=
  Machine.run_congr (I := Conns.Within C) (P := Disciplined C)
    (fun _ _ _ _ hm hl h => hm.step hl h) (fun _ _ hm hl => conns_product hm hl) hls
    fun _ _ => rfl

end product

/-! ### Runs of the front-end -/

/-- The packet is one of `c`'s. -/
def Handled.of (c : Client) (x : Handled) : Bool := home C x.input = c

section runs

variable {C} {s₀ s₀' s s' : Shared} {tr tr' : List Handled}

theorem front_enqueued (h₀ : Initial s₀) (hr : Steps HandleStep s₀ tr s) :
    s.enqueued = tr.flatMap Handled.enqueued := by
  induction hr with
  | refl => exact h₀.enqueued
  | more _ hx ih => rw [hx.2.2.2, ih, List.flatMap_append, List.flatMap_singleton]

theorem filter_shown (c : Client) (tr : List Handled) :
    (tr.map Handled.shown).filter (home C ·.1 = c) = (tr.filter (·.of C c)).map Handled.shown := by
  rw [List.filter_map]
  rfl

theorem filter_input (c : Client) (tr : List Handled) :
    (tr.map Handled.input).filter (home C · = c) = (tr.filter (·.of C c)).map Handled.input := by
  rw [List.filter_map]
  rfl

/-- The requests for a client come from its own packets. -/
theorem ops_of (c : Client) (h : ∀ x ∈ tr, OwnRequests (home C x.input) x.enqueued) :
    ops c (tr.flatMap Handled.enqueued) =
      ops c ((tr.filter (·.of C c)).flatMap Handled.enqueued) := by
  induction tr with
  | nil => rfl
  | cons x tr ih =>
      have hx := h x List.mem_cons_self
      have ih := ih fun y hy => h y (List.mem_cons_of_mem _ hy)
      rw [List.flatMap_cons, ops_append, ih]
      by_cases hc : home C x.input = c
      · rw [List.filter_cons_of_pos (by simpa [Handled.of] using hc), List.flatMap_cons, ops_append]
      · rw [List.filter_cons_of_neg (by simpa [Handled.of] using hc), hx.other hc, List.nil_append]

/-- A run of the front-end, at one client. -/
theorem front_run_at (h₀ : Initial s₀) (hr : Steps HandleStep s₀ tr s)
    (hd : ∀ x ∈ tr, Disciplined C x.input) (c : Client) :
    Machine.run (Conn.handle C c) ((tr.filter (·.of C c)).map Handled.input) .closed =
        some (s.conn c, (tr.filter (·.of C c)).map Handled.shown) ∧
      ops c s.enqueued = ops c ((tr.filter (·.of C c)).flatMap Handled.enqueued) := by
  have hrun := (Kept.front_run h₀ hr).2
  rw [run_product fun l hl => by
    obtain ⟨x, hx, rfl⟩ := List.mem_map.mp hl
    exact hd x hx] at hrun
  have hc := Product.run_at hrun c
  rw [filter_shown, filter_input] at hc
  refine ⟨hc, ?_⟩
  rw [front_enqueued h₀ hr]
  refine ops_of c fun x hx => ?_
  obtain ⟨m₁, m₂, hstep⟩ := Machine.run_mem hrun (List.mem_map_of_mem hx)
  obtain ⟨q, hq, -⟩ := Product.step_eq_some.mp hstep
  exact handle_own hq

theorem visible_of_shown {tr tr' : List Handled} (h : tr.map Handled.shown = tr'.map Handled.shown) :
    tr.map Handled.visible = tr'.map Handled.visible := by
  induction tr generalizing tr' with
  | nil =>
      cases List.map_eq_nil_iff.mp h.symm
      rfl
  | cons x tr ih =>
      obtain ⟨y, ys, rfl, hx, hys⟩ := List.map_eq_cons_iff.mp h.symm
      rw [List.map_cons, List.map_cons, ih hys.symm, Handled.visible_shown hx]

theorem requests_of_shown {tr tr' : List Handled} (h : tr.map Handled.shown = tr'.map Handled.shown) :
    tr.flatMap Handled.enqueued = tr'.flatMap Handled.enqueued := by
  have he := congrArg (List.flatMap fun x : Input × List Call × List Enq => x.2.2) h
  rwa [List.flatMap_map, List.flatMap_map] at he

/-- **Isolation.**  Two runs, with any packets of other clients between, in any order, and any answers
of the allocators that leave alone what the table leads to: where a client meets the same packets under the same tables, its connection ends
the same, the frames made for its packets are the same, and so are the requests for its switch
entry. -/
theorem connection_isolated (h₀ : Initial s₀) (h₀' : Initial s₀') (hr : Steps HandleStep s₀ tr s)
    (hr' : Steps HandleStep s₀' tr' s') (hd : ∀ x ∈ tr, Disciplined C x.input)
    (hd' : ∀ x ∈ tr', Disciplined C x.input) {c : Client}
    (hc : (tr.filter (·.of C c)).map Handled.input = (tr'.filter (·.of C c)).map Handled.input) :
    s.conn c = s'.conn c ∧
      (tr.filter (·.of C c)).map Handled.visible = (tr'.filter (·.of C c)).map Handled.visible ∧
      ops c s.enqueued = ops c s'.enqueued := by
  obtain ⟨hrun, hops⟩ := front_run_at h₀ hr hd c
  obtain ⟨hrun', hops'⟩ := front_run_at h₀' hr' hd' c
  rw [hc, hrun'] at hrun
  simp only [Option.some.injEq, Prod.mk.injEq] at hrun
  obtain ⟨hconn, hshown⟩ := hrun
  refine ⟨hconn.symm, visible_of_shown hshown.symm, ?_⟩
  rw [hops, hops', requests_of_shown hshown]

/-- **Any order between clients.**  If a run goes through, so does every run that meets each client's
packets in the same order, as far as it has got; once it has met them all, the connections are the
same. -/
theorem shuffled_goes_through (h₀ : Initial s₀) (h₀' : Initial s₀') (hr : Steps HandleStep s₀ tr s)
    (hd : ∀ x ∈ tr, Disciplined C x.input) {ls : List Input}
    (hls : ∀ c, (tr.map Handled.input).filter (home C · = c) = ls.filter (home C · = c))
    (hr' : Steps HandleStep s₀' tr' s') :
    (∀ (l : Recv) (ls' : List Input),
      ls = tr'.map Handled.input ++ (l.rc, l.pkt) :: ls' → Keeps s' l.mem →
      ∀ t, process_pkt l.rc l.mem l.pkt ⟨s', t⟩ ≠ .crash) ∧
    (ls = tr'.map Handled.input → s'.conn = s.conn) := by
  have hdl : ∀ l ∈ ls, Disciplined C l := fun l hl => by
    have hmem : l ∈ ls.filter (home C · = home C l) := List.mem_filter.mpr ⟨hl, by simp⟩
    rw [← hls] at hmem
    obtain ⟨x, hx, rfl⟩ := List.mem_map.mp (List.mem_filter.mp hmem).1
    exact hd x hx
  have hrun := (Kept.front_run h₀ hr).2
  rw [run_product fun l hl => by
    obtain ⟨x, hx, rfl⟩ := List.mem_map.mp hl
    exact hd x hx] at hrun
  obtain ⟨out, hout, -⟩ := Product.run_shuffle hls hrun
  rw [← run_product hdl] at hout
  obtain ⟨hk', hrun'⟩ := Kept.front_run h₀' hr'
  refine ⟨fun l ls' he hk t hcrash => ?_, fun he => ?_⟩
  · subst he
    have hnext := Machine.run_next hout hrun'
    rcases hk'.front_crash hk t with hend | hend | hiff
    · cases hend.symm.trans hcrash
    · cases hend.symm.trans hcrash
    · exact hnext (hiff.mp hcrash)
  · rw [he, hrun'] at hout
    simp only [Option.some.injEq, Prod.mk.injEq] at hout
    exact hout.1

/-- **The allocator does not show.**  Two runs on the same packets under the same tables, with any
answers of the allocators that leave alone what the table leads to, and any earlier contents of the
heaps, make the same frames and the same
requests, and stand for the same connections. -/
theorem allocator_unseen (h₀ : Initial s₀) (h₀' : Initial s₀') (hr : Steps HandleStep s₀ tr s)
    (hr' : Steps HandleStep s₀' tr' s') (hin : tr.map Handled.input = tr'.map Handled.input) :
    tr.map Handled.visible = tr'.map Handled.visible ∧ s.enqueued = s'.enqueued ∧
      s.conn = s'.conn := by
  have hrun := (Kept.front_run h₀ hr).2
  rw [hin, (Kept.front_run h₀' hr').2] at hrun
  simp only [Option.some.injEq, Prod.mk.injEq] at hrun
  obtain ⟨hconn, hshown⟩ := hrun
  refine ⟨visible_of_shown hshown.symm, ?_, hconn.symm⟩
  rw [front_enqueued h₀ hr, front_enqueued h₀' hr', requests_of_shown hshown]

end runs

/-! ### Two clients -/

/-- A request of another client, for the URL of server 2. -/
def sampleRequest₂ : Mbuf :=
  .ofBytes (headers (0xC0A80003, 40001) (0x0A000001, 80) 3000 7000 TCP_ACK_FLAG 47 ++
    [0x47, 0x45, 0x54, 0x20, 0x2f, 0x62, 0x20])

def sampleClient₂ : Client := srcClient sampleRequest₂.data

def sampleClients : Set Client := {c | c = sampleClient ∨ c = sampleClient₂}

instance : DecidablePred (· ∈ sampleClients) := fun c =>
  inferInstanceAs (Decidable (c = sampleClient ∨ c = sampleClient₂))

/-- The other client's request comes between the first client's request and its answer. -/
def sampleMixed : List Recv :=
  [sampleRecv (sampleRequest 0x61) 0, sampleRecv sampleRequest₂ 1, sampleRecv sampleSynAck 2]

/-- It comes first, and the allocator gives other blocks. -/
def sampleMixed₂ : List Recv :=
  [sampleRecv sampleRequest₂ 5, sampleRecv (sampleRequest 0x61) 6, sampleRecv sampleSynAck 7]

instance (l : Input) : Decidable (Disciplined sampleClients l) :=
  inferInstanceAs (Decidable (_ → _ ∨ _))

/-- Both runs, with what the theorems need to know of them. -/
theorem sampleMixed_runs :
    ∃ tr s tr' s', Steps HandleStep sampleStart tr s ∧ Steps HandleStep sampleStart tr' s' ∧
      tr.map Handled.recv = sampleMixed ∧ tr'.map Handled.recv = sampleMixed₂ ∧
      (∀ x ∈ tr, Disciplined sampleClients x.input) ∧
      (∀ x ∈ tr', Disciplined sampleClients x.input) ∧
      ∀ c, (tr.map Handled.input).filter (home sampleClients · = c) =
        (tr'.map Handled.input).filter (home sampleClients · = c) := by
  obtain ⟨tr, s, htr, hr, -⟩ := handled_sample sampleMixed (by decide +kernel)
    (by decide +kernel)
  obtain ⟨tr', s', htr', hr', -⟩ := handled_sample sampleMixed₂ (by decide +kernel)
    (by decide +kernel)
  have hin := inputs_of_recvs htr
  have hin' := inputs_of_recvs htr'
  have disciplined : ∀ {tr : List Handled} {ls : List Recv}, tr.map Handled.recv = ls →
      (∀ l ∈ ls, Disciplined sampleClients (l.rc, l.pkt)) →
      ∀ x ∈ tr, Disciplined sampleClients x.input := fun h hd x hx =>
    hd x.recv (h ▸ List.mem_map_of_mem hx)
  refine ⟨tr, s, tr', s', hr, hr', htr, htr', disciplined htr (by decide +kernel),
    disciplined htr' (by decide +kernel), fun c => ?_⟩
  rw [hin, hin']
  have h₁ : home sampleClients (sampleRules, sampleRequest 0x61) = sampleClient := by decide +kernel
  have h₂ : home sampleClients (sampleRules, sampleRequest₂) = sampleClient₂ := by decide +kernel
  have h₃ : home sampleClients (sampleRules, sampleSynAck) = sampleClient := by decide +kernel
  have hne : sampleClient ≠ sampleClient₂ := by decide +kernel
  simp only [sampleMixed, sampleMixed₂, sampleRecv, List.map_cons, List.map_nil, List.filter_cons,
    List.filter_nil, h₁, h₂, h₃]
  by_cases e₁ : sampleClient = c
  · have e₂ : sampleClient₂ ≠ c := fun e => hne (e₁.trans e.symm)
    simp [e₁, e₂]
  · by_cases e₂ : sampleClient₂ = c <;> simp [e₁, e₂]

theorem connection_isolated_sample :
    ∃ tr s tr' s', Steps HandleStep sampleStart tr s ∧ Steps HandleStep sampleStart tr' s' ∧
      tr.map Handled.recv = sampleMixed ∧ tr'.map Handled.recv = sampleMixed₂ ∧
      s.conn sampleClient = s'.conn sampleClient ∧
      (tr.filter (·.of sampleClients sampleClient)).map Handled.visible =
        (tr'.filter (·.of sampleClients sampleClient)).map Handled.visible ∧
      ops sampleClient s.enqueued = ops sampleClient s'.enqueued := by
  obtain ⟨tr, s, tr', s', hr, hr', htr, htr', hd, hd', hc⟩ := sampleMixed_runs
  have hc := hc sampleClient
  rw [filter_input, filter_input] at hc
  exact ⟨tr, s, tr', s', hr, hr', htr, htr',
    connection_isolated sampleStart_initial sampleStart_initial hr hr' hd hd' hc⟩

theorem shuffled_goes_through_sample :
    ∃ tr s tr' s', Steps HandleStep sampleStart tr s ∧ Steps HandleStep sampleStart tr' s' ∧
      tr.map Handled.recv = sampleMixed ∧ tr'.map Handled.recv = sampleMixed₂ ∧
      s'.conn = s.conn := by
  obtain ⟨tr, s, tr', s', hr, hr', htr, htr', hd, -, hc⟩ := sampleMixed_runs
  exact ⟨tr, s, tr', s', hr, hr', htr, htr',
    (shuffled_goes_through sampleStart_initial sampleStart_initial hr hd hc hr').2 rfl⟩

/-- The same packets with other blocks. -/
def sampleElsewhere : List Recv := sampleMixed.map fun l => { l with mem := ⟨9 - l.mem.1, 9 - l.mem.2⟩ }

theorem allocator_unseen_sample :
    ∃ tr s tr' s', Steps HandleStep sampleStart tr s ∧ Steps HandleStep sampleStart tr' s' ∧
      tr.map Handled.recv = sampleMixed ∧ tr'.map Handled.recv = sampleElsewhere ∧
      tr.map Handled.visible = tr'.map Handled.visible ∧ s.enqueued = s'.enqueued ∧
      s.conn = s'.conn := by
  obtain ⟨tr, s, htr, hr, -⟩ := handled_sample sampleMixed (by decide +kernel)
    (by decide +kernel)
  obtain ⟨tr', s', htr', hr', -⟩ := handled_sample sampleElsewhere (by decide +kernel)
    (by decide +kernel)
  have hin : tr.map Handled.input = tr'.map Handled.input := by
    rw [inputs_of_recvs htr, inputs_of_recvs htr', sampleElsewhere, List.map_map]
    rfl
  exact ⟨tr, s, tr', s', hr, hr', htr, htr',
    allocator_unseen sampleStart_initial sampleStart_initial hr hr' hin⟩

end Miresga.Frontend
