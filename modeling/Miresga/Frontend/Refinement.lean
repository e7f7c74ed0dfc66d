import Miresga.Frontend.Connection
import Miresga.Frontend.Offload
import Miresga.Frontend.Routing

/-!
# Frontend — `process_pkts` keeps one connection for each client

The loop body, on the flow table and its two heaps, does what the connections of Connection.lean do:
the same frames, the same requests to the switch, and the table that stands for the connections
behind it.

* `Plan.Meets`: a plan carries out a reaction, or stops where the reaction finds no server;
* `process_pkt_meets`: the plan of a packet meets the reaction of the connections to it, in every
  sound state whose records have their packet;
* `front_step`, `front_run`: a step of the front-end is a step of the connections, and a run is a run.

A packet that is cached has to reach up to its sequence number.  Of a shorter one, the sequence number
of a client's repetition would be compared with what its block held before.
-/

namespace Miresga.Frontend

/-- The packet reaches up to the end of its sequence number. -/
def Mbuf.Sequenced (p : Mbuf) : Prop := 42 ≤ p.data_len.toNat

/-- The record has a packet, which reaches up to the end of its sequence number. -/
def FlowData.Packed (f : FlowData) : Prop := ∃ q, f.recv_pkt = some q ∧ 42 ≤ f.pkt_size

theorem FlowData.Packed.lasting : Lasting FlowData.Packed := fun _ _ _ h => h

section conn

variable {s s' : Shared} {c : Client} {a : Addr}

/-! ### The connections behind an operation -/

theorem conn_none (h : s.find c = none) : s.conn c = .closed := by simp only [Shared.conn, h]

theorem conn_found (h : s.find c = some a) : s.conn c = s.conn_of (s.flow a) := by
  simp only [Shared.conn, h]

theorem conn_of_congr {f : FlowData}
    (h : ∀ q, f.recv_pkt = some q → s'.cached.cell q = s.cached.cell q) :
    s'.conn_of f = s.conn_of f := by
  unfold Shared.conn_of
  cases hq : f.recv_pkt with
  | none => rfl
  | some q => simp only [Option.map_some, h q hq]

/-- A change at one client's entry, record or packet changes that client's connection only. -/
theorem conn_upd {q : Conn} (hfind : ∀ c', c' ≠ c → s'.find c' = s.find c')
    (hflow : ∀ c' b, c' ≠ c → s.find c' = some b → s'.flow b = s.flow b)
    (hpkt : ∀ c' b q, c' ≠ c → s.find c' = some b → (s.flow b).recv_pkt = some q →
      s'.cached.cell q = s.cached.cell q)
    (hq : s'.conn c = q) : s'.conn = upd s.conn c q := by
  funext c'
  by_cases hc : c' = c
  · rw [hc, upd_same, hq]
  · rw [upd_other _ _ _ hc]
    cases hf : s.find c' with
    | none => rw [conn_none hf, conn_none ((hfind c' hc).trans hf)]
    | some b =>
        rw [conn_found hf, conn_found ((hfind c' hc).trans hf), hflow c' b hc hf]
        exact conn_of_congr (hpkt c' b · hc hf)

/-- The connections are read off the table and the contents of the two heaps. -/
theorem conn_congr (ht : s'.flow_hash_map = s.flow_hash_map) (hf : s'.flows.cell = s.flows.cell)
    (hc : s'.cached.cell = s.cached.cell) : s'.conn = s.conn := by
  funext c
  simp only [Shared.conn, Shared.conn_of, Shared.find, Shared.flow, ht, hf, hc]

theorem conn_release : (s.release a).conn = s.conn := by
  refine conn_congr (release_table ..) (by simp) ?_
  rw [release_cached, Traced.free_pkt_cell]

theorem conn_unoffload : (s.unoffload c a).conn = s.conn :=
  conn_congr (by simp) (by simp) (by simp)

theorem conn_set_state (h : Sound s) (hf : s.find c = some a) (st : FlowState) :
    (s.set_state a st).conn = upd s.conn c (s.conn_of { s.flow a with state := st }) := by
  have hf' : (s.set_state a st).find c = some a := hf
  refine conn_upd (fun _ _ => rfl) (fun c' b hc hb => ?_) (fun _ _ _ _ _ _ => rfl) ?_
  · exact set_state_flow_other _ _ _ (h.other hf hc hb)
  · rw [conn_found hf', set_state_flow_same]
    exact conn_of_congr fun _ _ => rfl

theorem conn_close : (s.close c a).conn = upd s.conn c .closed := by
  have herase : (s.erase c).conn = upd s.conn c .closed := by
    refine conn_upd (fun c' hc => ?_) (fun _ _ _ _ => rfl) (fun _ _ _ _ _ _ => rfl) ?_
    · exact erase_other _ _ fun e => hc (Client.slot_inj.mp e)
    · exact conn_none (erase_same _ _)
  have hun : ((s.unoffload c a).erase c).conn = (s.erase c).conn := by
    refine conn_congr ?_ (by simp) (by simp)
    simp only [Shared.erase, unoffload_table]
  rw [Shared.close, conn_release, hun, herase]

/-- A record that waits, with the packet in its block. -/
theorem conn_of_await {data : MyData} {q : Addr} {p : Mbuf} {m : Mem}
    (hq : s.cached.cell q = m.copy p.data p.data_len.toNat) :
    s.conn_of (Shared.await data q p) = .waiting data p.frame := by
  simp only [Shared.conn_of, Shared.await, Option.map_some, Option.getD_some, hq, bytes_copy,
    Mbuf.frame]

theorem conn_move (h : Sound s) {mem : Alloc} (hk : Keeps s mem) (hf : s.find c = some a)
    {data : MyData} {p : Mbuf} (hm : s.move a data mem.recv_pkt p = some s') :
    s'.conn = upd s.conn c (.waiting data p.frame) := by
  obtain ⟨hl, ht, -, hfl, -, -, hcell⟩ := move_eq_some hm
  have hfind : ∀ c', s'.find c' = s.find c' := fun c' => by rw [Shared.find, ht, Shared.find]
  refine conn_upd (fun c' _ => hfind c') (fun c' b hc hb => ?_) (fun c' b q hc hb hq => ?_) ?_
  · rw [Shared.flow, hfl, Heap.put_cell_other _ (h.other hf hc hb), Shared.flow]
  · have hne : q ≠ mem.recv_pkt := fun e =>
      h.pkt_fresh_free hk hf hl hb (h.other hf hc hb) (e ▸ hq)
    rw [hcell, upd_other _ _ _ hne, Traced.free_pkt_cell]
  · rw [conn_found ((hfind c).trans hf), Shared.flow, hfl, Heap.put_cell_same]
    refine conn_of_await (m := (s.free_pkt a).cached.cell mem.recv_pkt) ?_
    rw [hcell, upd_same]

theorem conn_create (h : Sound s) {mem : Alloc} (hk : Keeps s mem) (hn : s.find c = none)
    {data : MyData} {p : Mbuf} (hc : s.create c data mem p = some s') :
    s'.conn = upd s.conn c (.waiting data p.frame) := by
  obtain ⟨hlf, hlq, ht, -, -, -, -, hcell, -, hpkt⟩ := create_eq_some hc hn
  have hf : s'.find c = some mem.flow_data := by rw [Shared.find, ht, upd_same]
  refine conn_upd (fun c' hne => ?_) (fun c' b _ hb => ?_) (fun c' b q _ hb hq => ?_) ?_
  · rw [Shared.find, ht, upd_other _ _ _ fun e => hne (Client.slot_inj.mp e), Shared.find]
  · rw [Shared.flow, hcell, upd_other _ _ _ (hk.flow_fresh hlf hb), Shared.flow]
  · have hne : q ≠ mem.recv_pkt := fun e => h.pkt_fresh hk hlq hb (e ▸ hq)
    rw [hpkt, upd_other _ _ _ hne]
  · rw [conn_found hf, Shared.flow, hcell, upd_same]
    refine conn_of_await (m := s.cached.cell mem.recv_pkt) ?_
    rw [hpkt, upd_same]

/-- The request that ends an offload is enqueued if the record is in state OFFLOAD. -/
theorem unoffload_enqueued :
    (s.unoffload c a).enqueued =
      s.enqueued ++ Conn.unoffload c (decide ((s.flow a).state = .OFFLOAD)) := by
  unfold Shared.unoffload Conn.unoffload
  by_cases h : (s.flow a).state = .OFFLOAD
  · rw [if_pos h, if_pos (decide_eq_true h)]
    rfl
  · rw [if_neg h, if_neg (by simpa using h), List.append_nil]

theorem close_enqueued :
    (s.close c a).enqueued =
      s.enqueued ++ Conn.unoffload c (decide ((s.flow a).state = .OFFLOAD)) := by
  rw [Shared.close, release_enqueued, erase_enqueued, unoffload_enqueued]

end conn

/-! ### Plans that carry out a reaction -/

/-- The plan made in `s` carries out the reaction `r` of `c`'s connection: all of it, or as much of it
as comes before a server that is missing. -/
inductive Plan.Meets (rc : RuleController) (s : Shared) (c : Client) (r : Reaction) : Plan → Prop where
  | next {cs : List Call} {s' : Shared} (hcs : ∀ x ∈ cs, x.served rc = true)
      (hr : r.calls = cs.map Call.cut) (hconn : s'.conn = upd s.conn c r.conn)
      (henq : s'.enqueued = s.enqueued ++ r.enqueued) : Meets rc s c r (.next cs s')
  | fail {cs : List Call} {x : Call} {rest : List Call} (hcs : ∀ x ∈ cs, x.served rc = true)
      (hx : x.served rc = false) (ht : x.tested = true)
      (hr : r.calls = cs.map Call.cut ++ x.cut :: rest) : Meets rc s c r (.fail cs x s)
  | null {cs : List Call} {x : Call} {rest : List Call} (hcs : ∀ x ∈ cs, x.served rc = true)
      (hx : x.served rc = false) (ht : x.tested = false)
      (hr : r.calls = cs.map Call.cut ++ x.cut :: rest) : Meets rc s c r (.null cs x)
  | overflow : Meets rc s c r .overflow
  | refused : Meets rc s c r .refused

/-- The code `f`, run on any send buffers, carries out the reaction. -/
def Meeting (rc : RuleController) (s : Shared) (c : Client) (r : Reaction) (f : Sends → Outcome) :
    Prop :=
  ∃ P : Plan, P.Meets rc s c r ∧ ∀ t, f t = P.exec rc t

section meeting

variable {rc : RuleController} {s s₁ : Shared} {c : Client} {q : Conn} {es : List Enq}

/-- The code ends in a state that shows the reaction. -/
theorem Meeting.next {s' : Shared} (hconn : s'.conn = upd s.conn c q)
    (henq : s'.enqueued = s.enqueued ++ es) :
    Meeting rc s c ⟨q, [], es⟩ fun t => .next ⟨s', t⟩ :=
  ⟨.next [] s', .next (by simp) rfl hconn henq, fun _ => rfl⟩

/-- Nothing happens. -/
theorem Meeting.ignore (hq : s.conn c = q) :
    Meeting rc s c (.ignore q) fun t => .next ⟨s, t⟩ :=
  .next (by rw [← hq, upd_self]) (List.append_nil _).symm

/-- The last step may find no address free. -/
theorem Meeting.stored {o : Option Shared}
    (h : ∀ s', o = some s' → s'.conn = upd s.conn c q ∧ s'.enqueued = s.enqueued ++ es) :
    Meeting rc s c ⟨q, [], es⟩ fun t => Proc.stored ⟨s₁, t⟩ o := by
  cases o with
  | none => exact ⟨.refused, .refused, fun _ => rfl⟩
  | some s' => exact .next (h s' rfl).1 (h s' rfl).2

/-- A URL that does not fit ends the code. -/
theorem Meeting.copy {r : Reaction} {p : Mbuf} {k : Sends → List Byte → Outcome}
    (h : Meeting rc s c r fun t => k t (url_copy p.data)) :
    Meeting rc s c r fun t => copy_url none p (k t) := by
  cases hfits : url_fits p.data with
  | false => exact ⟨.overflow, .overflow, fun t => copy_url_overflow hfits none (k t)⟩
  | true =>
      simp only [copy_url_fits hfits]
      exact h

theorem Plan.Meets.cons {x : Call} {calls : List Call} {P : Plan} (hx : x.served rc = true)
    (h : P.Meets rc s c ⟨q, calls, es⟩) : (P.cons x).Meets rc s c ⟨q, x.cut :: calls, es⟩ := by
  have all : ∀ {cs : List Call}, (∀ y ∈ cs, y.served rc = true) → ∀ y ∈ x :: cs, y.served rc = true :=
    fun {cs} hcs y hy => by
      rcases List.mem_cons.mp hy with rfl | hy
      · exact hx
      · exact hcs y hy
  cases h with
  | next hcs hr hconn henq => exact .next (all hcs) (congrArg (x.cut :: ·) hr) hconn henq
  | fail hcs hx' ht hr => exact .fail (all hcs) hx' ht (congrArg (x.cut :: ·) hr)
  | null hcs hx' ht hr => exact .null (all hcs) hx' ht (congrArg (x.cut :: ·) hr)
  | overflow => exact .overflow
  | refused => exact .refused

/-- **A call in front.**  `F` runs with the buffer counted; a call that tests its server comes before
any change. -/
theorem Meeting.call {x : Call} {calls : List Call} {k : Proc → Outcome} (F : Proc → Outcome)
    (hk : ∀ y, k y = F y.bump) (hs : x.tested = true → s₁ = s)
    (h : Meeting rc s c ⟨q, calls, es⟩ fun t => F ⟨s₁, t⟩) :
    Meeting rc s c ⟨q, x.cut :: calls, es⟩ fun t => Frontend.call rc ⟨s₁, t⟩ x k := by
  cases hx : x.served rc with
  | true =>
      obtain ⟨P, hP, he⟩ := h
      refine ⟨P.cons x, hP.cons hx, fun t => ?_⟩
      rw [Plan.exec_cons, ← he]
      exact call_served t F hk hx
  | false =>
      cases ht : x.tested with
      | true =>
          obtain rfl := hs ht
          exact ⟨.fail [] x s₁, .fail (by simp) hx ht rfl, fun t => call_tested t hx ht⟩
      | false => exact ⟨.null [] x, .null (by simp) hx ht rfl, fun t => call_untested t hx ht⟩

/-- The call is the last thing that happens. -/
theorem Meeting.call_last {x : Call} {f : Shared → Shared} (hs : x.tested = true → s₁ = s)
    (hconn : (f s₁).conn = upd s.conn c q) (henq : (f s₁).enqueued = s.enqueued ++ es) :
    Meeting rc s c ⟨q, [x.cut], es⟩ fun t =>
      Frontend.call rc ⟨s₁, t⟩ x fun y => .next (y.bump.on f) :=
  .call (fun y => .next (y.on f)) (fun _ => rfl) hs (.next hconn henq)

/-- The call changes nothing. -/
theorem Meeting.call_only {x : Call} (hq : s.conn c = q) :
    Meeting rc s c ⟨q, [x.cut], []⟩ fun t => Frontend.call rc ⟨s, t⟩ x fun y => .next y.bump :=
  .call .next (fun _ => rfl) (fun _ => rfl) (.ignore hq)

end meeting

/-! ### The loop body carries out reactions -/

section meets

/-- A call that does not test its server may come behind a change. -/
theorem untested {P : Prop} {x : Call} (hx : x.tested = false) (ht : x.tested = true) : P :=
  absurd (hx.symm.trans ht) Bool.false_ne_true

variable {rc : RuleController} {mem : Alloc} {p : Mbuf} {s : Shared} {c : Client} {a : Addr}

theorem conn_established (hf : s.find c = some a) (he : (s.flow a).Established) :
    s.conn c = .established (s.flow a).entry_data (decide ((s.flow a).state = .OFFLOAD)) := by
  rw [conn_found hf, Shared.conn_of]
  rcases he with he | he <;> simp [he]

/-- A record in one of the two established states, put into the other or the same. -/
theorem conn_set_established (h : Sound s) (hf : s.find c = some a) (offloaded : Bool) :
    (s.set_state a (if offloaded then .OFFLOAD else .COMPLETE)).conn =
      upd s.conn c (.established (s.flow a).entry_data offloaded) := by
  rw [conn_set_state h hf]
  cases offloaded <;> rfl

theorem client_payload_meets (h : Sound s) (hk : Keeps s mem)
    (hf : s.find (srcClient p.data) = some a) (he : (s.flow a).Established) :
    Meeting rc s (srcClient p.data)
      (Conn.request rc (srcClient p.data) p (s.flow a).entry_data
        (decide ((s.flow a).state = .OFFLOAD)))
      fun t => client_payload none rc mem p ⟨s, t⟩ a := by
  have hconn := conn_established hf he
  unfold client_payload Conn.request
  dsimp only
  simp only [if_neg (parse_url_size p.data)]
  refine .copy ?_
  cases hr : rule rc p with
  | none =>
      have hr' : rc.lookup_balancing_rule (url_copy p.data) = none := hr
      simp only [hr']
      exact .ignore hconn
  | some data =>
      have hr' : rc.lookup_balancing_rule (url_copy p.data) = some data := hr
      simp only [hr']
      by_cases hd : data.d_index ≠ (s.flow a).entry_data.d_index
      · simp only [if_pos hd]
        -- the flow changes its backend
        let F : Proc → Outcome := fun x => x.stored (x.shared.move a data mem.recv_pkt p)
        have hf' := (unoffload_find s (srcClient p.data) a (srcClient p.data)).trans hf
        have hk' : Keeps (s.unoffload (srcClient p.data) a) mem := fun k b e hl => by
          simp only [unoffload_table, unoffload_flows] at e hl
          rw [unoffload_flow]
          exact hk k b e hl
        have hmove : Meeting rc s (srcClient p.data) ⟨.waiting data p.frame, [],
            Conn.unoffload (srcClient p.data) (decide ((s.flow a).state = .OFFLOAD))⟩
            fun t => F ⟨s.unoffload (srcClient p.data) a, t⟩ := by
          dsimp only [F]
          refine .stored fun s' hs' => ?_
          rw [conn_move (h.unoffload _ _) hk' hf' hs', conn_unoffload,
            (move_eq_some hs').2.2.1, unoffload_enqueued]
          exact ⟨rfl, rfl⟩
        have hsyn := Meeting.call (x := .send_syn_pkt data.d_index p)
          (k := fun x => F x.bump) F (fun _ => rfl) (untested rfl) hmove
        exact .call (x := .send_rst_pkt (s.flow a).entry_data.d_index p)
          (fun x => call rc (x.on (·.unoffload (srcClient p.data) a))
            (.send_syn_pkt data.d_index p) fun x => F x.bump) (fun _ => rfl) (untested rfl) hsyn
      · simp only [if_neg hd]
        -- it stays with its backend, and may go to the switch or come back from it
        have hset := conn_set_established h hf
        have last : ∀ {q : Conn} {es : List Enq} (f : Shared → Shared),
            (f s).conn = upd s.conn (srcClient p.data) q → (f s).enqueued = s.enqueued ++ es →
            Meeting rc s (srcClient p.data)
              ⟨q, [.forward_inbound_pkt (s.flow a).entry_data.d_index p], es⟩ fun t =>
                call rc ⟨s, t⟩ (.forward_inbound_pkt (s.flow a).entry_data.d_index p)
                  fun y => .next (y.bump.on f) := fun _ hconn henq =>
          .call_last (x := .forward_inbound_pkt _ p) (fun _ => rfl) hconn henq
        rcases he with he | he
        · rw [he] at hconn
          by_cases hoff : data.offload_flag = 1
          · simp only [he, hoff, reduceCtorEq, decide_false, and_self, if_true]
            exact last (fun h => (h.set_state a .OFFLOAD).enqueue _) (hset true) rfl
          · simp only [he, hoff, reduceCtorEq, decide_false, and_false, false_and, if_false,
              Bool.false_eq_true]
            exact .call_only (x := .forward_inbound_pkt _ p) hconn
        · rw [he] at hconn
          by_cases hoff : data.offload_flag = 0
          · simp only [he, hoff, reduceCtorEq, decide_true, Bool.true_eq_false, and_self, if_true,
              false_and, if_false]
            exact last (fun h => (h.set_state a .COMPLETE).enqueue _) (hset false) rfl
          · simp only [he, hoff, reduceCtorEq, decide_true, Bool.true_eq_false, and_false, if_false,
              false_and]
            exact .call_only (x := .forward_inbound_pkt _ p) hconn

theorem client_established_meets (h : Sound s) (hk : Keeps s mem)
    (hf : s.find (srcClient p.data) = some a) (he : (s.flow a).Established) :
    Meeting rc s (srcClient p.data)
      ((s.conn (srcClient p.data)).from_client rc (srcClient p.data) p)
      fun t => client_established none rc mem p ⟨s, t⟩ a := by
  have hconn := conn_established hf he
  have hclose : Meeting rc s (srcClient p.data) ⟨.closed, [],
      Conn.unoffload (srcClient p.data) (decide ((s.flow a).state = .OFFLOAD))⟩
      fun t => .next (Proc.on ⟨s, t⟩ (·.close (srcClient p.data) a)) :=
    .next conn_close close_enqueued
  rw [hconn]
  unfold client_established Conn.from_client
  dsimp only
  by_cases hr : rst p.data = true
  · simp only [if_pos hr]
    exact .call (x := .forward_inbound_pkt (s.flow a).entry_data.d_index p)
      (fun x => .next (x.on (·.close (srcClient p.data) a))) (fun _ => rfl) (fun _ => rfl) hclose
  simp only [if_neg hr]
  by_cases hfin : fin p.data = true
  · simp only [if_pos hfin]
    have hfwd := Meeting.call
      (x := .forward_inbound_pkt (s.flow a).entry_data.d_index (with_rst p))
      (k := fun x => .next (x.bump.on (·.close (srcClient p.data) a)))
      (fun x => .next (x.on (·.close (srcClient p.data) a))) (fun _ => rfl) (fun _ => rfl) hclose
    exact .call (x := .reply_rst_pkt p) (fun x => call rc x
      (.forward_inbound_pkt (s.flow a).entry_data.d_index (with_rst p))
      fun x => .next (x.bump.on (·.close (srcClient p.data) a))) (fun _ => rfl) (untested rfl) hfwd
  simp only [if_neg hfin]
  by_cases hp : payload_flag p.data = true
  · simp only [if_pos hp]
    exact client_payload_meets h hk hf he
  · simp only [if_neg hp]
    exact .call_only (x := .forward_inbound_pkt (s.flow a).entry_data.d_index p) hconn

/-- A record that waits and has a packet. -/
theorem conn_waiting {q : Addr} (hf : s.find c = some a) (hs : (s.flow a).state = .BACKEND_SYN)
    (hq : (s.flow a).recv_pkt = some q) :
    s.conn c = .waiting (s.flow a).entry_data ((s.cached.cell q).bytes 0 (s.flow a).pkt_size) := by
  simp only [conn_found hf, Shared.conn_of, hs, hq, Option.map_some, Option.getD_some]

theorem client_backend_syn_meets (hP : Records FlowData.Packed s)
    (hf : s.find (srcClient p.data) = some a) (hs : (s.flow a).state = .BACKEND_SYN) :
    Meeting rc s (srcClient p.data)
      ((s.conn (srcClient p.data)).from_client rc (srcClient p.data) p)
      fun t => client_backend_syn rc p ⟨s, t⟩ a := by
  obtain ⟨q, hq, hlen⟩ := hP _ a hf
  have hconn := conn_waiting hf hs hq
  rw [hconn]
  unfold client_backend_syn Conn.from_client
  dsimp only
  by_cases hfr : (fin p.data || rst p.data) = true
  · simp only [if_pos hfr]
    refine .call_last (x := .reply_rst_pkt p) (f := (·.release a)) (untested rfl) ?_ ?_
    · rw [conn_release, ← hconn, upd_self]
    · rw [release_enqueued, List.append_nil]
  simp only [if_neg hfr, hq]
  have hseq : sent_seq (image ((s.cached.cell q).bytes 0 (s.flow a).pkt_size)) =
      sent_seq (s.cached.cell q) := image_ld32 _ hlen
  rw [hseq]
  by_cases he : sent_seq (s.cached.cell q) = sent_seq p.data
  · simp only [if_pos he]
    exact .call_only (x := .send_syn_pkt (s.flow a).entry_data.d_index p) hconn
  · simp only [if_neg he]
    exact .ignore hconn

theorem conn_establish (h : Sound s) (hf : s.find c = some a) :
    (s.establish c a).conn = upd s.conn c
      (.established (s.flow a).entry_data ((s.flow a).entry_data.offload_flag == 1)) ∧
    (s.establish c a).enqueued = s.enqueued ++
      if (s.flow a).entry_data.offload_flag = 1 then [.add ⟨c.my_key, (s.flow a).entry_data⟩]
      else [] := by
  have hset := conn_set_established h hf
  unfold Shared.establish
  by_cases hoff : (s.flow a).entry_data.offload_flag = 1
  · simp only [if_pos hoff, beq_iff_eq.mpr hoff]
    exact ⟨hset true, rfl⟩
  · simp only [if_neg hoff, beq_eq_false_iff_ne.mpr hoff]
    exact ⟨hset false, (List.append_nil _).symm⟩

theorem backend_syn_ack_meets (h : Sound s) (hP : Records FlowData.Packed s)
    (hf : s.find (dstClient p.data) = some a) (hs : (s.flow a).state = .BACKEND_SYN) :
    Meeting rc s (dstClient p.data) ((s.conn (dstClient p.data)).to_client (dstClient p.data) p)
      fun t => backend_syn_ack rc p ⟨s, t⟩ a := by
  obtain ⟨q, hq, -⟩ := hP _ a hf
  have hconn := conn_waiting hf hs hq
  rw [hconn]
  unfold backend_syn_ack Conn.to_client
  dsimp only
  by_cases hflags : tcp_flags p.data ≠ TCP_ACK_FLAG ||| TCP_SYN_FLAG
  · simp only [if_pos hflags]
    exact .ignore hconn
  simp only [if_neg hflags, hq, Mem.length_bytes]
  obtain ⟨hest, henq⟩ := conn_establish h hf
  have hend : Meeting rc s (dstClient p.data)
      ⟨.established (s.flow a).entry_data ((s.flow a).entry_data.offload_flag == 1), [], _⟩
      fun t => .next ⟨s.establish (dstClient p.data) a, t⟩ := .next hest henq
  have hcall := Meeting.call
    (x := .send_cached_pkt (s.flow a).entry_data.d_index
      ((s.establish (dstClient p.data) a).cached.cell q) (s.flow a).pkt_size)
    (k := fun x => .next x.bump) .next (fun _ => rfl) (untested rfl) hend
  rw [Call.cut, establish_cached] at hcall
  simp only [Proc.on, establish_cached]
  exact hcall

theorem backend_established_meets (hf : s.find (dstClient p.data) = some a)
    (he : (s.flow a).Established) :
    Meeting rc s (dstClient p.data) ((s.conn (dstClient p.data)).to_client (dstClient p.data) p)
      fun t => backend_established rc p ⟨s, t⟩ a := by
  have hconn := conn_established hf he
  have hclose : Meeting rc s (dstClient p.data) ⟨.closed, [],
      Conn.unoffload (dstClient p.data) (decide ((s.flow a).state = .OFFLOAD))⟩
      fun t => .next (Proc.on ⟨s, t⟩ (·.close (dstClient p.data) a)) :=
    .next conn_close close_enqueued
  rw [hconn]
  unfold backend_established Conn.to_client
  dsimp only
  by_cases hr : rst p.data = true
  · simp only [if_pos hr]
    exact .call (x := .forward_outbound_pkt p)
      (fun x => .next (x.on (·.close (dstClient p.data) a))) (fun _ => rfl) (untested rfl) hclose
  simp only [if_neg hr]
  by_cases hfin : fin p.data = true
  · simp only [if_pos hfin]
    have hfwd := Meeting.call (x := .forward_outbound_pkt (with_rst p))
      (k := fun x => .next (x.bump.on (·.close (dstClient p.data) a)))
      (fun x => .next (x.on (·.close (dstClient p.data) a))) (fun _ => rfl) (untested rfl) hclose
    exact .call (x := .reply_rst_pkt p) (fun x => call rc x (.forward_outbound_pkt (with_rst p))
      fun x => .next (x.bump.on (·.close (dstClient p.data) a))) (fun _ => rfl) (untested rfl) hfwd
  · simp only [if_neg hfin]
    exact .call_only (x := .forward_outbound_pkt p) hconn

theorem new_flow_meets (h : Sound s) (hk : Keeps s mem) (hn : s.find (srcClient p.data) = none) :
    Meeting rc s (srcClient p.data)
      ((s.conn (srcClient p.data)).from_client rc (srcClient p.data) p)
      fun t => new_flow none rc mem p ⟨s, t⟩ := by
  have hconn := conn_none hn
  rw [hconn]
  unfold new_flow Conn.from_client
  dsimp only
  by_cases hp : (!payload_flag p.data) = true
  · simp only [if_pos hp]
    exact .ignore hconn
  simp only [if_neg hp, if_neg (parse_url_size p.data)]
  refine .copy ?_
  cases hr : rule rc p with
  | none =>
      have hr' : rc.lookup_balancing_rule (url_copy p.data) = none := hr
      simp only [hr']
      exact .ignore hconn
  | some data =>
      have hr' : rc.lookup_balancing_rule (url_copy p.data) = some data := hr
      simp only [hr']
      let F : Proc → Outcome := fun x => x.stored (x.shared.create (srcClient p.data) data mem p)
      have hstored : Meeting rc s (srcClient p.data) ⟨.waiting data p.frame, [], []⟩
          fun t => F ⟨s, t⟩ := by
        dsimp only [F]
        refine .stored fun s' hs' => ?_
        rw [conn_create h hk hn hs', (create_eq_some hs' hn).2.2.2.1, List.append_nil]
        exact ⟨rfl, rfl⟩
      exact .call (x := .send_syn_pkt data.d_index p) F (fun _ => rfl) (untested rfl) hstored

end meets

/-! ### The packet finds its connection -/

section dispatch

variable {rc : RuleController} {mem : Alloc} {p : Mbuf} {s : Shared}

/-- A client without connection is one without entry. -/
theorem conn_closed (h : Sound s) {c : Client} : s.conn c = .closed ↔ s.find c = none := by
  refine ⟨fun hc => ?_, conn_none⟩
  cases hf : s.find c with
  | none => rfl
  | some a =>
      rw [conn_found hf, Shared.conn_of] at hc
      cases hs : (s.flow a).state with
      | INIT => exact absurd hs (h.inited hf)
      | BACKEND_SYN | OFFLOAD | COMPLETE => simp [hs] at hc

theorem owner_src {m : Conns} (h : m (srcClient p.data) ≠ .closed) : m.owner p = srcClient p.data :=
  if_neg fun hc => h hc.1

theorem owner_dst {m : Conns} (hs : m (srcClient p.data) = .closed)
    (hd : m (dstClient p.data) ≠ .closed) : m.owner p = dstClient p.data := if_pos ⟨hs, hd⟩

theorem owner_new {m : Conns} (hd : m (dstClient p.data) = .closed) :
    m.owner p = srcClient p.data := if_neg fun hc => hc.2 hd

theorem react_src {m : Conns} (ht : isTcp p.data) (ho : m.owner p = srcClient p.data) :
    m.react rc p = (m (srcClient p.data)).from_client rc (srcClient p.data) p := by
  rw [Conns.react, if_neg (not_not.mpr ht), if_pos ho]

theorem react_dst {m : Conns} (ht : isTcp p.data) (hs : m (srcClient p.data) = .closed)
    (hd : m (dstClient p.data) ≠ .closed) :
    m.react rc p = (m (dstClient p.data)).to_client (dstClient p.data) p := by
  have ho := owner_dst hs hd
  rw [Conns.react, if_neg (not_not.mpr ht), if_neg fun e => hd ((ho.symm.trans e) ▸ hs)]

/-- A packet whose source has no entry. -/
theorem from_backend_meets (h : Sound s) (hk : Keeps s mem) (hP : Records FlowData.Packed s)
    (ht : isTcp p.data) (hn : s.find (srcClient p.data) = none) :
    Meeting rc s (s.conn.owner p) (s.conn.react rc p)
      fun t => from_backend none rc mem p ⟨s, t⟩ := by
  have hsrc : s.conn (srcClient p.data) = .closed := conn_none hn
  cases hf : s.find (dstClient p.data) with
  | none =>
      have ho := owner_new (m := s.conn) (conn_none hf)
      rw [react_src ht ho, ho]
      simp only [from_backend, hf]
      exact new_flow_meets h hk hn
  | some a =>
      have hdst : s.conn (dstClient p.data) ≠ .closed := fun hc => by
        rw [(conn_closed h).mp hc] at hf
        cases hf
      rw [react_dst ht hsrc hdst, owner_dst hsrc hdst]
      cases hs : (s.flow a).state with
      | INIT => exact absurd hs (h.inited hf)
      | BACKEND_SYN =>
          simp only [from_backend, hf, hs]
          exact backend_syn_ack_meets h hP hf hs
      | COMPLETE =>
          simp only [from_backend, hf, hs]
          exact backend_established_meets hf (.inl hs)
      | OFFLOAD =>
          simp only [from_backend, hf, hs]
          exact backend_established_meets hf (.inr hs)

/-- **The loop body carries out the reaction of the connections.** -/
theorem process_pkt_meets (h : Sound s) (hk : Keeps s mem) (hP : Records FlowData.Packed s) :
    Meeting rc s (s.conn.owner p) (s.conn.react rc p)
      fun t => process_pkt rc mem p ⟨s, t⟩ := by
  unfold process_pkt process_pkt_within
  by_cases ht : isTcp p.data
  · simp only [if_neg (not_not.mpr ht.1), if_neg (not_not.mpr ht.2)]
    cases hf : s.find (srcClient p.data) with
    | none => exact from_backend_meets h hk hP ht hf
    | some a =>
        have hsrc : s.conn (srcClient p.data) ≠ .closed := fun hc => by
          rw [(conn_closed h).mp hc] at hf
          cases hf
        have ho := owner_src hsrc
        rw [react_src ht ho, ho]
        cases hs : (s.flow a).state with
        | INIT => exact absurd hs (h.inited hf)
        | BACKEND_SYN => simpa only [hs] using client_backend_syn_meets hP hf hs
        | COMPLETE => simpa only [hs] using client_established_meets h hk hf (.inl hs)
        | OFFLOAD => simpa only [hs] using client_established_meets h hk hf (.inr hs)
  · rw [Conns.react, if_pos ht]
    by_cases he : ether_type p.data = htons ETHER_TYPE_IPV4
    · have hp : next_proto_id p.data ≠ IPPROTO_TCP := fun hn => ht ⟨he, hn⟩
      simp only [if_neg (not_not.mpr he), if_pos hp]
      exact .ignore rfl
    · simp only [if_pos he]
      exact .ignore rfl

end dispatch

/-! ### Steps and runs -/

theorem find?_prefix {rc : RuleController} {cs : List Call} (h : ∀ x ∈ cs, x.served rc = true)
    (rest : List Call) :
    (cs.map Call.cut ++ rest).find? (!·.served rc) = rest.find? (!·.served rc) := by
  rw [List.find?_append, List.find?_eq_none.mpr, Option.none_or]
  intro y hy
  obtain ⟨x, hx, rfl⟩ := List.mem_map.mp hy
  simp [cut_served, h x hx]

theorem takeWhile_prefix {rc : RuleController} {cs : List Call} (h : ∀ x ∈ cs, x.served rc = true)
    {x : Call} (hx : x.served rc = false) (rest : List Call) :
    (cs.map Call.cut ++ x.cut :: rest).takeWhile (·.served rc) = cs.map Call.cut := by
  rw [List.takeWhile_append_of_pos, List.takeWhile_cons_of_neg (by simp [cut_served, hx]),
    List.append_nil]
  intro y hy
  obtain ⟨x', hx', rfl⟩ := List.mem_map.mp hy
  rw [cut_served]
  exact h x' hx'

namespace Plan.Meets

variable {rc : RuleController} {s s' : Shared} {c : Client} {r : Reaction} {cs : List Call} {x : Call}

theorem commit_next (h : (Plan.next cs s').Meets rc s c r) (q : Conn) :
    r.commit rc q = some r ∧ r.calls = cs.map Call.cut ∧ s'.conn = upd s.conn c r.conn ∧
      s'.enqueued = s.enqueued ++ r.enqueued := by
  cases h with
  | next hcs hr hconn henq =>
      have hn := find?_prefix hcs []
      rw [List.append_nil, ← hr, List.find?_nil] at hn
      exact ⟨by rw [Reaction.commit, hn], hr, hconn, henq⟩

theorem commit_fail (h : (Plan.fail cs x s').Meets rc s c r) (q : Conn) :
    r.commit rc q = some ⟨q, cs.map Call.cut, []⟩ ∧ s' = s := by
  cases h with
  | @fail _ _ rest hcs hx ht hr =>
      have hn := find?_prefix hcs (x.cut :: rest)
      rw [← hr, List.find?_cons_of_pos (by simp [cut_served, hx])] at hn
      have hw := takeWhile_prefix hcs hx rest
      rw [← hr] at hw
      refine ⟨?_, rfl⟩
      rw [Reaction.commit, hn]
      simp only [cut_tested, ht, if_true, hw]

theorem commit_null (h : (Plan.null cs x).Meets rc s c r) (q : Conn) : r.commit rc q = none := by
  cases h with
  | @null _ _ rest hcs hx ht hr =>
      have hn := find?_prefix hcs (x.cut :: rest)
      rw [← hr, List.find?_cons_of_pos (by simp [cut_served, hx])] at hn
      rw [Reaction.commit, hn]
      simp only [cut_tested, ht, Bool.false_eq_true, if_false]

end Plan.Meets

/-- A packet that was handled, with the frames made for it and the requests to the switch. -/
structure Handled where
  recv : Recv
  calls : List Call
  enqueued : List Enq

namespace Handled

def input (x : Handled) : Input := (x.recv.rc, x.recv.pkt)

/-- What a connection knows of it. -/
def shown (x : Handled) : Input × List Call × List Enq :=
  (x.input, x.calls.map Call.cut, x.enqueued)

/-- What can be seen of it: what the builders make of any send buffer, and the requests. -/
def visible (x : Handled) : Input × List (Mbuf → Option (Status × Mbuf)) × List Enq :=
  (x.input, x.calls.map fun c b => c.build x.recv.rc b, x.enqueued)

theorem visible_shown {x y : Handled} (h : x.shown = y.shown) : x.visible = y.visible := by
  obtain ⟨⟨rc, p, mem⟩, cs, es⟩ := x
  obtain ⟨⟨rc', p', mem'⟩, cs', es'⟩ := y
  simp only [shown, input, Prod.mk.injEq] at h
  obtain ⟨⟨rfl, rfl⟩, hc, rfl⟩ := h
  have hb := congrArg (List.map fun c b => Call.build rc b c) hc
  simp only [List.map_map, Function.comp_def, build_cut] at hb
  simp only [visible, input, hb]

end Handled

/-- A packet long enough is handled, and no record released while in the table loses its contents. -/
def HandleStep (s : Shared) (x : Handled) (s' : Shared) : Prop :=
  Keeps s x.recv.mem ∧ x.recv.pkt.Sequenced ∧ FrontStep s x.recv s' x.calls ∧
    s'.enqueued = s.enqueued ++ x.enqueued

/-- What the refinement rests on: a sound table, and every record with its packet. -/
structure Kept (s : Shared) : Prop where
  sound : Sound s
  packed : Records FlowData.Packed s

theorem spoil_calls (rc : RuleController) (t : Sends) (c : Call) :
    (t.spoil rc c).calls = t.calls := by
  unfold Sends.spoil
  split <;> rfl

namespace Kept

variable {s s' : Shared} {l : Recv} {cs : List Call}

theorem initial (h : Initial s) : Kept s := ⟨.initial h, .initial h⟩

theorem step (h : Kept s) (hk : Keeps s l.mem) (hl : l.pkt.Sequenced) (hs : FrontStep s l s' cs) :
    Kept s' where
  sound := h.sound.transition hk hs.transition
  packed := h.packed.transition FlowData.Packed.lasting (fun _ _ => ⟨_, rfl, hl⟩) hs.transition

theorem plan (h : Kept s) (hk : Keeps s l.mem) :
    ∃ P : Plan, P.Meets l.rc s (s.conn.owner l.pkt) (s.conn.react l.rc l.pkt) ∧
      ∀ t, process_pkt l.rc l.mem l.pkt ⟨s, t⟩ = P.exec l.rc t :=
  process_pkt_meets h.sound hk h.packed

/-- **A step of the front-end is a step of the connections.** -/
theorem front_step (h : Kept s) (hk : Keeps s l.mem) (hs : FrontStep s l s' cs) :
    ∃ es, s'.enqueued = s.enqueued ++ es ∧
      Conns.step (l.rc, l.pkt) s.conn = some (s'.conn, cs.map Call.cut, es) := by
  obtain ⟨P, hP, he⟩ := h.plan hk
  obtain ⟨t, t', hd, hc⟩ := hs
  rw [he t] at hd
  cases P with
  | next cs' s₁ =>
      obtain ⟨hcom, hcalls, hconn, henq⟩ := hP.commit_next (s.conn (s.conn.owner l.pkt))
      cases hP with
      | next hcs =>
          cases hd
          rw [fills_calls hcs] at hc
          cases List.append_cancel_left hc
          refine ⟨_, henq, ?_⟩
          rw [Conns.step, hcom, Option.map_some, hcalls, ← hconn]
  | fail cs' x s₁ =>
      obtain ⟨hcom, rfl⟩ := hP.commit_fail (s.conn (s.conn.owner l.pkt))
      cases hP with
      | fail hcs =>
          cases hd
          rw [spoil_calls, fills_calls hcs] at hc
          cases List.append_cancel_left hc
          refine ⟨[], (List.append_nil _).symm, ?_⟩
          rw [Conns.step, hcom, Option.map_some, upd_self]
  | null | no_pkt | overflow | refused => cases hd

/-- **The loop body dereferences null where the connections get stuck**, unless no address is free or
the URL does not fit. -/
theorem front_crash (h : Kept s) (hk : Keeps s l.mem) (t : Sends) :
    process_pkt l.rc l.mem l.pkt ⟨s, t⟩ = .refused ∨
      process_pkt l.rc l.mem l.pkt ⟨s, t⟩ = .overflow ∨
      (process_pkt l.rc l.mem l.pkt ⟨s, t⟩ = .crash ↔ Conns.step (l.rc, l.pkt) s.conn = none) := by
  obtain ⟨P, hP, he⟩ := h.plan hk
  rw [he t, Conns.step, Option.map_eq_none_iff]
  cases P with
  | next =>
      rw [(hP.commit_next _).1]
      refine .inr <| .inr ⟨fun e => ?_, fun e => ?_⟩ <;> cases e
  | fail =>
      rw [(hP.commit_fail _).1]
      refine .inr <| .inr ⟨fun e => ?_, fun e => ?_⟩ <;> cases e
  | null =>
      rw [hP.commit_null]
      exact .inr (.inr ⟨fun _ => rfl, fun _ => rfl⟩)
  | no_pkt => cases hP
  | overflow => exact .inr (.inl rfl)
  | refused => exact .inl rfl

/-- **A run of the front-end is a run of the connections.** -/
theorem front_run {s₀ : Shared} {tr : List Handled} (h₀ : Initial s₀)
    (hr : Steps HandleStep s₀ tr s) :
    Kept s ∧ Machine.run Conns.step (tr.map Handled.input) .closed =
      some (s.conn, tr.map Handled.shown) := by
  induction hr with
  | refl =>
      refine ⟨.initial h₀, ?_⟩
      have hc : s₀.conn = .closed := funext fun c => conn_none (h₀.table c.slot)
      rw [hc]
      rfl
  | @more tr s₁ s' x _ hx ih =>
      obtain ⟨hk, hl, hs, he⟩ := hx
      obtain ⟨es, hes, hstep⟩ := ih.1.front_step hk hs
      cases List.append_cancel_left (hes.symm.trans he)
      refine ⟨ih.1.step hk hl hs, ?_⟩
      rw [List.map_append, List.map_append]
      exact Machine.run_snoc ih.2 hstep

/-- A run in which no record released while in the table loses its contents, with its calls and
requests. -/
theorem handled_run {s₀ : Shared} {ls : List Recv} (h₀ : Initial s₀) (hr : Steps KeptStep s₀ ls s)
    (hl : ∀ l ∈ ls, l.pkt.Sequenced) :
    ∃ tr : List Handled, tr.map Handled.recv = ls ∧ Steps HandleStep s₀ tr s := by
  induction hr with
  | refl => exact ⟨[], rfl, .refl⟩
  | @more ls s₁ s' l _ h ih =>
      obtain ⟨tr, rfl, ht⟩ := ih fun l hm => hl l (List.mem_append_left _ hm)
      obtain ⟨hk, cs, hs⟩ := h
      obtain ⟨es, he, -⟩ := (front_run h₀ ht).1.front_step hk hs
      have hseq : l.pkt.Sequenced := hl l (List.mem_append_right _ List.mem_cons_self)
      have hx : HandleStep s₁ ⟨l, cs, es⟩ s' := ⟨hk, hseq, hs, he⟩
      exact ⟨tr ++ [⟨l, cs, es⟩], List.map_append, ht.more hx⟩

end Kept

/-- **The front-end refines its connections.**  Every run of `process_pkts`, seen as packets, frames
and requests, is the run of the connections on these packets, and leaves the flow table that stands
for the connections at its end.  The next packet makes the loop body dereference null exactly if the
connections get stuck, unless no address is free or the URL does not fit `url_copy`. -/
theorem front_refines {s₀ s : Shared} {tr : List Handled} (h₀ : Initial s₀)
    (hr : Steps HandleStep s₀ tr s) :
    Machine.run Conns.step (tr.map Handled.input) .closed = some (s.conn, tr.map Handled.shown) ∧
    ∀ l : Recv, Keeps s l.mem → ∀ t,
      process_pkt l.rc l.mem l.pkt ⟨s, t⟩ = .refused ∨
        process_pkt l.rc l.mem l.pkt ⟨s, t⟩ = .overflow ∨
        (process_pkt l.rc l.mem l.pkt ⟨s, t⟩ = .crash ↔ Conns.step (l.rc, l.pkt) s.conn = none) := by
  obtain ⟨hk, hrun⟩ := Kept.front_run h₀ hr
  exact ⟨hrun, fun l hl t => hk.front_crash hl t⟩

/-- A tidy sample run, with what it ends in. -/
theorem handled_sample (ls : List Recv) (hl : ∀ l ∈ ls, l.pkt.Sequenced)
    (h : (ls.foldlM handleTidy sampleStart).isSome = true) :
    ∃ tr s, tr.map Handled.recv = ls ∧ Steps HandleStep sampleStart tr s ∧ Tidy s := by
  obtain ⟨s, hs⟩ := Option.isSome_iff_exists.mp h
  have hr := Steps.of_foldlM (R := TidyStep) (fun _ _ _ => handleTidy_step) hs
  obtain ⟨ht, hk⟩ := Tidy.kept_run sampleStart_initial hr
  obtain ⟨tr, htr, hh⟩ := Kept.handled_run sampleStart_initial hk hl
  exact ⟨tr, s, htr, hh, ht⟩

instance (p : Mbuf) : Decidable p.Sequenced := inferInstanceAs (Decidable (_ ≤ _))

theorem inputs_of_recvs {tr : List Handled} {ls : List Recv} (h : tr.map Handled.recv = ls) :
    tr.map Handled.input = ls.map fun l => (l.rc, l.pkt) := by
  rw [← h, List.map_map]
  rfl

/-- The flow that was moved to the other server waits for it. -/
theorem front_refines_sample :
    ∃ tr s l, tr.map Handled.recv = sampleMoves ∧ Steps HandleStep sampleStart tr s ∧
      l = sampleRecv sampleSynAck 2 ∧
      Machine.run Conns.step (tr.map Handled.input) .closed = some (s.conn, tr.map Handled.shown) ∧
      s.conn sampleClient = .waiting ⟨0, 2⟩ (sampleRequest 0x62).frame ∧
      (process_pkt l.rc l.mem l.pkt ⟨s, .blank⟩ = .refused ∨
        process_pkt l.rc l.mem l.pkt ⟨s, .blank⟩ = .overflow ∨
        (process_pkt l.rc l.mem l.pkt ⟨s, .blank⟩ = .crash ↔
          Conns.step (l.rc, l.pkt) s.conn = none)) := by
  obtain ⟨tr, s, htr, hr, ht⟩ := handled_sample sampleMoves (by decide +kernel)
    (by decide +kernel)
  have h := front_refines sampleStart_initial hr
  refine ⟨tr, s, _, htr, hr, rfl, h.1, ?_, h.2 _ (ht.keeps _) .blank⟩
  -- what the connections come to is computed
  have hrun := h.1
  rw [inputs_of_recvs htr] at hrun
  have hend : ((Machine.run Conns.step (sampleMoves.map fun l => (l.rc, l.pkt)) Conns.closed).map
      fun e => e.1 sampleClient) = some (.waiting ⟨0, 2⟩ (sampleRequest 0x62).frame) := by
    decide +kernel
  rw [hrun] at hend
  exact Option.some.inj hend

end Miresga.Frontend
