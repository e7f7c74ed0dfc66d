import Miresga.Frontend.Burst

/-!
# Frontend — the array of send buffers

`process_pkts` has two buffers for every packet of the burst and never compares `send_size` with
their number.  A packet makes at most two builder calls (`process_pkt_scripted`), each of them on
`send_pkts[send_size]`, and every call that succeeds is counted before the next one is made.

So in front of `send_size` the array holds the frames built so far, one in each buffer and in order,
and behind it the buffers as they came from the pool (`Packed`).  A packet moves the boundary by two
at most (`loop_packed`).
-/

namespace Miresga.Frontend

/-! ### The calls of a packet -/

/-- The same rules with other servers. -/
def RuleController.serving (rc : RuleController) (servers : Byte → Option ServerInfo) :
    RuleController :=
  { rc with d_index_map := servers }

/-- How the handling of a packet ends behind its last call. -/
inductive Ending where
  | next (s : Shared)
  | crash
  | overflow
  | refused

def Ending.outcome (t : Sends) : Ending → Outcome
  | next s => .next ⟨s, t⟩
  | crash => .crash
  | overflow => .overflow
  | refused => .refused

/-- One call after the other, each counted before the next one and made with the flow table of its
own: the call number `k` is made on `send_pkts[send_size + k]`. -/
def make_calls (rc : RuleController) (e : Ending) : List (Shared × Call) → Sends → Outcome
  | [], t => e.outcome t
  | (s, c) :: cs, t => call rc ⟨s, t⟩ c fun x => make_calls rc e cs x.bump.sends

/-- The code `f` makes the same calls, `n` at most, whatever servers and buffers it finds; only a
call that fails keeps it from making the next one. -/
def Scripted (n : Nat) (f : (Byte → Option ServerInfo) → Sends → Outcome) (rc : RuleController) :
    Prop :=
  ∃ cs e, cs.length ≤ n ∧ ∀ servers t, f servers t = make_calls (rc.serving servers) e cs t

section scripted

variable {rc : RuleController} {mem : Alloc} {p : Mbuf} {s : Shared} {a : Addr} {n : Nat}

theorem Scripted.ending (e : Ending) : Scripted n (fun _ t => e.outcome t) rc :=
  ⟨[], e, Nat.zero_le n, fun _ _ => rfl⟩

theorem Scripted.next (s' : Shared) : Scripted n (fun _ t => .next ⟨s', t⟩) rc := .ending (.next s')

theorem Scripted.stored (s : Shared) (o : Option Shared) :
    Scripted n (fun _ t => Proc.stored ⟨s, t⟩ o) rc := by
  cases o with
  | none => exact .ending .refused
  | some s' => exact .next s'

/-- A URL in front of scripted code. -/
theorem Scripted.copy {k : (Byte → Option ServerInfo) → Sends → List Byte → Outcome}
    (h : Scripted n (fun servers t => k servers t (url_copy p.data)) rc) :
    Scripted n (fun servers t => copy_url none p (k servers t)) rc := by
  cases hfits : url_fits p.data with
  | false => simp only [copy_url_overflow hfits]; exact .ending .overflow
  | true => simp only [copy_url_fits hfits]; exact h

/-- What follows a call finds the flow table as it was. -/
theorem call_congr {c : Call} {k k' : Proc → Outcome} {t : Sends}
    (h : ∀ t, k ⟨s, t⟩ = k' ⟨s, t⟩) : call rc ⟨s, t⟩ c k = call rc ⟨s, t⟩ c k' := by
  unfold Frontend.call
  cases c.build rc (t.send_pkts t.send_size) with
  | none => rfl
  | some r =>
      obtain ⟨st, b⟩ := r
      cases st with
      | OK => exact h _
      | _ => rfl

/-- A call in front of scripted code. -/
theorem Scripted.call {c : Call} {k : (Byte → Option ServerInfo) → Proc → Outcome}
    {f : (Byte → Option ServerInfo) → Sends → Outcome}
    (hk : ∀ servers t, k servers ⟨s, t⟩ = f servers (Proc.bump ⟨s, t⟩).sends)
    (h : Scripted n f rc) :
    Scripted (n + 1) (fun servers t => call (rc.serving servers) ⟨s, t⟩ c (k servers)) rc := by
  obtain ⟨cs, e, hn, hf⟩ := h
  refine ⟨(s, c) :: cs, e, Nat.succ_le_succ hn, fun servers t => ?_⟩
  exact call_congr fun t => (hk servers t).trans (hf servers _)

theorem client_payload_scripted :
    Scripted 2 (fun servers t => client_payload none (rc.serving servers) mem p ⟨s, t⟩ a) rc := by
  have asked : ∀ servers, (rc.serving servers).lookup_balancing_rule (url_copy p.data) =
      rc.lookup_balancing_rule (url_copy p.data) := fun _ => rfl
  simp only [client_payload, if_neg (parse_url_size p.data)]
  refine .copy ?_
  simp only [asked]
  cases rc.lookup_balancing_rule (url_copy p.data) with
  | none => exact .next s
  | some new_data =>
      dsimp only
      split
      · have moved : Scripted 0 (fun _ t => Proc.stored ⟨s.unoffload (srcClient p.data) a, t⟩
            ((s.unoffload (srcClient p.data) a).move a new_data mem.recv_pkt p)) rc := .stored _ _
        have syn : Scripted 1 (fun servers t =>
            call (rc.serving servers) ⟨s.unoffload (srcClient p.data) a, t⟩
              (.send_syn_pkt new_data.d_index p) fun x =>
              x.bump.stored (x.bump.shared.move a new_data mem.recv_pkt p)) rc :=
          Scripted.call (k := fun _ x => x.bump.stored (x.bump.shared.move a new_data mem.recv_pkt p))
            (fun _ _ => rfl) moved
        exact Scripted.call (fun _ _ => rfl) syn
      · have changed : Scripted 1 (fun _ t =>
            if (s.flow a).state = .COMPLETE ∧ new_data.offload_flag = 1 then
              .next ⟨(s.set_state a .OFFLOAD).enqueue
                (.add ⟨(srcClient p.data).my_key, (s.flow a).entry_data⟩), t⟩
            else if (s.flow a).state = .OFFLOAD ∧ new_data.offload_flag = 0 then
              .next ⟨(s.set_state a .COMPLETE).enqueue (.del (srcClient p.data).my_key), t⟩
            else .next ⟨s, t⟩) rc := by
          split_ifs
          · exact .next _
          · exact .next _
          · exact .next _
        refine Scripted.call (k := fun _ x =>
            if (s.flow a).state = .COMPLETE ∧ new_data.offload_flag = 1 then
              .next (x.bump.on fun h => (h.set_state a .OFFLOAD).enqueue
                (.add ⟨(srcClient p.data).my_key, (s.flow a).entry_data⟩))
            else if (s.flow a).state = .OFFLOAD ∧ new_data.offload_flag = 0 then
              .next (x.bump.on fun h => (h.set_state a .COMPLETE).enqueue
                (.del (srcClient p.data).my_key))
            else .next x.bump) ?_ changed
        intro servers t
        rfl

theorem client_established_scripted :
    Scripted 2 (fun servers t => client_established none (rc.serving servers) mem p ⟨s, t⟩ a) rc := by
  simp only [client_established]
  split_ifs
  · exact .call (fun _ _ => rfl) (.next (s.close (srcClient p.data) a))
  · exact .call (fun _ _ => rfl) (.call (fun _ _ => rfl) (.next (s.close (srcClient p.data) a)))
  · exact client_payload_scripted
  · exact .call (fun _ _ => rfl) (.next s)

theorem client_backend_syn_scripted :
    Scripted 2 (fun servers t => client_backend_syn (rc.serving servers) p ⟨s, t⟩ a) rc := by
  simp only [client_backend_syn]
  split_ifs
  · exact .call (fun _ _ => rfl) (.next (s.release a))
  split
  · exact .next s
  split_ifs
  · exact .call (fun _ _ => rfl) (.next s)
  · exact .next s

theorem backend_syn_ack_scripted :
    Scripted 2 (fun servers t => backend_syn_ack (rc.serving servers) p ⟨s, t⟩ a) rc := by
  simp only [backend_syn_ack]
  split_ifs
  · exact .next s
  split
  · exact .ending .crash
  · next q _ =>
    exact Scripted.call (s := s.establish (dstClient p.data) a)
      (c := .send_cached_pkt (s.flow a).entry_data.d_index
        ((s.establish (dstClient p.data) a).cached.cell q) (s.flow a).pkt_size)
      (fun _ _ => rfl) (.next (s.establish (dstClient p.data) a))

theorem backend_established_scripted :
    Scripted 2 (fun servers t => backend_established (rc.serving servers) p ⟨s, t⟩ a) rc := by
  simp only [backend_established]
  split_ifs
  · exact .call (fun _ _ => rfl) (.next (s.close (dstClient p.data) a))
  · exact .call (fun _ _ => rfl) (.call (fun _ _ => rfl) (.next (s.close (dstClient p.data) a)))
  · exact .call (fun _ _ => rfl) (.next s)

theorem new_flow_scripted :
    Scripted 2 (fun servers t => new_flow none (rc.serving servers) mem p ⟨s, t⟩) rc := by
  have asked : ∀ servers, (rc.serving servers).lookup_balancing_rule (url_copy p.data) =
      rc.lookup_balancing_rule (url_copy p.data) := fun _ => rfl
  simp only [new_flow, if_neg (parse_url_size p.data)]
  split_ifs
  · exact .next s
  refine .copy ?_
  simp only [asked]
  cases rc.lookup_balancing_rule (url_copy p.data) with
  | none => exact .next s
  | some new_data =>
      refine .call ?_ (.stored s (s.create (srcClient p.data) new_data mem p))
      intro servers t
      cases s.create (srcClient p.data) new_data mem p with
      | none => rfl
      | some s' => rfl

theorem from_backend_scripted :
    Scripted 2 (fun servers t => from_backend none (rc.serving servers) mem p ⟨s, t⟩) rc := by
  simp only [from_backend]
  split
  · exact new_flow_scripted
  split
  · exact backend_syn_ack_scripted
  · exact backend_established_scripted
  · exact backend_established_scripted
  · exact new_flow_scripted

/-- **A packet makes at most two calls**, and which ones depends on no server. -/
theorem process_pkt_scripted (rc : RuleController) (mem : Alloc) (p : Mbuf) (s : Shared) :
    Scripted 2 (fun servers t => process_pkt (rc.serving servers) mem p ⟨s, t⟩) rc := by
  simp only [process_pkt, process_pkt_within]
  split_ifs
  · exact .next s
  · exact .next s
  split
  · exact from_backend_scripted
  split
  · exact client_established_scripted
  · exact client_established_scripted
  · exact client_backend_syn_scripted
  · exact from_backend_scripted

end scripted

/-! ### The buffers -/

/-- The buffers below `send_size` are the frames built for the packets `ls`, each in a buffer of its
own; the buffers from there on have not been touched. -/
structure Packed (ls : List Recv) (pool : Nat → Mbuf) (t : Sends) : Prop where
  indices : t.built.map Prod.fst = List.range t.send_size
  frames : ∀ x ∈ t.built, ∃ l ∈ ls, ∃ b, x.2.build l.rc b = some (.OK, t.send_pkts x.1)
  rest : ∀ j, t.send_size ≤ j → t.send_pkts j = pool j

namespace Packed

variable {ls : List Recv} {pool : Nat → Mbuf} {t : Sends}

theorem start (pool : Nat → Mbuf) : Packed [] pool ⟨pool, 0, []⟩ where
  indices := rfl
  frames := by simp
  rest _ _ := rfl

theorem mono {ls' : List Recv} (h : Packed ls pool t) (hls : ∀ l ∈ ls, l ∈ ls') :
    Packed ls' pool t where
  indices := h.indices
  frames x hx := by
    obtain ⟨l, hl, hb⟩ := h.frames x hx
    exact ⟨l, hls l hl, hb⟩
  rest := h.rest

theorem lt (h : Packed ls pool t) {x : Nat × Call} (hx : x ∈ t.built) : x.1 < t.send_size := by
  have hmem : x.1 ∈ t.built.map Prod.fst := List.mem_map_of_mem hx
  rw [h.indices] at hmem
  exact List.mem_range.mp hmem

/-- A call whose server is there takes the next buffer. -/
theorem fill (h : Packed ls pool t) {l : Recv} {c : Call} (hl : l ∈ ls)
    (hc : c.served l.rc = true) :
    Packed ls pool (t.fill l.rc c) ∧ (t.fill l.rc c).send_size = t.send_size + 1 := by
  obtain ⟨b, hb, heq⟩ := fill_eq hc t
  rw [heq]
  refine ⟨⟨?_, fun x hx => ?_, fun j hj => ?_⟩, rfl⟩
  · rw [List.map_append, h.indices, List.range_succ]
    rfl
  · rcases List.mem_append.mp hx with hx | hx
    · obtain ⟨l', hl', b', hb'⟩ := h.frames x hx
      have hlt := h.lt hx
      have kept : upd t.send_pkts t.send_size b x.1 = t.send_pkts x.1 :=
        upd_other _ _ _ (by omega)
      exact ⟨l', hl', b', hb'.trans (congrArg (fun f => some (Status.OK, f)) kept.symm)⟩
    · obtain rfl := List.mem_singleton.mp hx
      have put : upd t.send_pkts t.send_size b t.send_size = b := upd_same ..
      exact ⟨l, hl, _, hb.trans (congrArg (fun f => some (Status.OK, f)) put.symm)⟩
  · dsimp only at hj
    have kept : upd t.send_pkts t.send_size b j = t.send_pkts j := upd_other _ _ _ (by omega)
    exact kept.trans (h.rest j (by omega))

theorem fills {l : Recv} (hl : l ∈ ls) {cs : List Call} (hcs : ∀ c ∈ cs, c.served l.rc = true)
    (h : Packed ls pool t) :
    Packed ls pool (t.fills l.rc cs) ∧ (t.fills l.rc cs).send_size = t.send_size + cs.length := by
  induction cs generalizing t with
  | nil => exact ⟨h, rfl⟩
  | cons c cs ih =>
      obtain ⟨first, size⟩ := h.fill hl (hcs c List.mem_cons_self)
      obtain ⟨packed, sizes⟩ := ih (fun c' hc' => hcs c' (List.mem_cons_of_mem c hc')) first
      refine ⟨packed, sizes.trans ?_⟩
      rw [size, List.length_cons]
      omega

end Packed

/-- A call that fails changes the next buffer and counts nothing. -/
theorem spoil_eq (rc : RuleController) (t : Sends) (c : Call) :
    (t.spoil rc c).send_size = t.send_size ∧ (t.spoil rc c).built = t.built ∧
      ∀ j, j ≠ t.send_size → (t.spoil rc c).send_pkts j = t.send_pkts j := by
  unfold Sends.spoil
  split
  · exact ⟨rfl, rfl, fun j hj => upd_other _ _ _ hj⟩
  · exact ⟨rfl, rfl, fun _ _ => rfl⟩

/-- **A loop over `ls`**, behind the packets `front`: every frame is in a buffer in front of
`send_size`, which has grown by two for each packet at most, and no buffer behind those has been
touched, whether the loop comes to its end or returns before. -/
theorem loop_packed {pool : Nat → Mbuf} {st : Status} {p : Proc} (ls front : List Recv) {s : Shared}
    {t : Sends} (h : Packed front pool t) (hl : loop ls ⟨s, t⟩ = .ret st p) :
    (st = .OK → Packed (front ++ ls) pool p.sends) ∧
    p.sends.send_size ≤ t.send_size + 2 * ls.length ∧
    (∀ x ∈ p.sends.built, x.1 < p.sends.send_size) ∧
    ∀ j, t.send_size + 2 * ls.length ≤ j → p.sends.send_pkts j = pool j := by
  induction ls generalizing front s t with
  | nil =>
      cases hl
      rw [List.append_nil, List.length_nil, Nat.mul_zero, Nat.add_zero]
      exact ⟨fun _ => h, Nat.le_refl _, fun _ => h.lt, h.rest⟩
  | cons l ls ih =>
      have here : Packed (front ++ [l]) pool t := h.mono fun _ => List.mem_append_left [l]
      have mine : l ∈ front ++ [l] := by simp
      rw [List.length_cons]
      obtain ⟨P, known, exec⟩ := process_pkt_plan l.rc l.mem l.pkt s
      cases known with
      | @next cs s' hcs hn _ =>
          rw [loop_next (exec t)] at hl
          obtain ⟨packed, size⟩ := here.fills mine hcs
          obtain ⟨ok, le, lt, rest⟩ := ih (front ++ [l]) packed hl
          rw [List.append_assoc, List.singleton_append] at ok
          exact ⟨ok, by omega, lt, fun j hj => rest j (by omega)⟩
      | @fail cs c hcs hn _ =>
          rw [loop_stop (exec t) nofun] at hl
          cases hl
          obtain ⟨packed, size⟩ := here.fills mine hcs
          obtain ⟨size', built, others⟩ := spoil_eq l.rc (t.fills l.rc cs) c
          refine ⟨nofun, ?_, fun x hx => ?_, fun j hj => ?_⟩
          · dsimp only
            omega
          · dsimp only at hx ⊢
            rw [built] at hx
            rw [size']
            exact packed.lt hx
          · dsimp only
            rw [others j (by omega)]
            exact packed.rest j (by omega)
      | null | no_pkt | overflow | refused =>
          rw [loop_stop (exec t) nofun] at hl
          cases hl

/-- **The send array.**  For every burst, every content of the tables and of the buffers: after `i`
packets `send_size` is at most `2 * i`, the buffers that calls have been counted for are 0, 1, 2 up
to `send_size`, each once, and each of them holds the frame that its call built for one of these
packets.  The next packet makes its calls, whichever of them succeed, on buffers below `2 * n`.  And
when the burst has ended, in whatever way it returns, all frames are in the first `2 * n` buffers
and no other buffer has been touched. -/
theorem send_array_bound (ps : List Recv) (pool : Nat → Mbuf) (s : Shared) :
    (∀ i p, loop (ps.take i) ⟨s, ⟨pool, 0, []⟩⟩ = .ret .OK p →
      p.sends.send_size ≤ 2 * i ∧
      p.sends.built.map Prod.fst = List.range p.sends.send_size ∧
      ∀ j, j < p.sends.send_size → ∃ c, (j, c) ∈ p.sends.built ∧
        ∃ l ∈ ps.take i, ∃ b, c.build l.rc b = some (.OK, p.sends.send_pkts j)) ∧
    (∀ i p (hi : i < ps.length), loop (ps.take i) ⟨s, ⟨pool, 0, []⟩⟩ = .ret .OK p →
      ∃ cs e, (∀ servers t,
        process_pkt (ps[i].rc.serving servers) ps[i].mem ps[i].pkt ⟨p.shared, t⟩ =
          make_calls (ps[i].rc.serving servers) e cs t) ∧
        ∀ k, k < cs.length → p.sends.send_size + k < 2 * ps.length) ∧
    ∀ st p, loop ps ⟨s, ⟨pool, 0, []⟩⟩ = .ret st p →
      (∀ x ∈ p.sends.built, x.1 < 2 * ps.length) ∧
      ∀ j, 2 * ps.length ≤ j → p.sends.send_pkts j = pool j := by
  have size : ∀ i p, loop (ps.take i) ⟨s, ⟨pool, 0, []⟩⟩ = .ret .OK p →
      p.sends.send_size ≤ 2 * i := by
    intro i p hl
    obtain ⟨-, le, -, -⟩ := loop_packed _ [] (.start pool) hl
    have short : (ps.take i).length ≤ i := List.length_take_le ..
    dsimp only at le
    omega
  refine ⟨?_, ?_, ?_⟩
  · intro i p hl
    have packed := (loop_packed _ [] (.start pool) hl).1 rfl
    refine ⟨size i p hl, packed.indices, fun j hj => ?_⟩
    have hmem : j ∈ p.sends.built.map Prod.fst := by
      rw [packed.indices]
      exact List.mem_range.mpr hj
    obtain ⟨⟨_, c⟩, hx, rfl⟩ := List.mem_map.mp hmem
    exact ⟨c, hx, packed.frames _ hx⟩
  · intro i p hi hl
    have le := size i p hl
    obtain ⟨cs, e, two, script⟩ := process_pkt_scripted ps[i].rc ps[i].mem ps[i].pkt p.shared
    exact ⟨cs, e, script, fun k hk => by omega⟩
  · intro st p hl
    obtain ⟨-, le, lt, rest⟩ := loop_packed ps [] (.start pool) hl
    dsimp only at le rest
    rw [Nat.zero_add] at le rest
    exact ⟨fun x hx => Nat.lt_of_lt_of_le (lt x hx) le, rest⟩

end Miresga.Frontend
