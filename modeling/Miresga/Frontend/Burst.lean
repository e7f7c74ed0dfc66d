import Miresga.Frontend.Plan
import Miresga.Frontend.Ownership

/-!
# Frontend — a burst and its send buffers

`process_pkts` takes two send buffers for every packet of the burst, runs its loop, hands the buffers
that were filled to `rte_eth_tx_burst` and frees those that were not (`Burst.process_pkts`).  The
transmit is the last thing it does, once for the whole burst: a packet that fails makes the loop
return before it.

* What the packets before had built is lost, and the packets behind are not looked at.  So the burst
  is handled packet by packet (`serve_each`) only if no packet fails, or none of the others would do
  anything (`burst_isolated_iff`).
* No buffer is freed on that path, and on the other only those that were not filled: what
  `rte_eth_tx_burst` does not accept belongs to nobody (`buffers_conserved_iff`).
-/

namespace Miresga.Frontend

/-- How a call of `process_pkts` ends; the send buffers are named by their index in `send_pkts`. -/
structure Burst where
  status : Status
  shared : Shared
  sends : Sends
  /-- from `rte_pktmbuf_alloc_bulk` -/
  obtained : List Nat
  /-- given to `rte_eth_tx_burst` -/
  handed : List Nat
  /-- taken by `rte_eth_tx_burst` -/
  accepted : List Nat
  /-- given to `rte_pktmbuf_free_bulk` -/
  freed : List Nat

/-- The loop of `process_pkts`, over received packets. -/
def loop (ls : List Recv) (p : Proc) : Outcome :=
  process_pkts (ls.map fun l => (l.rc, l.mem, l.pkt)) p

/-- What stands behind the loop, for a burst of `pkt_num` packets: `tx_burst` tells how many of the
frames it is offered `rte_eth_tx_burst` accepts.  Its `nb_pkts` has 16 bits. -/
def Burst.transmit (tx_burst : Nat → Nat) (pkt_num : Nat) (p : Proc) : Burst :=
  let send_size := p.sends.send_size
  let nb_pkts := send_size % 2 ^ 16
  let sent := tx_burst nb_pkts
  { status := if sent ≠ send_size then .INTERNAL_ERROR else .OK
    shared := p.shared
    sends := p.sends
    obtained := List.range (2 * pkt_num)
    handed := List.range nb_pkts
    accepted := List.range sent
    freed := List.range' send_size (2 * pkt_num - send_size) }

/-- The whole of `process_pkts`; `pool` is what `rte_pktmbuf_alloc_bulk` returns, with whatever the
buffers held before. -/
def Burst.process_pkts (pool : Option (Nat → Mbuf)) (tx_burst : Nat → Nat) (ps : List Recv)
    (s : Shared) : Option Burst :=
  match pool with
  | none =>
    some { status := .INTERNAL_ERROR, shared := s, sends := .blank, obtained := [], handed := [],
           accepted := [], freed := [] }
  | some send_pkts =>
    match loop ps ⟨s, ⟨send_pkts, 0, []⟩⟩ with
    | .ret .OK p => some (transmit tx_burst ps.length p)
    | .ret status p =>
      some { status := status, shared := p.shared, sends := p.sends,
             obtained := List.range (2 * ps.length), handed := [], accepted := [], freed := [] }
    | .next _ | .crash | .overflow | .stray | .refused => none

/-- The calls behind the buffers handed over. -/
def Burst.calls (r : Burst) : List Call := (r.sends.built.filter (·.1 ∈ r.handed)).map Prod.snd

/-! ### Packet by packet -/

/-- What is asked of a burst: every packet is handled in the state the ones before it left, and one
that fails contributes nothing.  The calls come with the tables they were made under. -/
def serve_each : List Recv → Shared → Option (Shared × List (RuleController × Call))
  | [], s => some (s, [])
  | l :: ls, s =>
    match process_pkt l.rc l.mem l.pkt ⟨s, .blank⟩ with
    | .next s' =>
      (serve_each ls s'.shared).map fun r => (r.1, s'.sends.calls.map (l.rc, ·) ++ r.2)
    | .ret _ s' => serve_each ls s'.shared
    | .crash | .overflow | .stray | .refused => none

/-- A packet of the burst is unserved in the state it meets. -/
def fails : List Recv → Shared → Bool
  | [], _ => false
  | l :: ls, s =>
    unserved l.rc s l.pkt ||
      match process_pkt l.rc l.mem l.pkt ⟨s, .blank⟩ with
      | .next s' => fails ls s'.shared
      | _ => false

/-- One buffer after the other filled, each under the tables of its call. -/
def Sends.fill_all (t : Sends) (fs : List (RuleController × Call)) : Sends :=
  fs.foldl (fun t f => t.fill f.1 f.2) t

theorem fill_all_append (t : Sends) (rc : RuleController) (cs : List Call)
    (fs : List (RuleController × Call)) :
    t.fill_all (cs.map (rc, ·) ++ fs) = (t.fills rc cs).fill_all fs := by
  rw [Sends.fill_all, List.foldl_append, List.foldl_map]
  rfl

section loop

variable {l : Recv} {ls : List Recv} {s s' : Shared}

theorem loop_next {t t' : Sends} (h : process_pkt l.rc l.mem l.pkt ⟨s, t⟩ = .next ⟨s', t'⟩) :
    loop (l :: ls) ⟨s, t⟩ = loop ls ⟨s', t'⟩ := by
  rw [loop, List.map_cons, process_pkts, h]
  rfl

theorem loop_stop {t : Sends} {o : Outcome} (h : process_pkt l.rc l.mem l.pkt ⟨s, t⟩ = o)
    (ho : ∀ p, o ≠ .next p) : loop (l :: ls) ⟨s, t⟩ = o := by
  rw [loop, List.map_cons, process_pkts, h]
  cases o with
  | next p => exact absurd rfl (ho p)
  | _ => rfl

theorem fails_next {cs : List Call} (hu : unserved l.rc s l.pkt = false)
    (h : ∀ t, process_pkt l.rc l.mem l.pkt ⟨s, t⟩ = .next ⟨s', t.fills l.rc cs⟩) :
    fails (l :: ls) s = fails ls s' := by
  rw [fails, hu, h .blank]
  rfl

theorem serve_each_next {cs : List Call} (hcs : ∀ c ∈ cs, c.served l.rc = true)
    (h : ∀ t, process_pkt l.rc l.mem l.pkt ⟨s, t⟩ = .next ⟨s', t.fills l.rc cs⟩) :
    serve_each (l :: ls) s = (serve_each ls s').map fun r => (r.1, cs.map (l.rc, ·) ++ r.2) := by
  rw [serve_each, h .blank]
  dsimp only
  rw [fills_calls hcs]
  rfl

/-- **How a burst ends**, on any send buffers: without a packet that fails, all frames are in the
buffers; with one, the loop returns; or it does not come to an end. -/
theorem loop_cases (ls : List Recv) (s : Shared) :
    (fails ls s = false ∧ ∃ s' fs, (∀ f ∈ fs, Call.served f.1 f.2 = true) ∧
      fs.length ≤ 2 * ls.length ∧ serve_each ls s = some (s', fs) ∧
      ∀ t, loop ls ⟨s, t⟩ = .ret .OK ⟨s', t.fill_all fs⟩) ∨
    (fails ls s = true ∧ ∃ s', ∀ t, ∃ u, loop ls ⟨s, t⟩ = .ret .INTERNAL_ERROR ⟨s', u⟩) ∨
    (fails ls s = false ∧ serve_each ls s = none ∧
      ∃ o, (o = .crash ∨ o = .overflow ∨ o = .refused) ∧ ∀ t, loop ls ⟨s, t⟩ = o) := by
  induction ls generalizing s with
  | nil => exact .inl ⟨rfl, s, [], by simp, Nat.zero_le _, rfl, fun t => rfl⟩
  | cons l ls ih =>
      rcases process_pkt_cases l.rc l.mem l.pkt s with
        ⟨hu, h⟩ | ⟨hu, cs, s₁, hcs, hn, -, -, h⟩ | ⟨hu, o, ho, h⟩
      · refine .inr (.inl ⟨by rw [fails, hu, Bool.true_or], s, fun t => ?_⟩)
        obtain ⟨u, hret⟩ := h t
        exact ⟨u, loop_stop hret nofun⟩
      · rw [fails_next hu h, serve_each_next hcs h]
        rcases ih s₁ with ⟨hf, s', fs, hfs, hlen, hse, hl⟩ | ⟨hf, s', hl⟩ | ⟨hf, hse, o, ho, hl⟩
        · refine .inl ⟨hf, s', cs.map (l.rc, ·) ++ fs, fun f hmem => ?_, ?_, by rw [hse]; rfl,
            fun t => ?_⟩
          · rcases List.mem_append.mp hmem with hmem | hmem
            · obtain ⟨c, hc, rfl⟩ := List.mem_map.mp hmem
              exact hcs c hc
            · exact hfs f hmem
          · rw [List.length_append, List.length_map, List.length_cons]
            omega
          · rw [loop_next (h t), hl, fill_all_append]
        · refine .inr (.inl ⟨hf, s', fun t => ?_⟩)
          rw [loop_next (h t)]
          exact hl _
        · refine .inr (.inr ⟨hf, by rw [hse]; rfl, o, ho, fun t => ?_⟩)
          rw [loop_next (h t), hl]
      · have hf : fails (l :: ls) s = false := by
          rcases ho with rfl | rfl | rfl <;> rw [fails, hu, h .blank] <;> rfl
        have hse : serve_each (l :: ls) s = none := by
          rcases ho with rfl | rfl | rfl <;> rw [serve_each, h .blank]
        refine .inr (.inr ⟨hf, hse, o, ho, fun t => loop_stop (h t) fun p hp => ?_⟩)
        rcases ho with rfl | rfl | rfl <;> cases hp

end loop

/-! ### A packet that fails -/

section fails

variable {ls : List Recv} {s s' : Shared}

/-- Without a single frame, every packet failed or was ignored. -/
theorem serve_each_nil (h : serve_each ls s = some (s', [])) :
    s' = s ∧ ∀ l ∈ ls, unserved l.rc s l.pkt = true ∨ idle l.rc s l.pkt = true := by
  induction ls with
  | nil =>
      cases h
      exact ⟨rfl, by simp⟩
  | cons l ls ih =>
      rcases process_pkt_cases l.rc l.mem l.pkt s with
        ⟨hu, hp⟩ | ⟨hu, cs, s₁, hcs, -, hnil, ht, hp⟩ | ⟨-, o, ho, hp⟩
      · obtain ⟨u, hret⟩ := hp .blank
        rw [serve_each, hret] at h
        obtain ⟨rfl, hls⟩ := ih h
        exact ⟨rfl, List.forall_mem_cons.mpr ⟨.inl hu, hls⟩⟩
      · rw [serve_each_next hcs hp] at h
        obtain ⟨⟨r, fs⟩, hr, he⟩ := Option.map_eq_some_iff.mp h
        obtain ⟨rfl, hfs⟩ := Prod.mk.inj he
        obtain ⟨hcs₀, rfl⟩ := List.append_eq_nil_iff.mp hfs
        obtain rfl := List.map_eq_nil_iff.mp hcs₀
        obtain rfl := ht.nil
        have hidle := hnil rfl
        obtain ⟨rfl, hls⟩ := ih hr
        exact ⟨rfl, List.forall_mem_cons.mpr ⟨.inr hidle, hls⟩⟩
      · rcases ho with rfl | rfl | rfl <;> rw [serve_each, hp .blank] at h <;> cases h

/-- Packets that fail or are ignored leave everything as it is. -/
theorem serve_each_of_idle (h : ∀ l ∈ ls, unserved l.rc s l.pkt = true ∨ idle l.rc s l.pkt = true) :
    serve_each ls s = some (s, []) := by
  induction ls with
  | nil => rfl
  | cons l ls ih =>
      obtain ⟨hl, hls⟩ := List.forall_mem_cons.mp h
      rcases hl with hu | hi
      · obtain ⟨u, hret⟩ := process_pkt_unserved .blank l.mem hu
        rw [serve_each, hret]
        exact ih hls
      · rw [serve_each, process_pkt_idle .blank hi]
        dsimp only
        rw [ih hls]
        rfl

/-- So does the loop, up to the packet at which it returns. -/
theorem loop_of_idle (h : ∀ l ∈ ls, unserved l.rc s l.pkt = true ∨ idle l.rc s l.pkt = true)
    (t : Sends) : ∃ st u, loop ls ⟨s, t⟩ = .ret st ⟨s, u⟩ := by
  induction ls with
  | nil => exact ⟨.OK, t, rfl⟩
  | cons l ls ih =>
      obtain ⟨hl, hls⟩ := List.forall_mem_cons.mp h
      rcases hl with hu | hi
      · obtain ⟨u, hret⟩ := process_pkt_unserved t l.mem hu
        exact ⟨_, u, loop_stop hret nofun⟩
      · rw [loop_next (process_pkt_idle t hi)]
        exact ih hls

variable (pool : Nat → Mbuf) (tx_burst : Nat → Nat)

/-- With a packet that fails, nothing is handed over. -/
theorem process_pkts_fails (h : fails ls s = true) :
    ∃ r, Burst.process_pkts (some pool) tx_burst ls s = some r ∧ r.status = .INTERNAL_ERROR ∧
      r.handed = [] ∧ r.accepted = [] ∧ r.freed = [] ∧ r.obtained = List.range (2 * ls.length) ∧
      ∃ u, loop ls ⟨s, ⟨pool, 0, []⟩⟩ = .ret .INTERNAL_ERROR ⟨r.shared, u⟩ := by
  rcases loop_cases ls s with ⟨hf, -⟩ | ⟨-, s', hl⟩ | ⟨hf, -⟩
  · exact absurd (hf.symm.trans h) Bool.false_ne_true
  · obtain ⟨u, hu⟩ := hl ⟨pool, 0, []⟩
    refine ⟨_, by rw [Burst.process_pkts, hu], rfl, rfl, rfl, rfl, rfl, u, ?_⟩
    exact hu
  · exact absurd (hf.symm.trans h) Bool.false_ne_true

/-- Without one, the frames of the packets are in the buffers when they are transmitted. -/
theorem process_pkts_serves {fs : List (RuleController × Call)} (h : fails ls s = false)
    (hse : serve_each ls s = some (s', fs)) :
    (∀ f ∈ fs, Call.served f.1 f.2 = true) ∧ fs.length ≤ 2 * ls.length ∧
      Burst.process_pkts (some pool) tx_burst ls s =
        some (.transmit tx_burst ls.length ⟨s', Sends.fill_all ⟨pool, 0, []⟩ fs⟩) := by
  rcases loop_cases ls s with ⟨-, s₁, fs₁, hfs, hlen, hse₁, hl⟩ | ⟨hf, -⟩ | ⟨-, hnone, -⟩
  · cases hse.symm.trans hse₁
    refine ⟨hfs, hlen, ?_⟩
    rw [Burst.process_pkts, hl]
  · exact absurd (h.symm.trans hf) Bool.false_ne_true
  · cases hse.symm.trans hnone

/-- A burst that comes to an end without a failure has every packet handled. -/
theorem serve_each_of_process_pkts {r : Burst} (h : fails ls s = false)
    (hr : Burst.process_pkts (some pool) tx_burst ls s = some r) :
    ∃ s' fs, serve_each ls s = some (s', fs) := by
  rcases loop_cases ls s with ⟨-, s', fs, -, -, hse, -⟩ | ⟨hf, -⟩ | ⟨-, -, o, ho, hl⟩
  · exact ⟨s', fs, hse⟩
  · exact absurd (h.symm.trans hf) Bool.false_ne_true
  · rw [Burst.process_pkts, hl] at hr
    rcases ho with rfl | rfl | rfl <;> cases hr

/-- **A failing packet and the others of its burst.**  For every burst whose packets are handled one
by one with the frames `fs`: if a packet fails, the burst transmits these frames and leaves that state
exactly if every packet of the burst fails or is ignored; that is, the burst is handled as asked
exactly if no packet fails or no other packet does anything. -/
theorem burst_isolated_iff {fs : List (RuleController × Call)}
    (h : serve_each ls s = some (s', fs)) :
    (∃ r, Burst.process_pkts (some pool) tx_burst ls s = some r ∧
      (fails ls s = true → r.shared = s' ∧ r.calls = fs.map Prod.snd)) ↔
    (fails ls s = false ∨ ∀ l ∈ ls, unserved l.rc s l.pkt = true ∨ idle l.rc s l.pkt = true) := by
  cases hf : fails ls s with
  | false =>
      obtain ⟨-, -, hr⟩ := process_pkts_serves pool tx_burst hf h
      exact ⟨fun _ => .inl rfl, fun _ => ⟨_, hr, nofun⟩⟩
  | true =>
      obtain ⟨r, hr, -, hhanded, -, -, -, u, hu⟩ := process_pkts_fails pool tx_burst hf
      have hcalls : r.calls = [] := by simp [Burst.calls, hhanded]
      constructor
      · rintro ⟨r', hr', hdone⟩
        cases hr.symm.trans hr'
        -- nothing was handed over, so there was nothing to hand over
        have hfs : fs = [] := List.map_eq_nil_iff.mp ((hdone rfl).2.symm.trans hcalls)
        subst hfs
        exact .inr (serve_each_nil h).2
      · rintro (hno | hidle)
        · cases hno
        · cases h.symm.trans (serve_each_of_idle hidle)
          refine ⟨r, hr, fun _ => ⟨?_, hcalls⟩⟩
          obtain ⟨st, u', hu'⟩ := loop_of_idle hidle ⟨pool, 0, []⟩
          cases hu.symm.trans hu'
          rfl

end fails

/-! ### The send buffers -/

section buffers

variable {ls : List Recv} {s : Shared} {tx_burst : Nat → Nat} {r : Burst}

theorem fill_all_size {fs : List (RuleController × Call)}
    (h : ∀ f ∈ fs, Call.served f.1 f.2 = true) (t : Sends) :
    (t.fill_all fs).send_size = t.send_size + fs.length := by
  induction fs generalizing t with
  | nil => rfl
  | cons f fs ih =>
      obtain ⟨b, -, hf⟩ := fill_eq (h f List.mem_cons_self) t
      have hfs := ih (fun f' hf' => h f' (List.mem_cons_of_mem _ hf')) (t.fill f.1 f.2)
      rw [hf] at hfs
      rw [Sends.fill_all, List.foldl_cons, hf]
      exact hfs.trans (by rw [List.length_cons]; dsimp only; omega)

/-- **Send buffers.**  For every burst and whatever `rte_eth_tx_burst` accepts: when `process_pkts`
returns, every buffer it obtained was accepted or freed, and one of the two once, exactly if it
obtained none, or no packet failed and every frame in a buffer was accepted. -/
theorem buffers_conserved_iff {pool : Option (Nat → Mbuf)} (htx : ∀ n, tx_burst n ≤ n)
    (h : Burst.process_pkts pool tx_burst ls s = some r) :
    (r.accepted ++ r.freed).Perm r.obtained ↔
      pool = none ∨ fails ls s = false ∧ tx_burst (r.sends.send_size % 2 ^ 16) = r.sends.send_size := by
  cases pool with
  | none =>
      cases h
      simp
  | some pool =>
      simp only [reduceCtorEq, false_or]
      cases hf : fails ls s with
      | true =>
          obtain ⟨r', hr', -, -, hacc, hfree, hob, -⟩ := process_pkts_fails pool tx_burst hf
          cases hr'.symm.trans h
          rw [hacc, hfree, hob]
          -- there is a packet, so there are buffers
          have hne : ls ≠ [] := by
            rintro rfl
            cases hf
          simp [hne]
      | false =>
          obtain ⟨s', fs, hse⟩ := serve_each_of_process_pkts pool tx_burst hf h
          obtain ⟨hfs, hlen, hr⟩ := process_pkts_serves pool tx_burst hf hse
          cases hr.symm.trans h
          have hsize : (Sends.fill_all ⟨pool, 0, []⟩ fs).send_size = fs.length := by
            rw [fill_all_size hfs]
            exact Nat.zero_add _
          simp only [Burst.transmit, hsize, true_and]
          have hle := (htx (fs.length % 2 ^ 16)).trans (Nat.mod_le _ _)
          constructor
          · -- too few accepted leave the two together short of the buffers
            intro hperm
            have hn := hperm.length_eq
            rw [List.length_append, List.length_range, List.length_range', List.length_range] at hn
            omega
          · intro hall
            have happ : List.range' 0 fs.length ++
                List.range' (0 + fs.length) (2 * ls.length - fs.length) =
                  List.range' 0 (fs.length + (2 * ls.length - fs.length)) := List.range'_append_1
            rw [Nat.zero_add, Nat.add_sub_cancel' hlen] at happ
            rw [hall, List.range_eq_range', List.range_eq_range', happ]

end buffers

/-! ### A server that goes while two clients are served -/

/-- A segment of another client. -/
def sampleIn₂ (flags : Byte) (payload : List Byte) : Mbuf :=
  .ofBytes (headers (0xC0A80003, 40000) (0x0A000001, 80) 1000 5000 flags (40 + payload.length)
    ++ payload)

/-- A segment without payload of server 2 to that client. -/
def sampleOut₂ (flags : Byte) : Mbuf :=
  .ofBytes (headers (0x0A000102, 8082) (0xC0A80003, 40000) 70000 1000 flags 40)

/-- The other client is connected to server 2, and the first one waits for server 1. -/
def sampleBusy : List Recv :=
  [sampleRecv (sampleIn₂ TCP_ACK_FLAG [0x47, 0x45, 0x54, 0x20, 0x2f, 0x62, 0x20]) 0,
    sampleRecv (sampleOut₂ (TCP_SYN_FLAG ||| TCP_ACK_FLAG)) 1,
    sampleRecv (sampleRequest 0x61) 1]

/-- The sample rules without server 2. -/
def sampleGone : RuleController :=
  { sampleRules with d_index_map := upd sampleRules.d_index_map 2 none }

/-- The SYN-ACK the first client waits for, and an ACK of the other client. -/
def sampleBurst : List Recv :=
  [⟨sampleGone, sampleSynAck, ⟨2, 2⟩⟩, ⟨sampleGone, sampleIn₂ TCP_ACK_FLAG [], ⟨2, 2⟩⟩]

/-- Whether the call sends a cached packet. -/
def Call.cached : Call → Bool
  | .send_cached_pkt _ _ _ => true
  | _ => false

/-- Blank buffers. -/
def samplePool : Nat → Mbuf := fun _ => .ofBytes []

/-- An ACK of a client without a flow, and then an ACK of the other client. -/
def sampleIdle : List Recv :=
  [⟨sampleGone, sampleIn TCP_ACK_FLAG [], ⟨2, 2⟩⟩, ⟨sampleGone, sampleIn₂ TCP_ACK_FLAG [], ⟨2, 2⟩⟩]

/-- The second ACK fails; the first one had nothing to do, so nothing is lost. -/
theorem burst_isolated_iff_sample :
    ∃ s s' fs r, Steps (fun s l s' => ∃ cs, FrontStep s l s' cs) sampleStart (sampleBusy.take 2) s ∧
      serve_each sampleIdle s = some (s', fs) ∧ fails sampleIdle s = true ∧
      Burst.process_pkts (some samplePool) id sampleIdle s = some r ∧
      r.shared = s' ∧ r.calls = fs.map Prod.snd := by
  have hrun : ((sampleBusy.take 2).foldlM handle sampleStart).map (fun s =>
      ((serve_each sampleIdle s).isSome, fails sampleIdle s,
        sampleIdle.all fun l => unserved l.rc s l.pkt || idle l.rc s l.pkt)) =
      some (true, true, true) := by decide +kernel
  obtain ⟨s, hs, he⟩ := Option.map_eq_some_iff.mp hrun
  simp only [Prod.mk.injEq] at he
  obtain ⟨hse, hf, hall⟩ := he
  obtain ⟨⟨s', fs⟩, hse⟩ := Option.isSome_iff_exists.mp hse
  have hidle : ∀ l ∈ sampleIdle, unserved l.rc s l.pkt = true ∨ idle l.rc s l.pkt = true :=
    fun l hl => Bool.or_eq_true_iff.mp (List.all_eq_true.mp hall l hl)
  obtain ⟨r, hr, hdone⟩ := (burst_isolated_iff samplePool id hse).mpr (.inr hidle)
  obtain ⟨hshared, hcalls⟩ := hdone hf
  exact ⟨s, s', fs, r, .of_foldlM (fun _ _ _ => handle_step) hs, hse, hf, hr, hshared, hcalls⟩

/-- The ACK of the other client fails.  The SYN-ACK before it has put the first client's flow into
OFFLOAD and its cached request into a send buffer, which is never transmitted. -/
theorem burst_not_isolated :
    ∃ s s' fs r, Steps (fun s l s' => ∃ cs, FrontStep s l s' cs) sampleStart sampleBusy s ∧
      serve_each sampleBurst s = some (s', fs) ∧ fails sampleBurst s = true ∧
      Burst.process_pkts (some samplePool) id sampleBurst s = some r ∧
      r.status = .INTERNAL_ERROR ∧ r.handed = [] ∧
      (r.shared.find sampleClient).map (fun a => (r.shared.flow a).state) = some .OFFLOAD ∧
      (∃ d m n, fs.map Prod.snd = [.send_cached_pkt d m n]) ∧
      ¬ (r.shared = s' ∧ r.calls = fs.map Prod.snd) := by
  have hf : (sampleBusy.foldlM handle sampleStart).map (fails sampleBurst) = some true := by
    decide +kernel
  have hse : (sampleBusy.foldlM handle sampleStart).map (fun s =>
      (serve_each sampleBurst s).map fun r => r.2.map (·.2.cached)) = some (some [true]) := by
    decide +kernel
  have hr : (sampleBusy.foldlM handle sampleStart).map (fun s =>
      (Burst.process_pkts (some samplePool) id sampleBurst s).map fun r =>
        (r.status, r.handed, (r.shared.find sampleClient).map fun a => (r.shared.flow a).state)) =
      some (some (.INTERNAL_ERROR, [], some .OFFLOAD)) := by decide +kernel
  obtain ⟨s, hs, hf⟩ := Option.map_eq_some_iff.mp hf
  rw [hs, Option.map_some] at hse hr
  obtain ⟨⟨s', fs⟩, hse, hfs⟩ := Option.map_eq_some_iff.mp (Option.some.inj hse)
  obtain ⟨r, hr, he⟩ := Option.map_eq_some_iff.mp (Option.some.inj hr)
  simp only [Prod.mk.injEq] at he
  have hcached : ∃ d m n, fs.map Prod.snd = [.send_cached_pkt d m n] := by
    obtain ⟨⟨rc, c⟩, rfl, hc⟩ := List.map_eq_singleton_iff.mp hfs
    cases c with
    | send_cached_pkt d m n => exact ⟨d, m, n, rfl⟩
    | _ => cases hc
  refine ⟨s, s', fs, r, .of_foldlM (fun _ _ _ => handle_step) hs, hse, hf, hr, he.1, he.2.1, he.2.2,
    hcached, fun hdone => ?_⟩
  obtain ⟨d, m, n, hc⟩ := hcached
  have hcalls : r.calls = [] := by simp [Burst.calls, he.2.1]
  cases hcalls.symm.trans (hdone.2.trans hc)

/-- The burst with the packet that fails keeps none of its buffers. -/
theorem buffers_conserved_iff_sample :
    ∃ s r, Steps (fun s l s' => ∃ cs, FrontStep s l s' cs) sampleStart sampleBusy s ∧
      fails sampleBurst s = true ∧ Burst.process_pkts (some samplePool) id sampleBurst s = some r ∧
      ¬ (r.accepted ++ r.freed).Perm r.obtained := by
  have hrun : (sampleBusy.foldlM handle sampleStart).map (fun s =>
      (fails sampleBurst s, (Burst.process_pkts (some samplePool) id sampleBurst s).isSome)) =
      some (true, true) := by decide +kernel
  obtain ⟨s, hs, he⟩ := Option.map_eq_some_iff.mp hrun
  simp only [Prod.mk.injEq] at he
  obtain ⟨hf, hr⟩ := he
  obtain ⟨r, hr⟩ := Option.isSome_iff_exists.mp hr
  refine ⟨s, r, .of_foldlM (fun _ _ _ => handle_step) hs, hf, hr, fun h => ?_⟩
  rcases (buffers_conserved_iff (fun _ => le_rfl) hr).mp h with hnone | ⟨hgood, -⟩
  · cases hnone
  · exact absurd (hf.symm.trans hgood) (by decide)

/-- A packet that fails: all four buffers of the burst are lost.  A SYN that is not accepted: its
buffer is lost. -/
theorem buffers_not_conserved :
    (∃ s r, Steps (fun s l s' => ∃ cs, FrontStep s l s' cs) sampleStart sampleBusy s ∧
      Burst.process_pkts (some samplePool) id sampleBurst s = some r ∧
      r.obtained = [0, 1, 2, 3] ∧ r.accepted = [] ∧ r.freed = [] ∧
      ¬ (r.accepted ++ r.freed).Perm r.obtained) ∧
    ∃ r, Burst.process_pkts (some samplePool) (fun _ => 0) [sampleRecv (sampleRequest 0x61) 0]
        sampleStart = some r ∧
      r.obtained = [0, 1] ∧ r.accepted = [] ∧ r.freed = [1] ∧
      ¬ (r.accepted ++ r.freed).Perm r.obtained := by
  constructor
  · have hrun : (sampleBusy.foldlM handle sampleStart).map (fun s =>
        (Burst.process_pkts (some samplePool) id sampleBurst s).map fun r =>
          (r.obtained, r.accepted, r.freed)) = some (some ([0, 1, 2, 3], [], [])) := by decide +kernel
    obtain ⟨s, hs, he⟩ := Option.map_eq_some_iff.mp hrun
    obtain ⟨r, hr, he⟩ := Option.map_eq_some_iff.mp he
    simp only [Prod.mk.injEq] at he
    obtain ⟨ho, ha, hf⟩ := he
    refine ⟨s, r, .of_foldlM (fun _ _ _ => handle_step) hs, hr, ho, ha, hf, ?_⟩
    rw [ho, ha, hf]
    decide
  · have hrun : (Burst.process_pkts (some samplePool) (fun _ => 0) [sampleRecv (sampleRequest 0x61) 0]
        sampleStart).map (fun r => (r.obtained, r.accepted, r.freed)) = some ([0, 1], [], [1]) := by
      decide +kernel
    obtain ⟨r, hr, he⟩ := Option.map_eq_some_iff.mp hrun
    simp only [Prod.mk.injEq] at he
    obtain ⟨ho, ha, hf⟩ := he
    refine ⟨r, hr, ho, ha, hf, ?_⟩
    rw [ho, ha, hf]
    decide

end Miresga.Frontend
