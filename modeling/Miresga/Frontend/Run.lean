import Miresga.Lib.Run
import Miresga.Frontend.Transition

/-!
# Frontend — runs, and a sound flow table

A run of the front-end handles packets one at a time (`FrontStep`); its label carries the packet,
the rule controller's tables of that moment and the allocator's answers, so that rules and servers
may change between packets in any way.

`Sound` is what every other invariant rests on: no two keys share a record or a cached packet, and
the cached packet of a live record is live.  It survives every transition as long as the allocator
does not hand out a block the flow table still leads to (`Keeps`).  For live records that is the
allocator's own contract; it says something only where the program has released a record and left
it in the table.  The contents of such a record then stay as they are, which takes besides that
`rte_free` leaves them alone (Lib/Store.lean); where no record is released in the table (`TidyStep`),
nothing is read after its release.
-/

namespace Miresga.Frontend

/-! ### Steps and runs -/

/-- The input of one step. -/
structure Recv where
  rc : RuleController
  pkt : Mbuf
  mem : Alloc

/-- One packet is handled, whatever the send buffers, and `cs` are the builder calls made. -/
def FrontStep (s : Shared) (l : Recv) (s' : Shared) (cs : List Call) : Prop :=
  ∃ t t', (process_pkt l.rc l.mem l.pkt ⟨s, t⟩).Done ⟨s', t'⟩ ∧ t'.calls = t.calls ++ cs

/-- The start: an empty flow table, nothing released twice, nothing enqueued. -/
structure Initial (s : Shared) : Prop where
  table : ∀ k, s.flow_hash_map k = none
  flows : s.flows.double = false
  cached : s.cached.double = false
  enqueued : s.enqueued = []

/-- The allocator returns no block of a record that was released while still in the table.  If a release
leaves the contents of a block alone, as the heap assumes, such a record keeps its contents. -/
def Keeps (s : Shared) (mem : Alloc) : Prop :=
  ∀ k a, s.flow_hash_map k = some a → s.flows.live a = false →
    mem.flow_data ≠ a ∧ (s.flow a).recv_pkt ≠ some mem.recv_pkt

/-- A new record is in the table under no key yet. -/
theorem Keeps.flow_fresh {s : Shared} {mem : Alloc} (hk : Keeps s mem)
    (hl : s.flows.live mem.flow_data = false) {k : Slot} {b : Addr}
    (e : s.flow_hash_map k = some b) : b ≠ mem.flow_data := fun hb =>
  (hk k b e (hb ▸ hl)).1 hb.symm

/-- A step of a run in which a record released while still in the table keeps its contents. -/
def KeptStep (s : Shared) (l : Recv) (s' : Shared) : Prop :=
  Keeps s l.mem ∧ ∃ cs, FrontStep s l s' cs

theorem FrontStep.transition {s s' : Shared} {l : Recv} {cs : List Call}
    (h : FrontStep s l s' cs) : Transition l.rc l.mem l.pkt s s' cs := by
  obtain ⟨t, t', h, hcs⟩ := h
  obtain ⟨cs', ht, hcs'⟩ := process_pkt_takes h
  cases List.append_cancel_left (hcs.symm.trans hcs')
  exact ht

/-- A step, with the state at its end in one piece. -/
theorem FrontStep.proc {s s' : Shared} {l : Recv} {cs : List Call} (h : FrontStep s l s' cs) :
    ∃ t p, (process_pkt l.rc l.mem l.pkt ⟨s, t⟩).Done p ∧ p.shared = s' ∧
      p.sends.calls = t.calls ++ cs := by
  obtain ⟨t, t', h, hc⟩ := h
  exact ⟨t, _, h, rfl, hc⟩

/-- Empty send buffers, none of them used. -/
def Sends.blank : Sends := ⟨fun _ => .ofBytes [], 0, []⟩

/-- The shared state after a packet and the calls it made, if the loop body gets through with it. -/
def handleCalls (s : Shared) (l : Recv) : Option (Shared × List Call) :=
  match process_pkt l.rc l.mem l.pkt ⟨s, .blank⟩ with
  | .next s' | .ret _ s' => some (s'.shared, s'.sends.calls)
  | .crash | .overflow | .stray | .refused => none

def handle (s : Shared) (l : Recv) : Option Shared := (handleCalls s l).map Prod.fst

theorem handleCalls_step {s s' : Shared} {l : Recv} {cs : List Call}
    (h : handleCalls s l = some (s', cs)) : FrontStep s l s' cs := by
  unfold handleCalls at h
  split at h
  next o ho =>
    cases h
    exact ⟨.blank, o.sends, by rw [ho]; exact .next o, rfl⟩
  next st o ho =>
    cases h
    exact ⟨.blank, o.sends, by rw [ho]; exact .ret st o, rfl⟩
  all_goals cases h

theorem handle_step {s s' : Shared} {l : Recv} (h : handle s l = some s') :
    ∃ cs, FrontStep s l s' cs := by
  obtain ⟨⟨t, cs⟩, hc, rfl⟩ := Option.map_eq_some_iff.mp h
  exact ⟨cs, handleCalls_step hc⟩

/-- A burst is a run of steps: those of the packets up to the first that makes it return. -/
theorem process_pkts_run {ps : List Recv} {s s' : Proc} {st : Status}
    (h : process_pkts (ps.map fun l => (l.rc, l.mem, l.pkt)) s = .ret st s') :
    ∃ ls, ls <+: ps ∧ Steps (fun s l s' => ∃ cs, FrontStep s l s' cs) s.shared ls s'.shared := by
  induction ps generalizing s with
  | nil =>
      cases h
      exact ⟨[], List.nil_prefix, .refl⟩
  | cons l ps ih =>
      rw [List.map_cons, process_pkts] at h
      -- either way the packet is done, in the state the rest starts from
      have done : ∀ {o t}, process_pkt l.rc l.mem l.pkt s = o → o.Done t →
          ∃ cs, FrontStep s.shared l t.shared cs := fun {o t} ho hd => by
        obtain ⟨cs, -, hc⟩ := process_pkt_takes (ho ▸ hd)
        exact ⟨cs, s.sends, t.sends, ho ▸ hd, hc⟩
      split at h
      next t ho =>
        obtain ⟨ls, hp, hr⟩ := ih h
        exact ⟨l :: ls, List.cons_prefix_cons.mpr ⟨rfl, hp⟩, (Steps.one (done ho (.next t))).trans hr⟩
      next ho =>
        rw [h] at ho
        exact ⟨[l], by simp, Steps.one (done h (.ret st s'))⟩

/-! ### What the operations leave alone -/

section fields

variable (s : Shared) (c : Client) (a : Addr)

@[simp] theorem enqueue_table (e : Enq) : (s.enqueue e).flow_hash_map = s.flow_hash_map := rfl
@[simp] theorem enqueue_flows (e : Enq) : (s.enqueue e).flows = s.flows := rfl
@[simp] theorem enqueue_cached (e : Enq) : (s.enqueue e).cached = s.cached := rfl
@[simp] theorem enqueue_enqueued (e : Enq) : (s.enqueue e).enqueued = s.enqueued ++ [e] := rfl

@[simp] theorem erase_flows : (s.erase c).flows = s.flows := rfl
@[simp] theorem erase_cached : (s.erase c).cached = s.cached := rfl
@[simp] theorem erase_enqueued : (s.erase c).enqueued = s.enqueued := rfl
@[simp] theorem erase_same : (s.erase c).flow_hash_map c.slot = none := upd_same _ _ _

theorem erase_other {k : Slot} (h : k ≠ c.slot) : (s.erase c).flow_hash_map k = s.flow_hash_map k :=
  upd_other _ _ _ h

@[simp] theorem set_state_table (st : FlowState) :
    (s.set_state a st).flow_hash_map = s.flow_hash_map := rfl
@[simp] theorem set_state_cached (st : FlowState) : (s.set_state a st).cached = s.cached := rfl
@[simp] theorem set_state_enqueued (st : FlowState) :
    (s.set_state a st).enqueued = s.enqueued := rfl
@[simp] theorem set_state_live (st : FlowState) :
    (s.set_state a st).flows.live = s.flows.live := rfl
@[simp] theorem set_state_double (st : FlowState) :
    (s.set_state a st).flows.double = s.flows.double := rfl

@[simp] theorem set_state_flow_same (st : FlowState) :
    (s.set_state a st).flow a = { s.flow a with state := st } := Heap.put_cell_same _ _ _

theorem set_state_flow_other {b : Addr} (st : FlowState) (h : b ≠ a) :
    (s.set_state a st).flow b = s.flow b := Heap.put_cell_other _ h

@[simp] theorem free_pkt_table : (s.free_pkt a).flow_hash_map = s.flow_hash_map := by
  unfold Shared.free_pkt; split <;> rfl
@[simp] theorem free_pkt_flows : (s.free_pkt a).flows = s.flows := by
  unfold Shared.free_pkt; split <;> rfl
@[simp] theorem free_pkt_enqueued : (s.free_pkt a).enqueued = s.enqueued := by
  unfold Shared.free_pkt; split <;> rfl

@[simp] theorem erase_free_pkt_cached : ((s.erase c).free_pkt a).cached = (s.free_pkt a).cached := by
  unfold Shared.free_pkt Shared.erase Shared.flow
  dsimp only
  split <;> rfl

@[simp] theorem release_table : (s.release a).flow_hash_map = s.flow_hash_map := free_pkt_table s a
@[simp] theorem release_flows : (s.release a).flows = s.flows.free a := by
  simp [Shared.release]
@[simp] theorem release_cached : (s.release a).cached = (s.free_pkt a).cached := rfl
@[simp] theorem release_enqueued : (s.release a).enqueued = s.enqueued := free_pkt_enqueued s a
@[simp] theorem release_flow (b : Addr) : (s.release a).flow b = s.flow b := by
  simp [Shared.release, Shared.flow]

@[simp] theorem unoffload_table : (s.unoffload c a).flow_hash_map = s.flow_hash_map := by
  unfold Shared.unoffload; split <;> rfl
@[simp] theorem unoffload_find (c' : Client) : (s.unoffload c a).find c' = s.find c' := by
  rw [Shared.find, unoffload_table, Shared.find]
@[simp] theorem unoffload_flow (b : Addr) : (s.unoffload c a).flow b = s.flow b := by
  unfold Shared.unoffload; split <;> rfl
@[simp] theorem unoffload_flows : (s.unoffload c a).flows = s.flows := by
  unfold Shared.unoffload; split <;> rfl
@[simp] theorem unoffload_cached : (s.unoffload c a).cached = s.cached := by
  unfold Shared.unoffload; split <;> rfl

end fields

/-- The cached packets that live after `free_pkt`. -/
theorem free_pkt_live {s : Shared} {a q : Addr} :
    (s.free_pkt a).cached.live q = true ↔
      s.cached.live q = true ∧ (s.flow a).recv_pkt ≠ some q := by
  unfold Shared.free_pkt
  split
  next h => simp [h]
  next o h =>
    by_cases e : q = o
    · subst e; simp [Heap.free, h]
    · rw [Heap.free_live_other e]
      simp [h, Ne.symm e]

/-- What `move` does when the allocator answers. -/
theorem move_eq_some {s s' : Shared} {a q : Addr} {data : MyData} {p : Mbuf}
    (h : s.move a data q p = some s') :
    (s.free_pkt a).cached.live q = false ∧
    s'.flow_hash_map = s.flow_hash_map ∧ s'.enqueued = s.enqueued ∧
    s'.flows = s.flows.put a (Shared.await data q p) ∧
    s'.cached.double = (s.free_pkt a).cached.double ∧
    s'.cached.live = upd (s.free_pkt a).cached.live q true ∧
    s'.cached.cell = upd (s.free_pkt a).cached.cell q
      (((s.free_pkt a).cached.cell q).copy p.data p.data_len.toNat) := by
  unfold Shared.move Shared.cache at h
  split at h
  · cases h
  next t ht =>
    split at ht
    · cases ht
    next c hc =>
      obtain ⟨hl, rfl⟩ := Heap.malloc_eq_some hc
      cases ht
      cases h
      exact ⟨hl, by simp, by simp, by simp, rfl, rfl, rfl⟩

/-- What `create` does for a client without an entry when the allocator answers. -/
theorem create_eq_some {s s' : Shared} {c : Client} {data : MyData} {mem : Alloc} {p : Mbuf}
    (h : s.create c data mem p = some s') (hn : s.find c = none) :
    s.flows.live mem.flow_data = false ∧ s.cached.live mem.recv_pkt = false ∧
    s'.flow_hash_map = upd s.flow_hash_map c.slot (some mem.flow_data) ∧
    s'.enqueued = s.enqueued ∧
    s'.flows.double = s.flows.double ∧ s'.cached.double = s.cached.double ∧
    s'.flows.live = upd s.flows.live mem.flow_data true ∧
    s'.flows.cell = upd s.flows.cell mem.flow_data (Shared.await data mem.recv_pkt p) ∧
    s'.cached.live = upd s.cached.live mem.recv_pkt true ∧
    s'.cached.cell = upd s.cached.cell mem.recv_pkt
      ((s.cached.cell mem.recv_pkt).copy p.data p.data_len.toNat) := by
  unfold Shared.create Shared.cache at h
  split at h
  · cases h
  next f hf =>
    obtain ⟨hl, rfl⟩ := Heap.malloc_eq_some hf
    split at h
    · cases h
    next t ht =>
      split at ht
      · cases ht
      next g hg =>
        obtain ⟨hl', rfl⟩ := Heap.malloc_eq_some hg
        cases ht
        cases h
        have hn' : s.flow_hash_map c.slot = none := hn
        rw [Shared.insert, Shared.find, hn', if_neg (by simp)]
        exact ⟨hl, hl', rfl, rfl, rfl, rfl, rfl, rfl, rfl, rfl⟩

/-! ### A sound flow table -/

/-- No two keys share a record or a cached packet, the cached packet of a live record is live, and
no record of the table is in its initial state. -/
structure Sound (s : Shared) : Prop where
  inj : ∀ {k k' a}, s.flow_hash_map k = some a → s.flow_hash_map k' = some a → k = k'
  pkt_inj : ∀ {k k' a a' q}, s.flow_hash_map k = some a → s.flow_hash_map k' = some a' →
    (s.flow a).recv_pkt = some q → (s.flow a').recv_pkt = some q → k = k'
  pkt_live : ∀ {k a q}, s.flow_hash_map k = some a → s.flows.live a = true →
    (s.flow a).recv_pkt = some q → s.cached.live q = true
  inited : ∀ {k a}, s.flow_hash_map k = some a → (s.flow a).state ≠ .INIT

namespace Sound

variable {s s' : Shared}

theorem initial (h : Initial s) : Sound s := by
  have none : ∀ {k a}, s.flow_hash_map k ≠ some a := fun {k a} e => by
    rw [h.table] at e
    cases e
  exact ⟨fun e => absurd e none, fun e => absurd e none, fun e => absurd e none,
    fun e => absurd e none⟩

/-- It is a property of the table and the two heaps. -/
theorem congr (h : Sound s) (h₁ : s'.flow_hash_map = s.flow_hash_map) (h₂ : s'.flows = s.flows)
    (h₃ : s'.cached = s.cached) : Sound s' := by
  obtain ⟨t, f, c, e⟩ := s
  obtain ⟨t', f', c', e'⟩ := s'
  cases h₁; cases h₂; cases h₃
  exact ⟨h.inj, h.pkt_inj, h.pkt_live, h.inited⟩

/-- With `SrcFree`, a client has no entry at all. -/
theorem find_none (h : Sound s) {c : Client} (hn : s.SrcFree c) : s.find c = none := by
  cases hf : s.find c with
  | none => rfl
  | some a => exact absurd (hn a hf) (h.inited hf)

theorem set_state (h : Sound s) (a : Addr) (st : FlowState) (hst : st ≠ .INIT) :
    Sound (s.set_state a st) := by
  have pkt : ∀ b, ((s.set_state a st).flow b).recv_pkt = (s.flow b).recv_pkt := fun b => by
    by_cases e : b = a
    · subst e; simp
    · rw [set_state_flow_other _ _ _ e]
  refine ⟨h.inj, fun {k k' b b' q} e e' => ?_, fun {k b q} e => ?_, fun {k b} e => ?_⟩
  · rw [pkt, pkt]; exact h.pkt_inj e e'
  · rw [pkt]; exact h.pkt_live e
  · by_cases e' : b = a
    · subst e'; simpa using hst
    · rw [set_state_flow_other _ _ _ e']; exact h.inited e

theorem enqueue (h : Sound s) (e : Enq) : Sound (s.enqueue e) := h.congr rfl rfl rfl

theorem unoffload (h : Sound s) (c : Client) (a : Addr) : Sound (s.unoffload c a) :=
  h.congr (by simp) (by simp) (by simp)

theorem erase (h : Sound s) (c : Client) : Sound (s.erase c) := by
  have sub : ∀ {k a}, (s.erase c).flow_hash_map k = some a → s.flow_hash_map k = some a :=
    fun {k a} e => by
      by_cases hk : k = c.slot
      · subst hk; simp at e
      · rwa [erase_other _ _ hk] at e
  exact ⟨fun e e' => h.inj (sub e) (sub e'), fun e e' => h.pkt_inj (sub e) (sub e'),
    fun e => h.pkt_live (sub e), fun e => h.inited (sub e)⟩

/-- A record is released whose packet no other record of the table has. -/
theorem release (h : Sound s) {a : Addr}
    (hq : ∀ k b q, s.flow_hash_map k = some b → b ≠ a → (s.flow b).recv_pkt = some q →
      (s.flow a).recv_pkt ≠ some q) : Sound (s.release a) := by
  refine ⟨fun e e' => ?_, fun e e' hp hp' => ?_, fun {k b q} e hl hp => ?_, fun e => ?_⟩ <;>
    simp only [release_table, release_flow] at *
  · exact h.inj e e'
  · exact h.pkt_inj e e' hp hp'
  on_goal 2 => exact h.inited e
  -- the released record itself is not live any more
  have hne : b ≠ a := fun e' => by
    subst e'; simp [Heap.free] at hl
  have hl' : s.flows.live b = true := by
    rwa [release_flows, Heap.free_live_other hne] at hl
  exact free_pkt_live.mpr ⟨h.pkt_live e hl' hp, hq k b q e hne hp⟩

/-- The packet of a record in the table belongs to no other record. -/
theorem pkt_own (h : Sound s) {k₀ : Slot} {a : Addr} (hf : s.flow_hash_map k₀ = some a) :
    ∀ k b q, s.flow_hash_map k = some b → b ≠ a → (s.flow b).recv_pkt = some q →
      (s.flow a).recv_pkt ≠ some q := by
  intro k b q e hne hp hp'
  have hk := h.pkt_inj e hf hp hp'
  subst hk
  exact hne (Option.some.inj (e.symm.trans hf))

theorem close (h : Sound s) {c : Client} {a : Addr} (hf : s.find c = some a) :
    Sound (s.close c a) := by
  refine ((h.unoffload c a).erase c).release fun k b q e hne hp => ?_
  have e' : s.flow_hash_map k = some b := by
    by_cases hk : k = c.slot
    · subst hk; simp at e
    · rwa [erase_other _ _ hk, unoffload_table] at e
  simp only [Shared.flow, erase_flows, unoffload_flows] at hp ⊢
  exact h.pkt_own hf k b q e' hne hp

/-- A new packet block belongs to no record of the table. -/
theorem pkt_fresh (h : Sound s) {mem : Alloc} (hk : Keeps s mem)
    (hl : s.cached.live mem.recv_pkt = false) {k : Slot} {b : Addr}
    (e : s.flow_hash_map k = some b) : (s.flow b).recv_pkt ≠ some mem.recv_pkt := fun hp => by
  cases hlb : s.flows.live b with
  | false => exact (hk k b e hlb).2 hp
  | true => exact Bool.false_ne_true (hl.symm.trans (h.pkt_live e hlb hp))

/-- A packet block that is new once `a`'s packet is released belongs to no other record. -/
theorem pkt_fresh_free (h : Sound s) {mem : Alloc} {c : Client} {a : Addr} (hk : Keeps s mem)
    (hf : s.find c = some a) (hl : (s.free_pkt a).cached.live mem.recv_pkt = false) {k : Slot}
    {b : Addr} (e : s.flow_hash_map k = some b) (hne : b ≠ a) :
    (s.flow b).recv_pkt ≠ some mem.recv_pkt := fun hp => by
  cases hlb : s.flows.live b with
  | false => exact (hk k b e hlb).2 hp
  | true =>
      refine Bool.false_ne_true (hl.symm.trans (free_pkt_live.mpr ⟨h.pkt_live e hlb hp, ?_⟩))
      exact h.pkt_own hf k b _ e hne hp

theorem move (h : Sound s) {c : Client} {a : Addr} {data : MyData} {mem : Alloc} {p : Mbuf}
    (hk : Keeps s mem) (hf : s.find c = some a) (hm : s.move a data mem.recv_pkt p = some s') :
    Sound s' := by
  obtain ⟨hl, ht, -, hfl, -, hc, -⟩ := move_eq_some hm
  have own : s'.flow a = Shared.await data mem.recv_pkt p := by
    rw [Shared.flow, hfl, Heap.put_cell_same]
  have other : ∀ {b}, b ≠ a → s'.flow b = s.flow b := fun e => by
    rw [Shared.flow, hfl, Heap.put_cell_other _ e, Shared.flow]
  have fresh : ∀ {k b}, s.flow_hash_map k = some b → b ≠ a →
      (s.flow b).recv_pkt ≠ some mem.recv_pkt := h.pkt_fresh_free hk hf hl
  refine ⟨fun e e' => ?_, fun {k k' b b' q} e e' hp hp' => ?_, fun {k b q} e hlb hp => ?_,
    fun {k b} e => ?_⟩
  · rw [ht] at e e'; exact h.inj e e'
  · rw [ht] at e e'
    by_cases hb : b = a
    · by_cases hb' : b' = a
      · exact h.inj (hb ▸ e) (hb' ▸ e')
      · rw [hb, own] at hp
        cases hp
        rw [other hb'] at hp'
        exact absurd hp' (fresh e' hb')
    · by_cases hb' : b' = a
      · rw [hb', own] at hp'
        cases hp'
        rw [other hb] at hp
        exact absurd hp (fresh e hb)
      · rw [other hb] at hp
        rw [other hb'] at hp'
        exact h.pkt_inj e e' hp hp'
  · rw [ht] at e
    rw [hc]
    by_cases hq : q = mem.recv_pkt
    · subst hq; exact upd_same _ _ _
    · rw [upd_other _ _ _ hq]
      have hb : b ≠ a := fun hb => by
        rw [hb, own] at hp
        exact hq (Option.some.inj hp).symm
      rw [other hb] at hp
      rw [hfl] at hlb
      exact free_pkt_live.mpr ⟨h.pkt_live e hlb hp, h.pkt_own hf k b q e hb hp⟩
  · rw [ht] at e
    by_cases hb : b = a
    · rw [hb, own]; simp [Shared.await]
    · rw [other hb]; exact h.inited e

theorem create (h : Sound s) {c : Client} {data : MyData} {mem : Alloc} {p : Mbuf}
    (hk : Keeps s mem) (hn : s.find c = none) (hc : s.create c data mem p = some s') :
    Sound s' := by
  obtain ⟨hlf, hlq, ht, -, -, -, hfl, hcell, hql, -⟩ := create_eq_some hc hn
  have fresh : ∀ {k b}, s.flow_hash_map k = some b → b ≠ mem.flow_data := hk.flow_fresh hlf
  have freshq : ∀ {k b}, s.flow_hash_map k = some b → (s.flow b).recv_pkt ≠ some mem.recv_pkt :=
    h.pkt_fresh hk hlq
  have own : s'.flow mem.flow_data = Shared.await data mem.recv_pkt p := by
    rw [Shared.flow, hcell, upd_same]
  have other : ∀ {b}, b ≠ mem.flow_data → s'.flow b = s.flow b := fun e => by
    rw [Shared.flow, hcell, upd_other _ _ _ e, Shared.flow]
  -- an entry of the new table is the new one, or an old one under another key
  have entry : ∀ {k b}, s'.flow_hash_map k = some b →
      (k = c.slot ∧ b = mem.flow_data) ∨ (s.flow_hash_map k = some b ∧ b ≠ mem.flow_data) :=
    fun {k b} e => by
      rw [ht] at e
      by_cases hkc : k = c.slot
      · rw [hkc, upd_same] at e
        exact .inl ⟨hkc, (Option.some.inj e).symm⟩
      · rw [upd_other _ _ _ hkc] at e
        exact .inr ⟨e, fresh e⟩
  refine ⟨fun e e' => ?_, fun {k k' b b' q} e e' hp hp' => ?_, fun {k b q} e hlb hp => ?_,
    fun {k b} e => ?_⟩
  · rcases entry e with ⟨rfl, hb⟩ | ⟨e, hb⟩ <;> rcases entry e' with ⟨rfl, hb'⟩ | ⟨e', hb'⟩
    · rfl
    · exact absurd hb hb'
    · exact absurd hb' hb
    · exact h.inj e e'
  · rcases entry e with ⟨rfl, rfl⟩ | ⟨e, hb⟩ <;> rcases entry e' with ⟨rfl, rfl⟩ | ⟨e', hb'⟩
    · rfl
    · rw [own] at hp
      cases hp
      exact absurd (other hb' ▸ hp') (freshq e')
    · rw [own] at hp'
      cases hp'
      exact absurd (other hb ▸ hp) (freshq e)
    · rw [other hb] at hp
      rw [other hb'] at hp'
      exact h.pkt_inj e e' hp hp'
  · rw [hql]
    by_cases hq : q = mem.recv_pkt
    · subst hq; exact upd_same _ _ _
    · rw [upd_other _ _ _ hq]
      rcases entry e with ⟨rfl, rfl⟩ | ⟨e, hb⟩
      · rw [own] at hp
        exact absurd (Option.some.inj hp).symm hq
      · rw [other hb] at hp
        rw [hfl, upd_other _ _ _ hb] at hlb
        exact h.pkt_live e hlb hp
  · rcases entry e with ⟨rfl, rfl⟩ | ⟨e, hb⟩
    · rw [own]; simp [Shared.await]
    · rw [other hb]; exact h.inited e

/-- **Every transition keeps the flow table sound.** -/
theorem transition (h : Sound s) {rc : RuleController} {mem : Alloc} {p : Mbuf} {cs : List Call}
    (hk : Keeps s mem) (ht : Transition rc mem p s s' cs) : Sound s' := by
  cases ht with
  | ignored | fin_unsent | forward | serve | resyn | reply => exact h
  | @offload a => exact (h.set_state a .OFFLOAD nofun).enqueue _
  | @unoffload a => exact (h.set_state a .COMPLETE nofun).enqueue _
  | @move a _ _ hf _ _ hm =>
      have hf' := (unoffload_find s (srcClient p.data) a (srcClient p.data)).trans hf
      refine (h.unoffload (srcClient p.data) a).move (fun k b e hl => ?_) hf' hm
      simp only [unoffload_table, unoffload_flows] at e hl
      simpa [Shared.flow] using hk k b e hl
  | close_client hf | close_backend _ hf => exact h.close hf
  | abandon _ hf => exact h.release (h.pkt_own hf)
  | @syn_ack a =>
      unfold Shared.establish
      dsimp only
      split
      · exact (h.set_state a .OFFLOAD nofun).enqueue _
      · exact h.set_state a .COMPLETE nofun
  | create hn _ hc => exact h.create hk (h.find_none hn) hc

theorem step (h : Sound s) {l : Recv} (hs : KeptStep s l s') : Sound s' := by
  obtain ⟨hk, cs, ht⟩ := hs
  exact h.transition hk ht.transition

end Sound

end Miresga.Frontend
