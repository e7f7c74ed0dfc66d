import Miresga.Backend.Checksum

/-!
# Backend — which bytes the programs write

Both programs take the TCP header to be at byte 34 and to have 20 bytes, whatever the IPv4 header
length, the fragment offset and the data offset say, and follow a SACK option up to the end of the
frame.  What they do to a frame that they do not leave alone is an edit (`IngressEdit`,
`EgressEdit`): one number is added to the words at some places, and the checksum is folded
(`Edited`).

`headerOnly_iff` says for each program, each frame and all maps when this keeps to the TCP header of
the frame.  A byte that is written need not change: the last bytes of a number stay when a power of
two divides what is added (`Mem.tail_add_iff`), and the checksum stays when the numbers together
grow by a multiple of 65535 (`Edited.cksum_eq_iff`).
-/

namespace Miresga.Backend

variable {K : Helpers} {maps : Maps} {f g : Frame} {d : BitVec 32} {l : List Nat} {m m' : Mem}

/-- `g` differs from `f` inside the TCP header of `f` only, and not at all if `f` is a fragment that
is not the first. -/
structure InHeader (f g : Frame) : Prop where
  inside : ∀ i, g.data i ≠ f.data i → tcp_at f.data ≤ i ∧ i < tcp_end f.data
  fragment : frag_offset f.data ≠ 0 → ∀ i, g.data i = f.data i

theorem inHeader_iff : InHeader f g ↔ ∀ i, g.data i ≠ f.data i →
    frag_offset f.data = 0 ∧ tcp_at f.data ≤ i ∧ i < tcp_end f.data := by
  constructor
  · intro h i hi
    exact ⟨by_contra fun hf => hi (h.fragment hf i), h.inside i hi⟩
  · intro h
    exact ⟨fun i hi => (h i hi).2, fun hf i => by_contra fun hi => hf (h i hi).1⟩

/-! ### Edits -/

/-- By how much the number at `o` changes when `d` is added to it. -/
def change (d : BitVec 32) (m : Mem) (o : Nat) : Int :=
  (ntohl (m.ld32 o) + d).toNat - (ntohl (m.ld32 o)).toNat

/-- By how much the numbers at `l` change. -/
def growth (d : BitVec 32) (m : Mem) (l : List Nat) : Int := (l.map (change d m)).sum

/-- `d` has been added to the numbers at `l`, the checksum has been folded, and nothing else was
written. -/
structure Edited (d : BitVec 32) (l : List Nat) (m m' : Mem) : Prop where
  numbers : ∀ o ∈ l, ntohl (m'.ld32 o) = ntohl (m.ld32 o) + d
  check_ne : cksum m' ≠ 0xffff
  check : ((cksum m').toNat : Residue) = (cksum m).toNat - 256 * growth d m l
  rest : ∀ i, (∀ o ∈ l, i < o ∨ o + 4 ≤ i) → i ≠ 50 → i ≠ 51 → m' i = m i

/-- What adding `d` to the numbers at `l` and folding the checksum changes lies in the TCP header,
and the frame is not a later fragment. -/
structure Covered (d : BitVec 32) (l : List Nat) (f : Frame) : Prop where
  numbers : ∀ o ∈ l, d = 0 ∨ frag_offset f.data = 0 ∧ tcp_at f.data ≤ o ∧
    2 ^ (8 * (o + 4 - tcp_end f.data)) ∣ d.toNat
  check : (frag_offset f.data = 0 ∧ tcp_at f.data ≤ 50 ∧ 52 ≤ tcp_end f.data) ∨
    cksum f.data ≠ 0xffff ∧ (65535 : Int) ∣ growth d f.data l

/-- The words at `l` do not reach into the checksum, and the first of them stands where a header may
begin. -/
structure Aligned (l : List Nat) : Prop where
  apart : ∀ o ∈ l, o + 4 ≤ 50 ∨ 52 ≤ o
  first : ∀ o ∈ l, ∃ p ∈ l, p ≤ o ∧ p % 4 = 2

/-- The checksum comes out as it was exactly when the numbers grow by a multiple of 65535 and it is
not the other zero. -/
theorem Edited.cksum_eq_iff (h : Edited d l m m') :
    cksum m' = cksum m ↔ cksum m ≠ 0xffff ∧ (65535 : Int) ∣ growth d m l := by
  have h₂ : (256 : Residue) * 256 = 1 := rfl
  constructor
  · intro hc
    refine ⟨hc ▸ h.check_ne, ?_⟩
    have hr := h.check
    rw [hc] at hr
    refine (ZMod.intCast_zmod_eq_zero_iff_dvd _ 65535).mp ?_
    linear_combination 256 * hr - (growth d m l : Residue) * h₂
  · rintro ⟨hne, hdvd⟩
    have hr := h.check
    rw [(ZMod.intCast_zmod_eq_zero_iff_dvd _ 65535).mpr hdvd, mul_zero, sub_zero] at hr
    have hmod := (ZMod.natCast_eq_natCast_iff' _ _ 65535).mp hr
    have lt {c : BitVec 16} (hc : c ≠ 0xffff) : c.toNat < 65535 := by
      have hlt := c.isLt
      have : c.toNat ≠ 65535 := fun he => hc (BitVec.eq_of_toNat_eq he)
      omega
    rw [Nat.mod_eq_of_lt (lt h.check_ne), Nat.mod_eq_of_lt (lt hne)] at hmod
    exact BitVec.eq_of_toNat_eq hmod

/-- Bytes of a number that are the same behind `e`. -/
theorem Edited.tail (h : Edited d l m m') {o : Nat} (ho : o ∈ l) (e : Nat) :
    (∀ i, o ≤ i → e ≤ i → i < o + 4 → m' i = m i) ↔ 2 ^ (8 * (o + 4 - e)) ∣ d.toNat := by
  by_cases he : o ≤ e
  · have hr : o + 4 - e ≤ 4 := by omega
    rw [← Mem.tail_add_iff hr (h.numbers o ho)]
    exact forall_congr' fun i => ⟨fun h _ hi => h (by omega) (by omega) hi,
      fun h _ _ hi => h (by omega) hi⟩
  · -- all four bytes stand behind `e`
    have hall := Mem.tail_add_iff (le_refl 4) (h.numbers o ho)
    have hzero : 2 ^ (8 * (o + 4 - e)) ∣ d.toNat ↔ 2 ^ (8 * 4) ∣ d.toNat := by
      refine ⟨fun hd => (pow_dvd_pow 2 (by omega)).trans hd, fun hd => ?_⟩
      rw [Nat.eq_zero_of_dvd_of_lt hd d.isLt]
      exact dvd_zero _
    rw [hzero, ← hall]
    exact forall_congr' fun i => ⟨fun h _ hi => h (by omega) (by omega) hi,
      fun h _ _ hi => h (by omega) hi⟩

/-- Adding 0 leaves the numbers. -/
theorem Edited.zero (h : Edited 0 l m m') {o i : Nat} (ho : o ∈ l) (hlo : o ≤ i) (hhi : i < o + 4) :
    m' i = m i :=
  (h.tail ho o).mpr (dvd_zero _) i hlo hlo hhi

/-- A number that changes, changes somewhere. -/
theorem Edited.changed (h : Edited d l m m') (hd : d ≠ 0) {o : Nat} (ho : o ∈ l) :
    ∃ i, o ≤ i ∧ i < o + 4 ∧ m' i ≠ m i := by
  by_contra hno
  simp only [not_exists, not_and, not_not] at hno
  have hdvd := (h.tail ho o).mp fun i hlo _ hhi => hno i hlo hhi
  rw [Nat.add_sub_cancel_left] at hdvd
  exact hd (BitVec.eq_of_toNat_eq (Nat.eq_zero_of_dvd_of_lt hdvd d.isLt))

theorem cksum_bytes (h : cksum m' = cksum m) : m' 50 = m 50 ∧ m' 51 = m 51 := by
  have hn := congrArg BitVec.toNat h
  rw [cksum, cksum, Mem.toNat_ld16, Mem.toNat_ld16] at hn
  simp only [Nat.reduceAdd] at hn
  have h₀ := (m 50).isLt
  have h₀' := (m' 50).isLt
  exact ⟨BitVec.eq_of_toNat_eq (by omega), BitVec.eq_of_toNat_eq (by omega)⟩

theorem cksum_changed (h : cksum m' ≠ cksum m) : ∃ i, 50 ≤ i ∧ i < 52 ∧ m' i ≠ m i := by
  by_contra hno
  simp only [not_exists, not_and, not_not] at hno
  exact h (Mem.ld16_congr hno)

/-- An edit that keeps to the header is covered by it. -/
theorem Edited.covered (h : Edited d l f.data g.data) (hl : Aligned l)
    (hin : ∀ i, g.data i ≠ f.data i →
      frag_offset f.data = 0 ∧ tcp_at f.data ≤ i ∧ i < tcp_end f.data) : Covered d l f := by
  constructor
  · intro o ho
    by_cases hd : d = 0
    · exact .inl hd
    right
    -- the first number begins where a header may begin, so it lies behind that or in front of it
    obtain ⟨p, hp, hpo, hp4⟩ := hl.first o ho
    obtain ⟨i, hlo, hhi, hi⟩ := h.changed hd hp
    obtain ⟨hfrag, hstart, -⟩ := hin i hi
    refine ⟨hfrag, ?_, (h.tail ho _).mp fun i _ he _ => by_contra fun hi => ?_⟩
    · unfold tcp_at at hstart ⊢
      omega
    · have := (hin i hi).2.2
      omega
  · by_cases hc : cksum g.data = cksum f.data
    · exact .inr (h.cksum_eq_iff.mp hc)
    left
    obtain ⟨i, hlo, hhi, hi⟩ := cksum_changed hc
    obtain ⟨hfrag, hstart, hend⟩ := hin i hi
    refine ⟨hfrag, ?_, ?_⟩
    · unfold tcp_at at hstart ⊢
      omega
    · unfold tcp_end tcp_at at hend ⊢
      omega

/-- An edit that the header covers keeps to it. -/
theorem Edited.inside (h : Edited d l f.data g.data) (hcov : Covered d l f) {i : Nat}
    (hi : g.data i ≠ f.data i) :
    frag_offset f.data = 0 ∧ tcp_at f.data ≤ i ∧ i < tcp_end f.data := by
  by_cases hnum : ∃ o ∈ l, o ≤ i ∧ i < o + 4
  · obtain ⟨o, ho, hlo, hhi⟩ := hnum
    rcases hcov.numbers o ho with rfl | ⟨hfrag, hstart, hdvd⟩
    · exact absurd (h.zero ho hlo hhi) hi
    · refine ⟨hfrag, by omega, Nat.lt_of_not_le fun he => hi ?_⟩
      exact (h.tail ho _).mpr hdvd i hlo he hhi
  by_cases hcheck : i = 50 ∨ i = 51
  · rcases hcov.check with ⟨hfrag, hstart, hend⟩ | hkept
    · exact ⟨hfrag, by omega, by omega⟩
    · obtain ⟨h₅₀, h₅₁⟩ := cksum_bytes (h.cksum_eq_iff.mpr hkept)
      rcases hcheck with rfl | rfl
      · exact absurd h₅₀ hi
      · exact absurd h₅₁ hi
  · refine absurd (h.rest i (fun o ho => ?_) (by omega) (by omega)) hi
    have : ¬ (o ≤ i ∧ i < o + 4) := fun h => hnum ⟨o, ho, h⟩
    omega

/-- **An edit keeps to the TCP header** exactly when the header covers it. -/
theorem Edited.inHeader_iff (h : Edited d l f.data g.data) (hl : Aligned l) :
    InHeader f g ↔ Covered d l f := by
  rw [Backend.inHeader_iff]
  exact ⟨h.covered hl, fun hcov _ hi => h.inside hcov hi⟩

/-! ### The running checksum of an edit -/

/-- A sum that starts from a seed other than 0 is not 0: the carry goes back in at the bottom. -/
def Helpers.Nonzero (K : Helpers) : Prop := ∀ old new seed, seed ≠ 0 →
  K.bpf_csum_diff old new seed ≠ 0

theorem csum_add_ne {a : BitVec 32} (h : a ≠ 0) (b : BitVec 32) : csum_add a b ≠ 0 := by
  have ha : 0 < a.toNat := Nat.pos_of_ne_zero fun he => h (BitVec.eq_of_toNat_eq he)
  have hb := b.isLt
  intro he
  have hn := congrArg BitVec.toNat he
  have h₀ : (0 : BitVec 32).toNat = 0 := rfl
  have h₁ : (1 : BitVec 32).toNat = 1 := rfl
  unfold csum_add at hn
  split at hn
  · rw [BitVec.toNat_add_of_lt (by omega), h₀] at hn
    omega
  · have ha' := a.isLt
    rw [BitVec.toNat_add, BitVec.toNat_add, h₀, h₁] at hn
    omega

theorem kernel_nonzero : Helpers.kernel.Nonzero := fun _ _ _ h => csum_add_ne (csum_add_ne h _) _

theorem csum_start_ne (c : BitVec 16) : ~~~(c.setWidth 32 : BitVec 32) ≠ 0 := by
  intro h
  have hc := c.isLt
  have hn := congrArg BitVec.toNat h
  rw [BitVec.toNat_not, BitVec.toNat_setWidth, show (0 : BitVec 32).toNat = 0 from rfl] at hn
  omega

theorem csum_folder_ne {csum : BitVec 32} (h : csum ≠ 0) : csum_folder_helper csum ≠ 0xffff := by
  intro he
  have hn := congrArg BitVec.toNat he
  have hc := csum.isLt
  have hpos : csum.toNat ≠ 0 := fun h0 => h (BitVec.eq_of_toNat_eq h0)
  rw [csum_folder_toNat, show (0xffff : BitVec 16).toNat = 65535 from rfl] at hn
  omega

/-- The running checksum `csum` accounts for the numbers at `l`. -/
structure Accounts (d : BitVec 32) (l : List Nat) (m : Mem) (csum : BitVec 32) : Prop where
  ne : csum ≠ 0
  sum : (csum.toNat : Residue) = 256 * growth d m l - (cksum m).toNat

theorem accounts_start (d : BitVec 32) (m : Mem) :
    Accounts d [] m (~~~((cksum m).setWidth 32)) where
  ne := csum_start_ne _
  sum := by
    rw [residue_csum_start, growth, List.map_nil, List.sum_nil]
    ring

/-- One more number. -/
theorem Accounts.word (hK : K.Sums) (hz : K.Nonzero) {csum : BitVec 32} (h : Accounts d l m csum)
    {o : Nat} {v : BitVec 32} (hv : ntohl v = ntohl (m.ld32 o) + d) :
    Accounts d (l ++ [o]) m (K.bpf_csum_diff (m.ld32 o) v csum) where
  ne := hz _ _ _ h.ne
  sum := by
    have swap (w : BitVec 32) : (w.toNat : Residue) = 256 * (ntohl w).toNat := by
      rw [← Mem.residue_bswap32, bswap32_bswap32]
    rw [residue_csum_diff hK, h.sum, swap v, swap (m.ld32 o), hv, growth, growth, List.map_append,
      List.sum_append, List.map_singleton, List.sum_singleton, change]
    push_cast
    ring

/-- What the common exit makes of memory with the numbers at `l` grown. -/
theorem Accounts.edited {csum : BitVec 32} (h : Accounts d l m csum)
    (hl : ∀ o ∈ l, o + 4 ≤ 50 ∨ 52 ≤ o) (hm : ∀ o ∈ l, ntohl (m'.ld32 o) = ntohl (m.ld32 o) + d)
    (hr : ∀ i, (∀ o ∈ l, i < o ∨ o + 4 ≤ i) → m' i = m i) :
    Edited d l m (m'.st16 50 (csum_folder_helper csum)) where
  numbers o ho := by
    have := hl o ho
    rw [Mem.ld32_st16_ne _ (by omega), hm o ho]
  check_ne := by
    rw [cksum, Mem.ld16_st16]
    exact csum_folder_ne h.ne
  check := by
    rw [cksum, Mem.ld16_st16, residue_csum_folder, h.sum]
    ring
  rest i hi h₅₀ h₅₁ := by rw [Mem.st16_outside _ (by omega), hr i hi]

/-- One number replaced, and the checksum folded. -/
theorem edited_word (hK : K.Sums) (hz : K.Nonzero) {o : Nat} (ho : o + 4 ≤ 50) {v : BitVec 32}
    (hv : ntohl v = ntohl (m.ld32 o) + d) :
    Edited d [o] m ((m.st32 o v).st16 50 (csum_folder_helper
      (K.bpf_csum_diff (m.ld32 o) v (~~~((cksum m).setWidth 32))))) := by
  refine ((accounts_start d m).word hK hz hv).edited ?_ ?_ ?_
  · rintro p hp
    obtain rfl := List.mem_singleton.mp hp
    exact .inl ho
  · rintro p hp
    obtain rfl := List.mem_singleton.mp hp
    rw [Mem.ld32_st32, hv]
  · exact fun i hi => Mem.st32_outside _ (hi o (List.mem_singleton.mpr rfl))

/-! ### Ingress -/

/-- Where the edges of the first `n` blocks stand, behind `k` NOPs. -/
def edges (k n : Nat) : List Nat := (List.range (2 * n)).map fun j => 56 + k + 4 * j

theorem edges_succ (k n : Nat) :
    edges k (n + 1) = edges k n ++ [56 + k + 8 * n] ++ [56 + k + 8 * n + 4] := by
  have h₁ : 56 + k + 4 * (2 * n) = 56 + k + 8 * n := by omega
  have h₂ : 56 + k + 4 * (2 * n + 1) = 56 + k + 8 * n + 4 := by omega
  rw [edges, Nat.mul_succ, List.range_succ, List.range_succ, List.map_append, List.map_append,
    List.map_singleton, List.map_singleton, h₁, h₂]
  rfl

/-- What ingress does to a segment that it neither drops nor leaves alone. -/
inductive IngressEdit (maps : Maps) (f : Frame) : BitVec 32 → List Nat → Prop where
  /-- The acknowledgement number of a new SYN becomes 0. -/
  | syn (hk : maps.flow_map (ingressKey f.data) = none) (hs : syn f.data = true) :
      IngressEdit maps f (-ackNo f.data) [42]
  | ack {d : BitVec 32} (hk : maps.flow_map (ingressKey f.data) = some d) (hn : NoSack f) :
      IngressEdit maps f d [42]
  | sack {d : BitVec 32} {k n : Nat} (hk : maps.flow_map (ingressKey f.data) = some d)
      (hs : SackFits f k n) : IngressEdit maps f d (42 :: edges k n)

theorem IngressEdit.aligned (h : IngressEdit maps f d l) : Aligned l := by
  have one : Aligned [42] := by
    constructor <;> simp
  cases h with
  | syn => exact one
  | ack => exact one
  | sack =>
      constructor
      · intro o ho
        rcases List.mem_cons.mp ho with rfl | ho
        · exact .inl (by omega)
        · obtain ⟨j, -, rfl⟩ := List.mem_map.mp ho
          exact .inr (by omega)
      · intro o ho
        refine ⟨42, List.mem_cons_self, ?_, rfl⟩
        rcases List.mem_cons.mp ho with rfl | ho
        · exact le_refl 42
        · obtain ⟨j, -, rfl⟩ := List.mem_map.mp ho
          omega

/-- The running checksum behind `n` blocks. -/
theorem accounts_blocks (hK : K.Sums) (hz : K.Nonzero) (d : BitVec 32) (f : Frame) (k n : Nat) :
    Accounts d (42 :: edges k n) f.data ((sack_pair K d)^[n] (sack_start K d f k)).csum := by
  induction n with
  | zero => exact (accounts_start d f.data).word hK hz (bswap32_bswap32 _)
  | succ n ih =>
      rw [Function.iterate_succ_apply', edges_succ]
      generalize hs : (sack_pair K d)^[n] (sack_start K d f k) = s at ih
      have hat : s.sack = 56 + k + 8 * n := by
        rw [← hs, iterate_sack]
        rfl
      -- the bytes behind the blocks moved so far are those of the frame
      have old : ∀ i, 56 + k + 8 * n ≤ i → s.data i = f.data i := fun i hi => by
        rw [← hs, (iterate_shifted n (sack_start K d f k)).rest i
          (.inr (show 56 + k + 4 * (2 * n) ≤ i by omega))]
        exact acked_rest (.inr (by omega))
      have hw₁ : s.data.ld32 s.sack = f.data.ld32 (56 + k + 8 * n) := by
        rw [hat]
        exact Mem.ld32_congr fun i hi _ => old i hi
      have hw₂ : (sack_word K d s).data.ld32 (sack_word K d s).sack =
          f.data.ld32 (56 + k + 8 * n + 4) := by
        rw [show (sack_word K d s).sack = 56 + k + 8 * n + 4 by rw [← hat]; rfl]
        refine Mem.ld32_congr fun i hi _ => ?_
        rw [(sack_word_shifted s).rest i (.inr (by omega)), old i (by omega)]
      have h₁ := ih.word hK hz (o := 56 + k + 8 * n) (bswap32_bswap32 _)
      have h₂ := h₁.word hK hz (o := 56 + k + 8 * n + 4) (bswap32_bswap32 _)
      rw [← hw₁, ← hw₂] at h₂
      exact h₂

/-- The memory behind `n` moved blocks. -/
theorem blocks_numbers {k n : Nat} {data : Mem} (h : Shifted d (56 + k) (2 * n) (acked d f) data) :
    (∀ o ∈ 42 :: edges k n, ntohl (data.ld32 o) = ntohl (f.data.ld32 o) + d) ∧
    ∀ i, (∀ o ∈ 42 :: edges k n, i < o ∨ o + 4 ≤ i) → data i = f.data i := by
  constructor
  · intro o ho
    rcases List.mem_cons.mp ho with rfl | ho
    · rw [Mem.ld32_congr fun i _ _ => h.rest i (.inl (by omega)), acked, Mem.ld32_st32]
      exact bswap32_bswap32 _
    · obtain ⟨j, hj, rfl⟩ := List.mem_map.mp ho
      rw [h.words j (List.mem_range.mp hj), Mem.ld32_congr fun i _ _ => acked_rest (by omega)]
  · intro i hi
    have h42 := hi 42 List.mem_cons_self
    have hout : i < 56 + k ∨ 56 + k + 4 * (2 * n) ≤ i := by
      by_contra hin
      have hj : (i - (56 + k)) / 4 < 2 * n := by omega
      have := hi (56 + k + 4 * ((i - (56 + k)) / 4))
        (List.mem_cons_of_mem _ (List.mem_map.mpr ⟨_, List.mem_range.mpr hj, rfl⟩))
      omega
    rw [h.rest i hout, acked_rest h42]

/-- **What ingress does to a segment** is an edit. -/
theorem IngressEdit.edited (hK : K.Sums) (hz : K.Nonzero) (hs : f.Segment)
    (h : IngressEdit maps f d l) : (ingress_xdp_prog K maps f).action = .XDP_PASS ∧
      Edited d l f.data (ingress_xdp_prog K maps f).frame.data := by
  cases h with
  | syn hk hsyn =>
      rw [ingress_segment K hs]
      simp only [ingress_tcp, hk, hsyn, ingress_out, Bool.not_true, Bool.false_eq_true, if_false]
      exact ⟨trivial, edited_word hK hz (by omega) (BitVec.add_right_neg _).symm⟩
  | ack hk hn =>
      rw [ingress_no_sack K hs hk hn]
      exact ⟨rfl, edited_word hK hz (by omega) (bswap32_bswap32 _)⟩
  | @sack d k n hk hfit =>
      obtain ⟨numbers, rest⟩ := blocks_numbers (iterate_shifted (K := K) n (sack_start K d f k))
      rw [(ingress_sack K hs hk hfit.at_nops).1 n hfit]
      exact ⟨rfl, (accounts_blocks hK hz d f k n).edited
        (IngressEdit.sack hk hfit).aligned.apart numbers rest⟩

/-- A segment that passes without an edit is left alone. -/
theorem ingress_edit_or (K : Helpers) (hs : f.Segment)
    (hp : (ingress_xdp_prog K maps f).action = .XDP_PASS) :
    (∃ d l, IngressEdit maps f d l) ∨ (ingress_xdp_prog K maps f).frame = f := by
  cases hk : maps.flow_map (ingressKey f.data) with
  | none =>
      cases hsyn : syn f.data with
      | false =>
          rw [ingress_quiet K hs hk hsyn]
          exact .inr rfl
      | true => exact .inl ⟨_, _, .syn hk hsyn⟩
  | some d =>
      rcases ingress_known_passed K hs hk hp with ⟨hn, -⟩ | ⟨k, n, hfit, -⟩
      · exact .inl ⟨d, [42], .ack hk hn⟩
      · exact .inl ⟨d, _, .sack hk hfit⟩

/-! ### Egress -/

/-- What egress does to a segment that it does not leave alone. -/
inductive EgressEdit (maps : Maps) (f : Frame) : BitVec 32 → List Nat → Prop where
  | seq {d : BitVec 32} (hk : maps.flow_map (egressKey f.data) = some d) :
      EgressEdit maps f (-d) [38]
  /-- The SYN-ACK of a recorded SYN has its checksum folded and nothing replaced. -/
  | synAck {a : BitVec 32} (hk : maps.flow_map (egressKey f.data) = none)
      (hs : syn f.data = true) (ha : ack f.data = true)
      (hq : maps.seq_map (egressKey f.data) = some a) : EgressEdit maps f 0 []

theorem EgressEdit.aligned (h : EgressEdit maps f d l) : Aligned l := by
  cases h <;> constructor <;> simp

/-- **What egress does to a segment** is an edit. -/
theorem EgressEdit.edited (hK : K.Sums) (hz : K.Nonzero) (hs : f.Segment)
    (h : EgressEdit maps f d l) : Edited d l f.data (egress_tc_prog K maps f).frame.data := by
  rw [egress_segment K hs]
  cases h with
  | @seq d hk =>
      simp only [egress_tcp, hk]
      refine edited_word hK hz (by omega) ?_
      rw [← BitVec.sub_eq_add_neg]
      exact bswap32_bswap32 _
  | synAck hk hsyn hack hq =>
      simp only [egress_tcp, hk, hsyn, hack, hq]
      exact (accounts_start 0 f.data).edited (by simp) (by simp) fun _ _ => rfl

/-- A segment that leaves without an edit is left alone. -/
theorem egress_edit_or (K : Helpers) (hs : f.Segment) :
    (∃ d l, EgressEdit maps f d l) ∨ (egress_tc_prog K maps f).frame = f := by
  cases hk : maps.flow_map (egressKey f.data) with
  | some d => exact .inl ⟨-d, [38], .seq hk⟩
  | none =>
      cases hsa : syn f.data && ack f.data with
      | false =>
          rw [egress_quiet K hs hk (.inl hsa)]
          exact .inr rfl
      | true =>
          rw [Bool.and_eq_true] at hsa
          cases hq : maps.seq_map (egressKey f.data) with
          | none =>
              rw [egress_quiet K hs hk (.inr hq)]
              exact .inr rfl
          | some a => exact .inl ⟨0, [], .synAck hk hsa.1 hsa.2 hq⟩

/-! ### The footprint -/

theorem InHeader.refl (f : Frame) : InHeader f f :=
  ⟨fun _ h => absurd rfl h, fun _ _ => rfl⟩

/-- **The footprint.**  For every frame that is IPv4 and TCP, all maps and each program: what the
program changes in the frame, if it passes it, lies inside the TCP header that the IPv4 header length
and the data offset describe, and is nothing in a later fragment, exactly when the frame is too short
to be looked into or the header covers the program's edit, if there is one. -/
theorem headerOnly_iff (hK : K.Sums) (hz : K.Nonzero) (ht : isTcp f.data) :
    (((ingress_xdp_prog K maps f).action = .XDP_PASS →
        InHeader f (ingress_xdp_prog K maps f).frame) ↔
      (54 ≤ f.data_end → ∀ d l, IngressEdit maps f d l → Covered d l f)) ∧
    (((egress_tc_prog K maps f).action = .TC_ACT_OK →
        InHeader f (egress_tc_prog K maps f).frame) ↔
      (54 ≤ f.data_end → ∀ d l, EgressEdit maps f d l → Covered d l f)) := by
  refine ⟨⟨fun h hlen d l he => ?_, fun h hp => ?_⟩, ⟨fun h hlen d l he => ?_, fun h hp => ?_⟩⟩
  · obtain ⟨hp, hed⟩ := he.edited hK hz ⟨ht, hlen⟩
    exact (hed.inHeader_iff he.aligned).mp (h hp)
  · have hs := ingress_passed K ht hp
    rcases ingress_edit_or K hs hp with ⟨d, l, he⟩ | hf
    · exact ((he.edited hK hz hs).2.inHeader_iff he.aligned).mpr (h hs.2 d l he)
    · rw [hf]
      exact .refl f
  · have hs : f.Segment := ⟨ht, hlen⟩
    exact ((he.edited hK hz hs).inHeader_iff he.aligned).mp (h (egress_frame K maps hs).1)
  · have hs := egress_passed K ht hp
    have hor : (∃ d l, EgressEdit maps f d l) ∨ (egress_tc_prog K maps f).frame = f :=
      egress_edit_or K hs
    rcases hor with ⟨d, l, he⟩ | hf
    · exact ((he.edited hK hz hs).inHeader_iff he.aligned).mpr (h hs.2 d l he)
    · rw [hf]
      exact .refl f

theorem headerOnly_checkedReply :
    (egress_tc_prog .kernel sackMaps checkedReply).action = .TC_ACT_OK ∧
    InHeader checkedReply (egress_tc_prog .kernel sackMaps checkedReply).frame := by
  have hp : (egress_tc_prog .kernel sackMaps checkedReply).action = .TC_ACT_OK := by decide +kernel
  refine ⟨hp, (headerOnly_iff kernel_sums kernel_nonzero (by decide +kernel)).2.mpr
    (fun _ d l he => ?_) hp⟩
  have hfirst : frag_offset checkedReply.data = 0 ∧ tcp_at checkedReply.data = 34 ∧
      tcp_end checkedReply.data = 54 := by decide +kernel
  obtain ⟨hfrag, hat, hend⟩ := hfirst
  refine ⟨fun o ho => .inr ⟨hfrag, ?_⟩, .inl ⟨hfrag, by omega, by omega⟩⟩
  cases he with
  | seq =>
      obtain rfl := List.mem_singleton.mp ho
      rw [hat, hend]
      exact ⟨by omega, one_dvd _⟩
  | synAck => cases ho

/-- A later fragment to 192.168.0.2:40000, as the first bytes of its data read. -/
def laterFragment : Frame :=
  let h := headers (0x0A000102, 8080) (0xC0A80002, 40000) 70001 1000 TCP_ACK_FLAG 40
  .ofBytes (h.take 20 ++ be16 1 ++ h.drop 22)

/-- Egress takes the data of the fragment for a TCP header and changes it, if the maps hold an offset
for its key. -/
theorem laterFragment_changed : isTcp laterFragment.data ∧ frag_offset laterFragment.data = 1 ∧
    (egress_tc_prog .kernel sackMaps laterFragment).action = .TC_ACT_OK ∧
    (egress_tc_prog .kernel sackMaps laterFragment).frame.data 41 ≠ laterFragment.data 41 ∧
    ¬ InHeader laterFragment (egress_tc_prog .kernel sackMaps laterFragment).frame := by
  have hc : (egress_tc_prog .kernel sackMaps laterFragment).frame.data 41 ≠
      laterFragment.data 41 := by decide +kernel
  refine ⟨by decide +kernel, by decide +kernel, by decide +kernel, hc, fun h => ?_⟩
  exact hc (h.fragment (by decide +kernel) 41)

end Miresga.Backend
