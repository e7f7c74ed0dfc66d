import Miresga.Backend.Spec

/-!
# Backend — acknowledgements and SACK blocks

The SACK option is looked for behind at most two NOPs; its blocks are rewritten by four copies of
the same statements.  `sack_blocks_iff` says when the copies get to the end and with what: the
option has length `2 + 8 * n` with `n ≤ 4` and lies within the frame, and `n` blocks were moved.
From this, `ack_sack_exact` says for every segment of a key with an offset what becomes of every
byte.
-/

namespace Miresga.Backend

variable {K : Helpers} {d : BitVec 32} {data_end : Nat}

/-! ### The four copies -/

/-- One block moved: both edges, and the length that is left. -/
def sack_pair (K : Helpers) (d : BitVec 32) (s : Sack) : Sack :=
  { sack_word K d (sack_word K d s) with len := s.len - 8 }

theorem sack_block_eq (s : Sack) : sack_block K d data_end s =
    if 10 ≤ s.len then if data_end < s.sack + 8 then none else some (sack_pair K d s)
    else some s := rfl

/-- The first `r` copies. -/
def sack_chain (K : Helpers) (d : BitVec 32) (data_end : Nat) : Nat → Sack → Option Sack
  | 0, s => some s
  | r + 1, s => (sack_block K d data_end s).bind (sack_chain K d data_end r)

theorem sack_blocks_eq (s : Sack) : sack_blocks K d data_end s =
    match sack_chain K d data_end 4 s with
    | none => none
    | some s => if s.len ≠ 2 then none else some s := by
  have hc : (sack_block K d data_end s >>= sack_block K d data_end >>= sack_block K d data_end >>=
      sack_block K d data_end) = sack_chain K d data_end 4 s := by
    simp only [sack_chain, Option.bind_eq_bind, Option.bind_assoc, Option.bind_fun_some]
  rw [← hc]
  exact rfl

/-- The copies end at length 2 exactly when the length allows as many blocks as they move. -/
theorem sack_chain_iff {r : Nat} {s t : Sack} (hs : s.sack ≤ data_end) :
    (sack_chain K d data_end r s = some t ∧ t.len = 2) ↔
      ∃ n, n ≤ r ∧ s.len.toNat = 2 + 8 * n ∧ s.sack + 8 * n ≤ data_end ∧
        t = (sack_pair K d)^[n] s := by
  induction r generalizing s with
  | zero =>
      constructor
      · rintro ⟨h, hl⟩
        obtain rfl := Option.some.inj h
        exact ⟨0, le_refl _, by rw [hl]; rfl, hs, rfl⟩
      · rintro ⟨n, hn, hl, -, rfl⟩
        obtain rfl : n = 0 := by omega
        exact ⟨rfl, BitVec.eq_of_toNat_eq hl⟩
  | succ r ih =>
      have h10 : (10 ≤ s.len) ↔ 10 ≤ s.len.toNat := Iff.rfl
      rw [sack_chain, sack_block_eq]
      by_cases hl : 10 ≤ s.len
      · rw [if_pos hl]
        rw [h10] at hl
        by_cases he : data_end < s.sack + 8
        · rw [if_pos he]
          -- a block is announced that the frame does not hold
          refine iff_of_false (by simp) ?_
          rintro ⟨n, -, hn, hle, -⟩
          omega
        · rw [if_neg he, Option.bind_some, ih (show s.sack + 4 + 4 ≤ data_end by omega)]
          have hlen : (sack_pair K d s).len.toNat = s.len.toNat - 8 :=
            BitVec.toNat_sub_of_le (show (8 : Byte).toNat ≤ s.len.toNat from
              le_trans (by decide) hl)
          have hsack : (sack_pair K d s).sack = s.sack + 8 := rfl
          rw [hlen, hsack]
          constructor
          · rintro ⟨n, hn, hl', hle, rfl⟩
            exact ⟨n + 1, by omega, by omega, by omega, rfl⟩
          · rintro ⟨n, hn, hl', hle, rfl⟩
            obtain ⟨n, rfl⟩ : ∃ k, n = k + 1 := ⟨n - 1, by omega⟩
            exact ⟨n, by omega, by omega, by omega, rfl⟩
      · -- this copy, and with it every later one, does nothing
        rw [if_neg hl, Option.bind_some, ih hs]
        rw [h10] at hl
        constructor
        · rintro ⟨n, hn, hrest⟩
          exact ⟨n, by omega, hrest⟩
        · rintro ⟨n, hn, hl', hrest⟩
          exact ⟨n, by omega, hl', hrest⟩

/-- **The SACK rewrite** gets to the end exactly for an option of length `2 + 8 * n`, `n ≤ 4`, that
lies within the frame, and has moved `n` blocks then. -/
theorem sack_blocks_iff {s t : Sack} (hs : s.sack ≤ data_end) :
    sack_blocks K d data_end s = some t ↔
      ∃ n, n ≤ 4 ∧ s.len.toNat = 2 + 8 * n ∧ s.sack + 8 * n ≤ data_end ∧
        t = (sack_pair K d)^[n] s := by
  rw [sack_blocks_eq, ← sack_chain_iff hs]
  cases sack_chain K d data_end 4 s with
  | none => simp
  | some u =>
      by_cases hu : u.len = 2
      · simp only [hu, ne_eq, not_true_eq_false, if_false]
        exact ⟨fun h => ⟨h, Option.some.inj h ▸ hu⟩, fun h => h.1⟩
      · simp only [ne_eq, hu, not_false_eq_true, if_true]
        exact iff_of_false (by simp) fun h => hu (Option.some.inj h.1 ▸ h.2)

/-! ### What moving does to the bytes -/

/-- The `n` words from `o` on, as numbers on the wire, have grown by `d`; nothing else changed. -/
structure Shifted (d : BitVec 32) (o n : Nat) (m m' : Mem) : Prop where
  words : ∀ j, j < n → ntohl (m'.ld32 (o + 4 * j)) = ntohl (m.ld32 (o + 4 * j)) + d
  rest : ∀ i, i < o ∨ o + 4 * n ≤ i → m' i = m i

theorem Shifted.refl (d : BitVec 32) (o : Nat) (m : Mem) : Shifted d o 0 m m :=
  ⟨fun j hj => absurd hj (Nat.not_lt_zero j), fun _ _ => rfl⟩

theorem Shifted.trans {o n k : Nat} {m m' m'' : Mem} (h₁ : Shifted d o n m m')
    (h₂ : Shifted d (o + 4 * n) k m' m'') : Shifted d o (n + k) m m'' where
  words j hj := by
    by_cases hn : j < n
    · rw [← h₁.words j hn]
      exact congrArg ntohl (Mem.ld32_congr fun i _ _ => h₂.rest i (.inl (by omega)))
    · obtain ⟨j, rfl⟩ := Nat.exists_eq_add_of_le (Nat.le_of_not_lt hn)
      rw [Nat.mul_add, ← Nat.add_assoc, h₂.words j (by omega)]
      exact congrArg (ntohl · + d) (Mem.ld32_congr fun i _ _ => h₁.rest i (.inr (by omega)))
  rest i hi := by
    rw [h₂.rest i (by omega), h₁.rest i (by omega)]

theorem sack_word_shifted (s : Sack) : Shifted d s.sack 1 s.data (sack_word K d s).data where
  words j hj := by
    obtain rfl : j = 0 := by omega
    simp only [sack_word, Nat.mul_zero, Nat.add_zero, Mem.ld32_st32, bswap32_bswap32]
  rest i hi := Mem.st32_outside _ (by omega)

theorem sack_pair_shifted (s : Sack) : Shifted d s.sack 2 s.data (sack_pair K d s).data := by
  have h₁ := sack_word_shifted (K := K) (d := d) s
  have h₂ := sack_word_shifted (K := K) (d := d) (sack_word K d s)
  exact h₁.trans h₂

theorem iterate_sack (n : Nat) (s : Sack) : ((sack_pair K d)^[n] s).sack = s.sack + 8 * n := by
  induction n generalizing s with
  | zero => rfl
  | succ n ih =>
      rw [Function.iterate_succ_apply, ih]
      show s.sack + 4 + 4 + 8 * n = _
      omega

theorem iterate_shifted (n : Nat) (s : Sack) :
    Shifted d s.sack (2 * n) s.data ((sack_pair K d)^[n] s).data := by
  induction n with
  | zero => exact .refl d _ _
  | succ n ih =>
      rw [Function.iterate_succ_apply']
      have hp := sack_pair_shifted (K := K) (d := d) ((sack_pair K d)^[n] s)
      rw [iterate_sack] at hp
      refine ih.trans (k := 2) ?_
      rwa [show s.sack + 4 * (2 * n) = s.sack + 8 * n by omega]

/-! ### The option chain -/

/-- `k` NOPs, two at most, stand behind the fixed TCP header. -/
def Nops (m : Mem) (k : Nat) : Prop := k ≤ 2 ∧ ∀ i, i < k → m (54 + i) = 1

/-- Options follow, and behind `k` NOPs there is no SACK option, but another one or a third NOP. -/
structure OtherAt (m : Mem) (k : Nat) : Prop where
  doff : 5 < doff m
  nops : Nops m k
  kind : m (54 + k) ≠ 5 ∧ (k < 2 → m (54 + k) ≠ 1)

/-- Options follow, and behind `k` NOPs there is a SACK option. -/
structure SackAt (m : Mem) (k : Nat) : Prop where
  doff : 5 < doff m
  nops : Nops m k
  kind : m (54 + k) = 5

theorem options_cases (m : Mem) : doff m ≤ 5 ∨ ∃ k, SackAt m k ∨ OtherAt m k := by
  by_cases hd : 5 < doff m
  · right
    by_cases h54 : m 54 = 1
    · by_cases h55 : m 55 = 1
      · have hn : Nops m 2 := by
          refine ⟨le_refl 2, fun i hi => ?_⟩
          obtain rfl | rfl : i = 0 ∨ i = 1 := by omega
          · exact h54
          · exact h55
        by_cases h56 : m 56 = 5
        · exact ⟨2, .inl ⟨hd, hn, h56⟩⟩
        · exact ⟨2, .inr ⟨hd, hn, h56, fun h => absurd h (by omega)⟩⟩
      · have hn : Nops m 1 := by
          refine ⟨by omega, fun i hi => ?_⟩
          obtain rfl : i = 0 := by omega
          exact h54
        by_cases h5 : m 55 = 5
        · exact ⟨1, .inl ⟨hd, hn, h5⟩⟩
        · exact ⟨1, .inr ⟨hd, hn, h5, fun _ => h55⟩⟩
    · have hn : Nops m 0 := ⟨by omega, fun i hi => absurd hi (by omega)⟩
      by_cases h5 : m 54 = 5
      · exact ⟨0, .inl ⟨hd, hn, h5⟩⟩
      · exact ⟨0, .inr ⟨hd, hn, h5, fun _ => h54⟩⟩
  · exact .inl (by omega)

section chain

variable {m : Mem} {opt k : Nat} {nop : Jump}

theorem option_link_nop (hm : m opt = 1) :
    option_link m data_end opt nop = if data_end < opt + 1 then .drop else nop := by
  unfold option_link
  rw [if_pos hm]

theorem option_link_five (hm : m opt = 5) :
    option_link m data_end opt nop = if data_end < opt + 1 then .drop else .sack_out opt := by
  unfold option_link
  rw [hm, if_neg (show ¬ (5 : Byte) = 1 by decide), if_neg (show ¬ (5 : Byte) ≠ 5 by decide)]

theorem option_link_other (h₁ : m opt ≠ 1) (h₅ : m opt ≠ 5) :
    option_link m data_end opt nop = if data_end < opt + 1 then .drop else .out := by
  unfold option_link
  rw [if_neg h₁, if_pos h₅]

/-- The chain finds a SACK option behind the NOPs, if the bytes up to it are there. -/
theorem SackAt.chain (h : SackAt m k) :
    option_chain m data_end = if data_end < 55 + k then .drop else .sack_out (54 + k) := by
  obtain ⟨hd, ⟨hk, hnop⟩, hs⟩ := h
  unfold option_chain
  rw [if_pos hd]
  rcases (by omega : k = 0 ∨ k = 1 ∨ k = 2) with rfl | rfl | rfl
  · exact option_link_five hs
  · rw [option_link_nop (hnop 0 (by omega)), option_link_five hs]
    split_ifs <;> first | rfl | omega
  · rw [option_link_nop (hnop 0 (by omega)), option_link_nop (hnop 1 (by omega)),
      if_neg (not_not.mpr hs)]
    split_ifs <;> first | rfl | omega

/-- The chain ends at any other option, if the bytes up to it are there. -/
theorem OtherAt.chain (h : OtherAt m k) :
    option_chain m data_end = if data_end < 55 + k then .drop else .out := by
  obtain ⟨hd, ⟨hk, hnop⟩, h₅, h₁⟩ := h
  unfold option_chain
  rw [if_pos hd]
  rcases (by omega : k = 0 ∨ k = 1 ∨ k = 2) with rfl | rfl | rfl
  · exact option_link_other (h₁ (by omega)) h₅
  · rw [option_link_nop (hnop 0 (by omega)), option_link_other (h₁ (by omega)) h₅]
    split_ifs <;> first | rfl | omega
  · rw [option_link_nop (hnop 0 (by omega)), option_link_nop (hnop 1 (by omega)), if_pos h₅]
    split_ifs <;> first | rfl | omega

theorem option_chain_short (h : doff m ≤ 5) : option_chain m data_end = .out :=
  if_neg (by omega)

/-- The chain looks at the data offset and at what stands behind the fixed header. -/
theorem option_chain_congr {m' : Mem} (h : ∀ i, 46 ≤ i → m i = m' i) :
    option_chain m data_end = option_chain m' data_end := by
  unfold option_chain option_link doff data_off
  rw [h 46 (by omega), h 54 (by omega), h 55 (by omega), h 56 (by omega)]

end chain

/-! ### Ingress with an offset -/

variable {maps : Maps} {f : Frame}

/-- The frame with its acknowledgement number moved, as the option chain sees it. -/
def acked (d : BitVec 32) (f : Frame) : Mem := f.data.st32 42 (htonl (ntohl (recv_ack f.data) + d))

/-- The running checksum behind that. -/
def acked_csum (K : Helpers) (d : BitVec 32) (f : Frame) : BitVec 32 :=
  K.bpf_csum_diff (recv_ack f.data) (htonl (ntohl (recv_ack f.data) + d))
    (~~~((cksum f.data).setWidth 32))

/-- What the SACK rewrite starts from, for an option at `54 + k`. -/
def sack_start (K : Helpers) (d : BitVec 32) (f : Frame) (k : Nat) : Sack :=
  ⟨acked d f, acked_csum K d f, 56 + k, f.data (55 + k)⟩

theorem acked_rest {i : Nat} (hi : i < 42 ∨ 46 ≤ i) : acked d f i = f.data i :=
  Mem.st32_outside _ (by omega)

/-- No SACK option stands where it is looked for, and the bytes looked at lie within the frame. -/
def NoSack (f : Frame) : Prop := doff f.data ≤ 5 ∨ ∃ k, OtherAt f.data k ∧ 54 + k < f.data_end

/-- Behind `k` NOPs stands a SACK option of `n` blocks, four at most, within the frame. -/
structure SackFits (f : Frame) (k n : Nat) : Prop where
  at_nops : SackAt f.data k
  blocks : n ≤ 4
  len : (f.data (55 + k)).toNat = 2 + 8 * n
  fits : 56 + k + 8 * n ≤ f.data_end

theorem chain_acked : option_chain (acked d f) f.data_end = option_chain f.data f.data_end :=
  option_chain_congr fun _ hi => acked_rest (.inr hi)

/-- **The end of the chain decides** about a segment of a key with an offset.  The chain never comes
to the cleanup behind it. -/
theorem ingress_chained (K : Helpers) (h : f.Segment)
    (hk : maps.flow_map (ingressKey f.data) = some d) :
    ingress_xdp_prog K maps f =
      match option_chain f.data f.data_end with
      | .drop => ⟨.XDP_DROP, { f with data := acked d f }, maps⟩
      | .sack_out opt =>
        if f.data_end < opt + 2 then ⟨.XDP_DROP, { f with data := acked d f }, maps⟩
        else
          match sack_blocks K d f.data_end
              ⟨acked d f, acked_csum K d f, opt + 2, acked d f (opt + 1)⟩ with
          | none => ⟨.XDP_DROP, { f with data := acked d f }, maps⟩
          | some s => ingress_out f s.data s.csum maps
      | _ => ingress_out f (acked d f) (acked_csum K d f) maps := by
  rw [ingress_segment K h, ← chain_acked (d := d)]
  unfold ingress_tcp
  simp only [hk]
  rw [show f.data.st32 42 _ = acked d f from rfl]
  cases hc : option_chain (acked d f) f.data_end with
  | next => exact absurd hc (option_chain_ne_next _ _)
  | _ => rfl

/-- A segment without SACK option goes to the common exit. -/
theorem ingress_no_sack (K : Helpers) (h : f.Segment)
    (hk : maps.flow_map (ingressKey f.data) = some d) (hn : NoSack f) :
    ingress_xdp_prog K maps f = ingress_out f (acked d f) (acked_csum K d f) maps := by
  have hc : option_chain f.data f.data_end = .out := by
    rcases hn with hd | ⟨k, ho, he⟩
    · exact option_chain_short hd
    · rw [ho.chain, if_neg (by omega)]
  rw [ingress_chained K h hk, hc]

theorem sack_start_eq (K : Helpers) (d : BitVec 32) (f : Frame) (k : Nat) :
    (⟨acked d f, acked_csum K d f, 54 + k + 2, acked d f (54 + k + 1)⟩ : Sack) =
      sack_start K d f k := by
  have h₁ : 54 + k + 1 = 55 + k := by omega
  have h₂ : 54 + k + 2 = 56 + k := by omega
  rw [sack_start, h₁, h₂, acked_rest (.inr (by omega))]

/-- A segment with a SACK option whose first two bytes are there. -/
theorem ingress_sack_eq (K : Helpers) (h : f.Segment)
    (hk : maps.flow_map (ingressKey f.data) = some d) {k : Nat} (hs : SackAt f.data k)
    (he : 56 + k ≤ f.data_end) :
    ingress_xdp_prog K maps f =
      match sack_blocks K d f.data_end (sack_start K d f k) with
      | none => ⟨.XDP_DROP, { f with data := acked d f }, maps⟩
      | some s => ingress_out f s.data s.csum maps := by
  have hc : option_chain f.data f.data_end = .sack_out (54 + k) := by
    rw [hs.chain, if_neg (by omega)]
  rw [ingress_chained K h hk, hc, ← sack_start_eq]
  dsimp only
  rw [if_neg (by omega)]

/-- A segment with a SACK option whose first two bytes are not both there. -/
theorem ingress_sack_short (K : Helpers) (h : f.Segment)
    (hk : maps.flow_map (ingressKey f.data) = some d) {k : Nat} (hs : SackAt f.data k)
    (he : f.data_end < 56 + k) : (ingress_xdp_prog K maps f).action = .XDP_DROP := by
  rw [ingress_chained K h hk, hs.chain]
  by_cases h55 : f.data_end < 55 + k
  · rw [if_pos h55]
  · rw [if_neg h55]
    dsimp only
    rw [if_pos (by omega)]

/-- **A segment with a SACK option** passes exactly when the option fits, with its blocks moved. -/
theorem ingress_sack (K : Helpers) (h : f.Segment)
    (hk : maps.flow_map (ingressKey f.data) = some d) {k : Nat} (hs : SackAt f.data k) :
    (∀ n, SackFits f k n → ingress_xdp_prog K maps f =
      ingress_out f ((sack_pair K d)^[n] (sack_start K d f k)).data
        ((sack_pair K d)^[n] (sack_start K d f k)).csum maps) ∧
    ((∀ n, ¬ SackFits f k n) → (ingress_xdp_prog K maps f).action = .XDP_DROP) := by
  by_cases he : f.data_end < 56 + k
  · exact ⟨fun n hn => absurd hn.fits (by omega), fun _ => ingress_sack_short K h hk hs he⟩
  have hle : (sack_start K d f k).sack ≤ f.data_end := Nat.le_of_not_lt he
  rw [ingress_sack_eq K h hk hs hle]
  refine ⟨fun n hn => ?_, fun hbad => ?_⟩
  · rw [(sack_blocks_iff hle).mpr ⟨n, hn.blocks, hn.len, hn.fits, rfl⟩]
  · cases hb : sack_blocks K d f.data_end (sack_start K d f k) with
    | none => rfl
    | some t =>
        obtain ⟨n, h4, hl, hf, -⟩ := (sack_blocks_iff hle).mp hb
        exact absurd ⟨hs, h4, hl, hf⟩ (hbad n)

/-- A SACK option stands in one place at most, and no other option there. -/
theorem SackAt.unique {m : Mem} {k k' : Nat} (h : SackAt m k) (h' : SackAt m k') : k = k' := by
  rcases Nat.lt_trichotomy k k' with hlt | heq | hlt
  · exact absurd (h.kind.symm.trans (h'.nops.2 k hlt)) (by decide)
  · exact heq
  · exact absurd (h'.kind.symm.trans (h.nops.2 k' hlt)) (by decide)

theorem SackAt.not_other {m : Mem} {k k' : Nat} (h : SackAt m k) (h' : OtherAt m k') : False := by
  have hk := h.nops.1
  rcases Nat.lt_trichotomy k k' with hlt | rfl | hlt
  · exact absurd (h.kind.symm.trans (h'.nops.2 k hlt)) (by decide)
  · exact h'.kind.1 h.kind
  · exact h'.kind.2 (by omega) (h.nops.2 k' hlt)

theorem NoSack.not_fits {k n : Nat} (h : NoSack f) (hs : SackFits f k n) : False := by
  rcases h with hd | ⟨k', ho, -⟩
  · exact absurd hs.at_nops.doff (by omega)
  · exact hs.at_nops.not_other ho

theorem SackFits.unique {k n k' n' : Nat} (h : SackFits f k n) (h' : SackFits f k' n') :
    k = k' ∧ n = n' := by
  obtain rfl := h.at_nops.unique h'.at_nops
  have h₁ := h.len
  have h₂ := h'.len
  exact ⟨rfl, by omega⟩

/-- A segment with another option whose bytes are not all there. -/
theorem ingress_other_short (K : Helpers) (h : f.Segment)
    (hk : maps.flow_map (ingressKey f.data) = some d) {k : Nat} (ho : OtherAt f.data k)
    (he : f.data_end < 55 + k) : (ingress_xdp_prog K maps f).action = .XDP_DROP := by
  rw [ingress_chained K h hk, ho.chain, if_pos he]

/-- **A segment of a key with an offset that passes**: it has no SACK option where one is looked
for, or one that fits. -/
theorem ingress_known_passed (K : Helpers) (h : f.Segment)
    (hk : maps.flow_map (ingressKey f.data) = some d)
    (hp : (ingress_xdp_prog K maps f).action = .XDP_PASS) :
    (NoSack f ∧
      ingress_xdp_prog K maps f = ingress_out f (acked d f) (acked_csum K d f) maps) ∨
    ∃ k n, SackFits f k n ∧ ingress_xdp_prog K maps f =
      ingress_out f ((sack_pair K d)^[n] (sack_start K d f k)).data
        ((sack_pair K d)^[n] (sack_start K d f k)).csum maps := by
  have drop (hd : (ingress_xdp_prog K maps f).action = .XDP_DROP) : False := by
    rw [hd] at hp
    cases hp
  rcases options_cases f.data with hd | ⟨k, hs | ho⟩
  · exact .inl ⟨.inl hd, ingress_no_sack K h hk (.inl hd)⟩
  · obtain ⟨hfit, hbad⟩ := ingress_sack K h hk hs
    by_cases hex : ∃ n, SackFits f k n
    · obtain ⟨n, hn⟩ := hex
      exact .inr ⟨k, n, hn, hfit n hn⟩
    · exact (drop (hbad (not_exists.mp hex))).elim
  · by_cases he : f.data_end < 55 + k
    · exact (drop (ingress_other_short K h hk ho he)).elim
    · have hn : NoSack f := .inr ⟨k, ho, by omega⟩
      exact .inl ⟨hn, ingress_no_sack K h hk hn⟩

/-- The options are such that ingress passes the frame when its key has an offset. -/
def OptionsFit (f : Frame) : Prop := NoSack f ∨ ∃ k n, SackFits f k n

theorem ingress_passed_iff (K : Helpers) (h : f.Segment)
    (hk : maps.flow_map (ingressKey f.data) = some d) :
    (ingress_xdp_prog K maps f).action = .XDP_PASS ↔ OptionsFit f := by
  constructor
  · intro hp
    rcases ingress_known_passed K h hk hp with ⟨hn, -⟩ | ⟨k, n, hfit, -⟩
    · exact .inl hn
    · exact .inr ⟨k, n, hfit⟩
  · rintro (hn | ⟨k, n, hfit⟩)
    · rw [ingress_no_sack K h hk hn]
      rfl
    · rw [(ingress_sack K h hk hfit.at_nops).1 n hfit]
      rfl

/-! ### Byte by byte -/

/-- The frame has its acknowledgement number and the `2 * n` block edges behind the option at
`54 + k` moved by `d`, and its other bytes, the checksum apart, as they were. -/
structure AckSackMoved (d : BitVec 32) (k n : Nat) (f g : Frame) : Prop where
  data_end : g.data_end = f.data_end
  ack : ackNo g.data = ackNo f.data + d
  edges : ∀ j, j < 2 * n →
    ntohl (g.data.ld32 (56 + k + 4 * j)) = ntohl (f.data.ld32 (56 + k + 4 * j)) + d
  rest : ∀ i, (i < 42 ∨ 46 ≤ i) → i ≠ 50 → i ≠ 51 → (i < 56 + k ∨ 56 + k + 8 * n ≤ i) →
    g.data i = f.data i

/-- The common exit, behind `n` moved blocks. -/
theorem ingress_out_moved {k n : Nat} {data : Mem} {csum : BitVec 32}
    (h : Shifted d (56 + k) (2 * n) (acked d f) data) :
    AckSackMoved d k n f (ingress_out f data csum maps).frame where
  data_end := rfl
  ack := by
    have hd : ∀ i, i < 54 → data i = acked d f i := fun i hi => h.rest i (.inl (by omega))
    exact (ingress_out_known hd).1
  edges j hj := by
    have hd : ((ingress_out f data csum maps).frame.data).ld32 (56 + k + 4 * j) =
        data.ld32 (56 + k + 4 * j) := Mem.ld32_congr fun i _ _ => Mem.st16_outside _ (by omega)
    rw [hd, h.words j hj]
    exact congrArg (ntohl · + d) (Mem.ld32_congr fun i _ _ => acked_rest (by omega))
  rest i h₁ h₂ h₃ h₄ := calc
    (ingress_out f data csum maps).frame.data i = data i := Mem.st16_outside _ (by omega)
    _ = acked d f i := h.rest i (by omega)
    _ = f.data i := acked_rest h₁

/-- A segment with a SACK option that fits. -/
theorem ingress_sack_moved (K : Helpers) (h : f.Segment)
    (hk : maps.flow_map (ingressKey f.data) = some d) {k n : Nat} (hs : SackFits f k n) :
    (ingress_xdp_prog K maps f).action = .XDP_PASS ∧
      AckSackMoved d k n f (ingress_xdp_prog K maps f).frame := by
  rw [(ingress_sack K h hk hs.at_nops).1 n hs]
  exact ⟨rfl, ingress_out_moved (iterate_shifted n (sack_start K d f k))⟩

/-- A segment without SACK option. -/
theorem ingress_no_sack_moved (K : Helpers) (h : f.Segment)
    (hk : maps.flow_map (ingressKey f.data) = some d) (hn : NoSack f) :
    (ingress_xdp_prog K maps f).action = .XDP_PASS ∧
      AckSackMoved d 0 0 f (ingress_xdp_prog K maps f).frame := by
  rw [ingress_no_sack K h hk hn]
  exact ⟨rfl, ingress_out_moved (.refl d 56 _)⟩

/-- **Acknowledgement and SACK translation.**  For every segment of a key with offset `d`: with a
SACK option of length `2 + 8 * n`, `n ≤ 4`, behind zero, one or two NOPs and within the frame, the
frame passes with its acknowledgement number and the `2 * n` edges moved by `d`; with a SACK option
there of any other length, or one that runs past the end, it is dropped; without one, only the
acknowledgement number moves. -/
theorem ack_sack_exact (K : Helpers) (h : f.Segment)
    (hk : maps.flow_map (ingressKey f.data) = some d) :
    (∀ k n, SackFits f k n → (ingress_xdp_prog K maps f).action = .XDP_PASS ∧
      AckSackMoved d k n f (ingress_xdp_prog K maps f).frame) ∧
    (∀ k, SackAt f.data k → (∀ n, ¬ SackFits f k n) →
      (ingress_xdp_prog K maps f).action = .XDP_DROP) ∧
    (NoSack f → (ingress_xdp_prog K maps f).action = .XDP_PASS ∧
      AckSackMoved d 0 0 f (ingress_xdp_prog K maps f).frame) := by
  refine ⟨fun k n hf => ?_, fun k hs hbad => ?_, fun hn => ?_⟩
  · exact ingress_sack_moved K h hk hf
  · exact (ingress_sack K h hk hs).2 hbad
  · exact ingress_no_sack_moved K h hk hn

/-- A segment of 192.168.0.2:40000 that acknowledges 5000, with the given options, a multiple of
four bytes. -/
def withOptions (options : List Byte) : List Byte :=
  let h := headers (0xC0A80002, 40000) (0x0A000102, 8080) 1000 5000 TCP_ACK_FLAG (40 + options.length)
  h.take 46 ++ [BitVec.ofNat 8 (5 + options.length / 4) <<< 4] ++ h.drop 47 ++ options

/-- The client's offset is 65001. -/
def sackMaps : Maps :=
  ⟨fun _ => none, upd (fun _ => none) ⟨htonl 0xC0A80002, htons 40000⟩ (some 65001)⟩

/-- Two NOPs and one block, from 6000 to 7000. -/
def sackFrame : Frame := .ofBytes (withOptions ([1, 1, 5, 10] ++ be32 6000 ++ be32 7000))

theorem sackFrame_fits : SackFits sackFrame 2 1 where
  at_nops := ⟨by decide +kernel, ⟨le_refl 2, fun i hi => by
    obtain rfl | rfl : i = 0 ∨ i = 1 := by omega
    · decide +kernel
    · decide +kernel⟩, by decide +kernel⟩
  blocks := by decide
  len := by decide +kernel
  fits := by decide +kernel

theorem ack_sack_exact_sample :
    (ingress_xdp_prog .kernel sackMaps sackFrame).action = .XDP_PASS ∧
    AckSackMoved 65001 2 1 sackFrame (ingress_xdp_prog .kernel sackMaps sackFrame).frame :=
  (ack_sack_exact .kernel (by decide +kernel) (by decide +kernel)).1 2 1 sackFrame_fits

end Miresga.Backend
