import Miresga.Backend.Agent

/-!
# Backend — what one run of a program does

One statement per case of each program: the verdict, the header bytes of the frame, and the maps.

* A frame that is no TCP segment of full header length leaves the maps alone.
* Ingress, no offset recorded: a SYN is recorded in `seq_map` and loses its acknowledgement
  number; any other segment passes untouched.
* Ingress, offset `d`: the maps stay as they are, whatever the flags, and the acknowledgement
  number of a frame that passes has grown by `d` (`ingress_known`).  The RST cleanup of the source
  stands behind the option chain, which always jumps (`option_chain_ne_next`).
* Egress, offset `d`: the sequence number has dropped by `d`, and an RST removes the key from both
  maps (`egress_known`).
* Egress, no offset: a SYN-ACK for a recorded SYN records the offset and only gets its checksum
  folded again; any other segment passes untouched.
-/

namespace Miresga.Backend

/-- A frame both programs look into: IPv4 and TCP by its type fields, with a whole TCP header. -/
def Frame.Segment (f : Frame) : Prop := isTcp f.data ∧ 54 ≤ f.data_end

instance (f : Frame) : Decidable f.Segment := inferInstanceAs (Decidable (_ ∧ _))

/-- The same 54 header bytes, those from `o` up to `o + 4` and the TCP checksum apart. -/
def HeaderExcept (o : Nat) (m m' : Mem) : Prop :=
  ∀ i, i < 54 → (i < o ∨ o + 4 ≤ i) → i ≠ 50 → i ≠ 51 → m' i = m i

namespace HeaderExcept

variable {o : Nat} {m m' : Mem}

theorem seqNo (h : HeaderExcept 42 m m') : seqNo m' = seqNo m :=
  congrArg ntohl (Mem.ld32_congr fun i _ _ => h i (by omega) (by omega) (by omega) (by omega))

theorem ackNo (h : HeaderExcept 38 m m') : ackNo m' = ackNo m :=
  congrArg ntohl (Mem.ld32_congr fun i _ _ => h i (by omega) (by omega) (by omega) (by omega))

theorem tcp_flags (h : HeaderExcept o m m') (ho : o + 4 ≤ 47) : tcp_flags m' = tcp_flags m :=
  h 47 (by omega) (by omega) (by omega) (by omega)

end HeaderExcept

/-! ### The option chain -/

theorem option_link_ne_next {m : Mem} {data_end opt : Nat} {nop : Jump} (h : nop ≠ .next) :
    option_link m data_end opt nop ≠ .next := by
  unfold option_link
  split_ifs <;> simp [h]

/-- Every path through the option chain jumps: the statement behind it is never reached. -/
theorem option_chain_ne_next (m : Mem) (data_end : Nat) : option_chain m data_end ≠ .next := by
  unfold option_chain
  split
  · refine option_link_ne_next (option_link_ne_next ?_)
    split_ifs <;> simp
  · simp

theorem option_link_sack {m : Mem} {data_end opt o : Nat} {nop : Jump}
    (h : option_link m data_end opt nop = .sack_out o) : o = opt ∨ nop = .sack_out o := by
  unfold option_link at h
  split_ifs at h
  · exact .inr h
  · exact .inl (Jump.sack_out.inj h).symm

/-- A SACK option is looked for behind the fixed TCP header. -/
theorem option_chain_sack {m : Mem} {data_end o : Nat}
    (h : option_chain m data_end = .sack_out o) : 54 ≤ o := by
  unfold option_chain at h
  split at h
  · rcases option_link_sack h with rfl | h
    · omega
    rcases option_link_sack h with rfl | h
    · omega
    split_ifs at h
    have := Jump.sack_out.inj h
    omega
  · cases h

/-! ### The SACK blocks -/

/-- `s'` comes from `s` by rewriting bytes at or behind the cursor of `s`. -/
def Sack.Behind (s s' : Sack) : Prop := s.sack ≤ s'.sack ∧ ∀ i, i < s.sack → s'.data i = s.data i

theorem Sack.Behind.refl (s : Sack) : s.Behind s := ⟨le_refl _, fun _ _ => rfl⟩

theorem Sack.Behind.trans {s₁ s₂ s₃ : Sack} (h₁ : s₁.Behind s₂) (h₂ : s₂.Behind s₃) :
    s₁.Behind s₃ :=
  ⟨h₁.1.trans h₂.1, fun i hi => (h₂.2 i (lt_of_lt_of_le hi h₁.1)).trans (h₁.2 i hi)⟩

theorem sack_word_behind (K : Helpers) (diff : BitVec 32) (s : Sack) :
    s.Behind (sack_word K diff s) :=
  ⟨Nat.le_add_right _ _, fun _ hi => Mem.st32_outside _ (.inl hi)⟩

theorem sack_block_behind {K : Helpers} {diff : BitVec 32} {data_end : Nat} {s s' : Sack}
    (h : sack_block K diff data_end s = some s') : s.Behind s' := by
  unfold sack_block at h
  split_ifs at h
  · cases h
    exact (sack_word_behind K diff s).trans (sack_word_behind K diff _)
  · cases h
    exact .refl s

theorem sack_blocks_behind {K : Helpers} {diff : BitVec 32} {data_end : Nat} {s s' : Sack}
    (h : sack_blocks K diff data_end s = some s') : s.Behind s' := by
  unfold sack_blocks at h
  split at h
  · cases h
  next s₄ hs =>
    simp only [Option.bind_eq_bind, Option.bind_eq_some_iff] at hs
    obtain ⟨s₃, ⟨s₂, ⟨s₁, h₁, h₂⟩, h₃⟩, h₄⟩ := hs
    split_ifs at h
    cases h
    exact (sack_block_behind h₁).trans ((sack_block_behind h₂).trans
      ((sack_block_behind h₃).trans (sack_block_behind h₄)))

/-! ### Ingress -/

variable (K : Helpers) {maps : Maps} {f : Frame}

theorem ingress_other (h : ¬ f.Segment) : (ingress_xdp_prog K maps f).maps = maps := by
  unfold ingress_xdp_prog
  split_ifs with h₁ h₂ h₃ h₄ h₅ <;> try rfl
  exact absurd ⟨⟨not_not.mp h₂, not_not.mp h₄⟩, Nat.le_of_not_lt h₅⟩ h

theorem ingress_segment (h : f.Segment) : ingress_xdp_prog K maps f = ingress_tcp K maps f := by
  obtain ⟨⟨h₁, h₂⟩, h₃⟩ := h
  unfold ingress_xdp_prog
  rw [if_neg (by omega), if_neg (by simp [h₁]), if_neg (by omega), if_neg (by simp [h₂]),
    if_neg (by omega)]

/-- A TCP frame without a whole header does not pass. -/
theorem ingress_passed (ht : isTcp f.data) (hp : (ingress_xdp_prog K maps f).action = .XDP_PASS) :
    f.Segment := by
  refine ⟨ht, Nat.le_of_not_lt fun h54 => ?_⟩
  unfold ingress_xdp_prog at hp
  rw [if_neg (not_not.mpr ht.1), if_neg (not_not.mpr ht.2), if_pos h54] at hp
  split_ifs at hp

/-- A segment of a key without offset that is no SYN passes as it is. -/
theorem ingress_quiet (h : f.Segment) (hk : maps.flow_map (ingressKey f.data) = none)
    (hs : syn f.data = false) : ingress_xdp_prog K maps f = ⟨.XDP_PASS, f, maps⟩ := by
  rw [ingress_segment K h]
  simp [ingress_tcp, hk, hs]

/-- A SYN of a key without offset is recorded, and passes with acknowledgement number 0. -/
theorem ingress_new (h : f.Segment) (hk : maps.flow_map (ingressKey f.data) = none)
    (hs : syn f.data = true) :
    (ingress_xdp_prog K maps f).action = .XDP_PASS ∧
    (ingress_xdp_prog K maps f).frame.data_end = f.data_end ∧
    ackNo (ingress_xdp_prog K maps f).frame.data = 0 ∧
    HeaderExcept 42 f.data (ingress_xdp_prog K maps f).frame.data ∧
    (ingress_xdp_prog K maps f).maps =
      { maps with
        seq_map := upd maps.seq_map (ingressKey f.data) (some (recv_ack f.data)) } := by
  rw [ingress_segment K h]
  simp only [ingress_tcp, hk, hs, ingress_out, Bool.not_true, Bool.false_eq_true, if_false]
  refine ⟨trivial, trivial, ?_, fun i hi ho h₁ h₂ => ?_, trivial⟩
  · unfold ackNo recv_ack
    rw [Mem.ld32_congr (n := f.data.st32 42 0) fun i _ _ => Mem.st16_outside _ (by omega),
      Mem.ld32_st32]
    rfl
  · rw [Mem.st16_outside _ (by omega), Mem.st32_outside _ ho]

/-- `g` is `f` with acknowledgement number 0; only the checksum may differ besides. -/
structure Unacknowledged (f g : Frame) : Prop where
  data_end : g.data_end = f.data_end
  ack : ackNo g.data = 0
  rest : ∀ i, (i < 42 ∨ 46 ≤ i) → i ≠ 50 → i ≠ 51 → g.data i = f.data i

/-- Options and payload of such a SYN stay as they are. -/
theorem ingress_new_unacknowledged (h : f.Segment)
    (hk : maps.flow_map (ingressKey f.data) = none) (hs : syn f.data = true) :
    Unacknowledged f (ingress_xdp_prog K maps f).frame := by
  obtain ⟨-, hend, hack, -, -⟩ := ingress_new K h hk hs
  refine ⟨hend, hack, fun i hi h₁ h₂ => ?_⟩
  rw [ingress_segment K h]
  simp only [ingress_tcp, hk, hs, ingress_out, Bool.not_true, Bool.false_eq_true, if_false]
  rw [Mem.st16_outside _ (by omega), Mem.st32_outside _ (by omega)]

/-- What the common exit makes of memory that agrees with the frame's below the options. -/
theorem ingress_out_known {d : BitVec 32} {data : Mem} {csum : BitVec 32}
    (hd : ∀ i, i < 54 → data i = f.data.st32 42 (htonl (ntohl (recv_ack f.data) + d)) i) :
    ackNo (ingress_out f data csum maps).frame.data = ackNo f.data + d ∧
    HeaderExcept 42 f.data (ingress_out f data csum maps).frame.data := by
  refine ⟨?_, fun i hi ho h₁ h₂ => ?_⟩
  · simp only [ingress_out, ackNo]
    unfold recv_ack
    rw [Mem.ld32_congr (n := f.data.st32 42 (htonl (ntohl (recv_ack f.data) + d)))
      fun i _ _ => by rw [Mem.st16_outside _ (by omega), hd i (by omega)]]
    simp [recv_ack]
  · simp only [ingress_out]
    rw [Mem.st16_outside _ (by omega), hd i hi, Mem.st32_outside _ ho]

/-- **A segment of a key with an offset.**  No flag makes ingress change a map; a frame that passes
has its acknowledgement number moved by the offset. -/
theorem ingress_known {d : BitVec 32} (h : f.Segment)
    (hk : maps.flow_map (ingressKey f.data) = some d) :
    (ingress_xdp_prog K maps f).maps = maps ∧
    ((ingress_xdp_prog K maps f).action = .XDP_PASS →
      (ingress_xdp_prog K maps f).frame.data_end = f.data_end ∧
      ackNo (ingress_xdp_prog K maps f).frame.data = ackNo f.data + d ∧
      HeaderExcept 42 f.data (ingress_xdp_prog K maps f).frame.data) := by
  rw [ingress_segment K h]
  unfold ingress_tcp
  simp only [hk]
  generalize hcsum : K.bpf_csum_diff (recv_ack f.data) _ _ = csum
  generalize hdata : f.data.st32 42 _ = data
  split
  · exact ⟨rfl, fun ha => by cases ha⟩
  · exact ⟨rfl, fun _ => ⟨rfl, ingress_out_known fun i _ => by rw [hdata]⟩⟩
  next opt hj =>
    split_ifs with hb
    · exact ⟨rfl, fun ha => by cases ha⟩
    · split
      · exact ⟨rfl, fun ha => by cases ha⟩
      next s hs =>
        have hopt := option_chain_sack hj
        refine ⟨rfl, fun _ => ⟨rfl, ingress_out_known fun i hi => ?_⟩⟩
        rw [hdata]
        exact (sack_blocks_behind hs).2 i (show i < opt + 2 by omega)
  next hj => exact absurd hj (option_chain_ne_next _ _)

/-! ### Egress -/

theorem egress_other (h : ¬ f.Segment) : (egress_tc_prog K maps f).maps = maps := by
  unfold egress_tc_prog
  split_ifs with h₁ h₂ h₃ h₄ h₅ <;> try rfl
  exact absurd ⟨⟨not_not.mp h₂, not_not.mp h₄⟩, Nat.le_of_not_lt h₅⟩ h

theorem egress_segment (h : f.Segment) : egress_tc_prog K maps f = egress_tcp K maps f := by
  obtain ⟨⟨h₁, h₂⟩, h₃⟩ := h
  unfold egress_tc_prog
  rw [if_neg (by omega), if_neg (by simp [h₁]), if_neg (by omega), if_neg (by simp [h₂]),
    if_neg (by omega)]

/-- A TCP frame without a whole header does not leave. -/
theorem egress_passed (ht : isTcp f.data) (hp : (egress_tc_prog K maps f).action = .TC_ACT_OK) :
    f.Segment := by
  refine ⟨ht, Nat.le_of_not_lt fun h54 => ?_⟩
  unfold egress_tc_prog at hp
  rw [if_neg (not_not.mpr ht.1), if_neg (not_not.mpr ht.2), if_pos h54] at hp
  split_ifs at hp

/-- **A segment of a key with an offset** leaves with its sequence number moved back by it; an RST
takes the key out of both maps. -/
theorem egress_known {d : BitVec 32} (h : f.Segment)
    (hk : maps.flow_map (egressKey f.data) = some d) :
    (egress_tc_prog K maps f).action = .TC_ACT_OK ∧
    (egress_tc_prog K maps f).frame.data_end = f.data_end ∧
    seqNo (egress_tc_prog K maps f).frame.data = seqNo f.data - d ∧
    HeaderExcept 38 f.data (egress_tc_prog K maps f).frame.data ∧
    (egress_tc_prog K maps f).maps =
      if rst f.data then
        { flow_map := upd maps.flow_map (egressKey f.data) none
          seq_map := upd maps.seq_map (egressKey f.data) none }
      else maps := by
  rw [egress_segment K h]
  unfold egress_tcp
  simp only [hk]
  refine ⟨trivial, trivial, ?_, fun i hi ho h₁ h₂ => ?_, ?_⟩
  · unfold seqNo sent_seq
    rw [Mem.ld32_congr (n := f.data.st32 38 (htonl (ntohl (f.data.ld32 38) - d)))
      fun i _ _ => Mem.st16_outside _ (by omega), Mem.ld32_st32]
    exact bswap32_bswap32 _
  · rw [Mem.st16_outside _ (by omega), Mem.st32_outside _ ho]
  · have hr : rst (f.data.st32 38 (htonl (ntohl (sent_seq f.data) - d))) = rst f.data := by
      unfold rst tcp_flags
      rw [Mem.st32_outside _ (by omega)]
    rw [hr]

/-- A segment of a key without offset that is no SYN-ACK, or whose SYN was never recorded, leaves
as it is. -/
theorem egress_quiet (h : f.Segment) (hk : maps.flow_map (egressKey f.data) = none)
    (hs : (syn f.data && ack f.data) = false ∨ maps.seq_map (egressKey f.data) = none) :
    egress_tc_prog K maps f = ⟨.TC_ACT_OK, f, maps⟩ := by
  rw [egress_segment K h]
  simp only [egress_tcp, hk]
  split_ifs with hsa
  · rfl
  · rcases hs with hs | hs
    · revert hs hsa
      cases syn f.data <;> cases ack f.data <;> simp
    · simp only [hs]

/-- A SYN-ACK for a recorded SYN records the offset and leaves with its numbers unchanged. -/
theorem egress_new {a : BitVec 32} (h : f.Segment)
    (hk : maps.flow_map (egressKey f.data) = none) (hs : syn f.data = true)
    (ha : ack f.data = true) (hq : maps.seq_map (egressKey f.data) = some a) :
    (egress_tc_prog K maps f).action = .TC_ACT_OK ∧
    (egress_tc_prog K maps f).frame.data_end = f.data_end ∧
    (∀ i, i ≠ 50 → i ≠ 51 → (egress_tc_prog K maps f).frame.data i = f.data i) ∧
    (egress_tc_prog K maps f).maps =
      { maps with
        flow_map := upd maps.flow_map (egressKey f.data)
          (some (seqNo f.data - ntohl a)) } := by
  rw [egress_segment K h]
  simp only [egress_tcp, hk, hs, ha, hq]
  refine ⟨rfl, rfl, fun i h₁ h₂ => ?_, rfl⟩
  exact Mem.st16_outside _ (by omega)

end Miresga.Backend
