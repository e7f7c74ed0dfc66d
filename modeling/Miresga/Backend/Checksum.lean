import Miresga.Backend.Sack
import Miresga.Lib.OnesComplement

/-!
# Backend — the incremental TCP checksum

Both programs start from the complement of the checksum field, let `bpf_csum_diff` account for every
word they replace, and fold the result into the field at the end.  `balance` is what such a
replacement keeps: the sum of the segment less the running checksum, both as the host reads them.  A
word at an even distance from the TCP header leaves it as it is (`balance_st32`), so the folded
checksum is right (`valid_of_balance`).

`egress_tc_prog` replaces the sequence number only, at distance 4: the checksum of every frame
stays valid (`egress_checksum_valid`).  `ingress_xdp_prog` also replaces the edges of SACK blocks.
Behind exactly one NOP these stand at odd distances, where the running checksum takes every byte
for the other half of its word; the checksum is then right only by accident
(`ingress_checksum_iff`).
-/

namespace Miresga.Backend

/-! ### Valid checksums -/

/-- The length of the TCP segment, from the IPv4 header. -/
def tcp_length (m : Mem) : Nat := (ntohs (total_length m)).toNat - 4 * ihl m

/-- The words of the pseudo header and of the segment. -/
def tcp_sum (m : Mem) : Nat :=
  m.wordSum 26 8 + (next_proto_id m).toNat + tcp_length m + m.wordSum (tcp_at m) (tcp_length m)

/-- The TCP checksum is valid: pseudo header and segment add up to `0xffff`. -/
def TcpValid (m : Mem) : Prop := fold16 (tcp_sum m) = 0xffff

/-- A TCP frame without IPv4 options that carries its whole segment and a valid checksum. -/
structure Checksummed (f : Frame) : Prop where
  segment : f.Segment
  no_options : ihl f.data = 5
  header : 40 ≤ (ntohs (total_length f.data)).toNat
  whole : 14 + (ntohs (total_length f.data)).toNat ≤ f.data_end
  valid : TcpValid f.data

/-- `bpf_csum_diff` returns the 32-bit one's-complement sum of the seed, the complement of the old
word and the new word, in whatever order they are added. -/
def Helpers.Sums (K : Helpers) : Prop := ∀ old new seed,
  (K.bpf_csum_diff old new seed).toNat ≡
    seed.toNat + (~~~old).toNat + new.toNat [MOD 2 ^ 32 - 1]

theorem csum_add_modEq (a b : BitVec 32) :
    (csum_add a b).toNat ≡ a.toNat + b.toNat [MOD 2 ^ 32 - 1] := by
  have ha := a.isLt
  have hb := b.isLt
  unfold csum_add Nat.ModEq
  split
  · rw [BitVec.toNat_add_of_lt (by omega)]
  · have h₁ : (1 : BitVec 32).toNat = 1 := rfl
    rw [BitVec.toNat_add, BitVec.toNat_add, h₁]
    omega

theorem kernel_sums : Helpers.kernel.Sums := fun _ _ _ =>
  (csum_add_modEq _ _).trans ((csum_add_modEq _ _).add_right _)

/-! ### The running checksum -/

theorem residue_csum_diff {K : Helpers} (hK : K.Sums) (old new seed : BitVec 32) :
    ((K.bpf_csum_diff old new seed).toNat : Residue) = seed.toNat + (new.toNat - old.toNat) := by
  rw [residue_of_modEq (hK old new seed)]
  push_cast
  rw [residue_not]
  ring

theorem residue_csum_start (c : BitVec 16) :
    ((~~~(c.setWidth 32)).toNat : Residue) = -(c.toNat : Residue) := by
  have hc := c.isLt
  rw [residue_not, BitVec.toNat_setWidth, Nat.mod_eq_of_lt (by omega)]

theorem csum_folder_toNat (csum : BitVec 32) : (csum_folder_helper csum).toNat =
    65535 - ((csum.toNat / 65536 + csum.toNat % 65536) % 65536 +
      (csum.toNat / 65536 + csum.toNat % 65536) / 65536) := by
  have hc := csum.isLt
  have h₁ : (csum >>> 16).toNat = csum.toNat / 65536 := by
    rw [BitVec.toNat_ushiftRight, Nat.shiftRight_eq_div_pow]
  have h₂ : (csum &&& 0xffff).toNat = csum.toNat % 65536 := by
    rw [BitVec.toNat_and]
    exact Nat.and_two_pow_sub_one_eq_mod csum.toNat 16
  have h₃ : ((csum >>> 16) + (csum &&& 0xffff)).toNat =
      csum.toNat / 65536 + csum.toNat % 65536 := by
    rw [BitVec.toNat_add_of_lt (by omega), h₁, h₂]
  have h₄ : (((csum >>> 16) + (csum &&& 0xffff)) >>> 16).toNat =
      (csum.toNat / 65536 + csum.toNat % 65536) / 65536 := by
    rw [BitVec.toNat_ushiftRight, h₃, Nat.shiftRight_eq_div_pow]
  unfold csum_folder_helper
  dsimp only
  rw [BitVec.toNat_setWidth, BitVec.toNat_not, BitVec.toNat_add_of_lt (by omega), h₃, h₄]
  omega

/-- Two folds are enough, and the complement is the negative. -/
theorem residue_csum_folder (csum : BitVec 32) :
    ((csum_folder_helper csum).toNat : Residue) = -(csum.toNat : Residue) := by
  have hc := csum.isLt
  have h : (((csum_folder_helper csum).toNat + csum.toNat : Nat) : Residue) = 0 := by
    rw [ZMod.natCast_eq_zero_iff, csum_folder_toNat]
    omega
  rw [Nat.cast_add] at h
  exact eq_neg_of_add_eq_zero_left h

/-! ### Segment and running checksum together -/

/-- The sum of the segment's `n` bytes less the running checksum, whose bytes stand as those of the
first word do. -/
def balance (n : Nat) (m : Mem) (csum : BitVec 32) : Residue :=
  m.wordSum 34 n - Mem.weight 0 * csum.toNat

theorem balance_eq (n : Nat) (m : Mem) (csum : BitVec 32) :
    balance n m csum = m.wordSum 34 n - 256 * csum.toNat := by
  rw [balance, Mem.weight_even rfl]

/-- A replaced word that `bpf_csum_diff` accounts for: at an even distance the weight is 256 and the
balance is kept. -/
theorem balance_st32 {K : Helpers} (hK : K.Sums) (m : Mem) (csum v : BitVec 32) {n j : Nat}
    (h : j + 4 ≤ n) :
    balance n (m.st32 (34 + j) v) (K.bpf_csum_diff (m.ld32 (34 + j)) v csum) =
      balance n m csum + (Mem.weight j - 256) * (v.toNat - (m.ld32 (34 + j)).toNat) := by
  simp only [balance_eq]
  rw [Mem.wordSum_st32 m v h, residue_csum_diff hK]
  ring

theorem balance_start (n : Nat) (m : Mem) :
    balance n m (~~~((cksum m).setWidth 32)) = m.wordSum 34 n + 256 * (cksum m).toNat := by
  rw [balance_eq, residue_csum_start]
  ring

/-- The folded checksum, once it is stored. -/
theorem wordSum_folded (m : Mem) (csum : BitVec 32) {n : Nat} (h : 18 ≤ n) :
    ((m.st16 50 (csum_folder_helper csum)).wordSum 34 n : Residue) =
      balance n m csum - 256 * (cksum m).toNat := by
  have hs := Mem.wordSum_st16 m (o := 34) (j := 16) (csum_folder_helper csum) h
  rw [Mem.weight_even (by decide), residue_csum_folder] at hs
  rw [balance_eq]
  refine hs.trans ?_
  rw [cksum]
  ring

/-! ### Validity of the frame that is left -/

section valid

variable {m m' : Mem}

theorem tcp_sum_pos (h : isTcp m) : 0 < tcp_sum m := by
  have : (next_proto_id m).toNat = 6 := by
    rw [h.2]
    rfl
  unfold tcp_sum
  omega

theorem tcpValid_iff (h : isTcp m) : TcpValid m ↔ (tcp_sum m : Residue) = 0 :=
  fold16_eq_max (tcp_sum_pos h)

/-- A frame whose bytes in front of the TCP header are those of another. -/
theorem tcp_sum_diff (hi : ihl m = 5) (h : ∀ i, i < 34 → m' i = m i) :
    (tcp_sum m' : Residue) = tcp_sum m +
      ((m'.wordSum 34 (tcp_length m) : Residue) - m.wordSum 34 (tcp_length m)) := by
  have hihl : ihl m' = ihl m := by
    unfold ihl version_ihl
    rw [h 14 (by omega)]
  have hlen : tcp_length m' = tcp_length m := by
    unfold tcp_length total_length
    rw [hihl, Mem.ld16_congr fun i _ _ => h i (by omega)]
  have hpseudo : m'.wordSum 26 8 = m.wordSum 26 8 :=
    Mem.wordSum_congr fun i _ _ => h i (by omega)
  have hproto : next_proto_id m' = next_proto_id m := h 23 (by omega)
  unfold tcp_sum tcp_at
  rw [hihl, hi, hlen, hpseudo, hproto]
  push_cast
  ring

/-- The frame that an exit of one of the programs leaves is valid exactly when the balance is back
where it started. -/
theorem valid_of_balance {f : Frame} (h : Checksummed f) {csum : BitVec 32}
    (hm : ∀ i, i < 34 → m i = f.data i) (hc : cksum m = cksum f.data) :
    TcpValid (m.st16 50 (csum_folder_helper csum)) ↔
      balance (tcp_length f.data) m csum =
        balance (tcp_length f.data) f.data (~~~((cksum f.data).setWidth 32)) := by
  have hhead : ∀ i, i < 34 → m.st16 50 (csum_folder_helper csum) i = f.data i := fun i hi => by
    rw [Mem.st16_outside _ (by omega), hm i hi]
  have htcp : isTcp (m.st16 50 (csum_folder_helper csum)) := by
    refine ⟨?_, (hhead 23 (by omega)).trans h.segment.1.2⟩
    rw [← h.segment.1.1]
    exact Mem.ld16_congr fun i _ _ => hhead i (by omega)
  have hlen : 18 ≤ tcp_length f.data := by
    have := h.header
    have := h.no_options
    unfold tcp_length
    omega
  have hv := (tcpValid_iff h.segment.1).mp h.valid
  -- the checksum field is part of the sum: the old one goes out with the start of the running sum
  rw [tcpValid_iff htcp, tcp_sum_diff h.no_options hhead, hv, wordSum_folded m csum hlen, hc,
    balance_start]
  constructor
  · intro e
    linear_combination e
  · intro e
    linear_combination e

end valid

variable {K : Helpers} {maps : Maps} {f : Frame}

/-- One word of the header replaced, at an even distance. -/
theorem valid_of_word (hK : K.Sums) (h : Checksummed f) {j : Nat} (hj : j + 4 ≤ 16)
    (heven : j % 2 = 0) (v : BitVec 32) :
    TcpValid ((f.data.st32 (34 + j) v).st16 50 (csum_folder_helper
      (K.bpf_csum_diff (f.data.ld32 (34 + j)) v (~~~((cksum f.data).setWidth 32))))) := by
  have hlen : 20 ≤ tcp_length f.data := by
    have := h.header
    have := h.no_options
    unfold tcp_length
    omega
  refine (valid_of_balance h (fun i hi => Mem.st32_outside _ (by omega)) ?_).mpr ?_
  · exact Mem.ld16_st32_ne _ (by omega)
  · rw [balance_st32 hK _ _ _ (by omega), Mem.weight_even heven]
    ring

/-! ### Egress -/

/-- What egress leaves of a segment: the frame itself, the frame with another sequence number, or
the frame with its checksum folded again. -/
theorem egress_frame (K : Helpers) (maps : Maps) (h : f.Segment) :
    (egress_tc_prog K maps f).action = .TC_ACT_OK ∧
    ((egress_tc_prog K maps f).frame.data = f.data ∨
      (∃ v, (egress_tc_prog K maps f).frame.data = (f.data.st32 38 v).st16 50 (csum_folder_helper
        (K.bpf_csum_diff (sent_seq f.data) v (~~~((cksum f.data).setWidth 32))))) ∨
      (egress_tc_prog K maps f).frame.data =
        f.data.st16 50 (csum_folder_helper (~~~((cksum f.data).setWidth 32)))) := by
  rw [egress_segment K h]
  unfold egress_tcp
  dsimp only
  split
  · exact ⟨rfl, .inr (.inl ⟨_, rfl⟩)⟩
  · split
    · exact ⟨rfl, .inl rfl⟩
    · split
      · exact ⟨rfl, .inl rfl⟩
      · exact ⟨rfl, .inr (.inr rfl)⟩

/-- **Egress keeps checksums valid**: for every frame with a valid checksum and all map contents,
whether the sequence number is rewritten or an offset is only recorded. -/
theorem egress_checksum_valid (hK : K.Sums) (maps : Maps) (h : Checksummed f) :
    (egress_tc_prog K maps f).action = .TC_ACT_OK ∧
      TcpValid (egress_tc_prog K maps f).frame.data := by
  obtain ⟨ha, hf | ⟨v, hf⟩ | hf⟩ := egress_frame K maps h.segment
  · rw [hf]
    exact ⟨ha, h.valid⟩
  · rw [hf]
    exact ⟨ha, valid_of_word (j := 4) hK h (by omega) (by decide) v⟩
  · rw [hf]
    exact ⟨ha, (valid_of_balance h (fun _ _ => rfl) rfl).mpr rfl⟩

/-- The frame with its checksum field set. -/
def withChecksum (c : BitVec 16) (l : List Byte) : Frame := .ofBytes (l.take 50 ++ be16 c ++ l.drop 52)

/-- Validity by division, which can be computed. -/
theorem tcpValid_iff_dvd {m : Mem} (h : isTcp m) : TcpValid m ↔ 65535 ∣ tcp_sum m := by
  rw [tcpValid_iff h, ZMod.natCast_eq_zero_iff]

/-- A segment of the server to 192.168.0.2:40000. -/
def checkedReply : Frame := withChecksum 4862
  (headers (0x0A000102, 8080) (0xC0A80002, 40000) 70001 1000 TCP_ACK_FLAG 40)

theorem checkedReply_checksummed : Checksummed checkedReply :=
  ⟨by decide +kernel, by decide +kernel, by decide +kernel, by decide +kernel,
    (tcpValid_iff_dvd (by decide +kernel)).mpr (by decide +kernel)⟩

theorem egress_checksum_valid_sample :
    seqNo (egress_tc_prog .kernel sackMaps checkedReply).frame.data = 5000 ∧
    (egress_tc_prog .kernel sackMaps checkedReply).action = .TC_ACT_OK ∧
    TcpValid (egress_tc_prog .kernel sackMaps checkedReply).frame.data :=
  ⟨by decide +kernel, egress_checksum_valid kernel_sums sackMaps checkedReply_checksummed⟩

/-! ### SACK blocks -/

/-- By how much the edge at `o` changes, as the host reads it. -/
def edge_diff (d : BitVec 32) (m : Mem) (o : Nat) : Int :=
  (htonl (ntohl (m.ld32 o) + d)).toNat - (m.ld32 o).toNat

theorem edge_diff_congr {d : BitVec 32} {m m' : Mem} {o : Nat}
    (h : ∀ i, o ≤ i → i < o + 4 → m i = m' i) : edge_diff d m o = edge_diff d m' o := by
  unfold edge_diff
  rw [Mem.ld32_congr h]

section blocks

variable {d : BitVec 32} {s : Sack} {l p : Nat}

/-- One edge; `p` is its distance from the TCP header. -/
theorem balance_word (hK : K.Sums) (hp : s.sack = 34 + p) (hl : p + 4 ≤ l) :
    balance l (sack_word K d s).data (sack_word K d s).csum = balance l s.data s.csum +
      (Mem.weight p - 256) * (edge_diff d s.data s.sack : Int) := by
  unfold sack_word edge_diff
  rw [hp]
  push_cast
  exact balance_st32 hK _ _ _ hl

/-- One block. -/
theorem balance_pair (hK : K.Sums) (hp : s.sack = 34 + p) (hl : p + 8 ≤ l) :
    balance l (sack_pair K d s).data (sack_pair K d s).csum = balance l s.data s.csum +
      (Mem.weight p - 256) *
        ((edge_diff d s.data s.sack + edge_diff d s.data (s.sack + 4) : Int) : Residue) := by
  have hw : Mem.weight (p + 4) = Mem.weight p := by
    unfold Mem.weight
    rw [show (p + 4) % 2 = p % 2 by omega]
  have h₁ := balance_word (d := d) hK hp (show p + 4 ≤ l by omega)
  have h₂ := balance_word (d := d) (s := sack_word K d s) hK
    (show s.sack + 4 = 34 + (p + 4) by omega) (show p + 4 + 4 ≤ l by omega)
  have he : edge_diff d (sack_word K d s).data (sack_word K d s).sack =
      edge_diff d s.data (s.sack + 4) :=
    edge_diff_congr fun i hi _ => (sack_word_shifted s).rest i (.inr hi)
  refine h₂.trans ?_
  rw [h₁, hw, he]
  push_cast
  ring

/-- All blocks: every edge tips the balance by its change, unless the distance is even. -/
theorem balance_blocks (hK : K.Sums) (hp : s.sack = 34 + p) {n : Nat} (hl : p + 8 * n ≤ l) :
    balance l ((sack_pair K d)^[n] s).data ((sack_pair K d)^[n] s).csum = balance l s.data s.csum +
      (Mem.weight p - 256) *
        ((∑ j ∈ Finset.range (2 * n), edge_diff d s.data (s.sack + 4 * j) : Int) : Residue) := by
  induction n with
  | zero => simp
  | succ n ih =>
      have hw : Mem.weight (p + 8 * n) = Mem.weight p := by
        unfold Mem.weight
        rw [show (p + 8 * n) % 2 = p % 2 by omega]
      have hs := iterate_sack (K := K) (d := d) n s
      have hedge : ∀ j, 2 * n ≤ j → edge_diff d ((sack_pair K d)^[n] s).data (s.sack + 4 * j) =
          edge_diff d s.data (s.sack + 4 * j) := fun j hj =>
        edge_diff_congr fun i hi _ => (iterate_shifted n s).rest i (.inr (by omega))
      rw [Function.iterate_succ_apply',
        balance_pair hK (hs.trans (by omega) : _ = 34 + (p + 8 * n)) (by omega), ih (by omega), hw,
        hs, show s.sack + 8 * n = s.sack + 4 * (2 * n) by omega,
        show s.sack + 4 * (2 * n) + 4 = s.sack + 4 * (2 * n + 1) by omega, hedge _ (le_refl _),
        hedge _ (by omega), show 2 * (n + 1) = 2 * n + 1 + 1 by omega, Finset.sum_range_succ,
        Finset.sum_range_succ]
      push_cast
      ring

end blocks

/-! ### Modulo 257 -/

/-- Swapping the bytes of a word is negation modulo 257. -/
theorem dvd_bswap32_add (v : BitVec 32) : (257 : Int) ∣ (bswap32 v).toNat + v.toNat := by
  have h₁ := Mem.toNat_bytes32 v
  have h₂ : (bswap32 v).toNat = (v.extractLsb' 24 8).toNat + 256 * ((v.extractLsb' 16 8).toNat +
      256 * ((v.extractLsb' 8 8).toNat + 256 * (v.extractLsb' 0 8).toNat)) := by
    unfold bswap32
    rw [toNat_append_add, toNat_append_add, toNat_append_add]
    omega
  omega

/-- The change of an edge, as the host reads it, is that of the number on the wire, negated. -/
theorem dvd_edge_diff (d : BitVec 32) (m : Mem) (o : Nat) : (257 : Int) ∣ edge_diff d m o +
    ((ntohl (m.ld32 o) + d).toNat - (ntohl (m.ld32 o)).toNat) := by
  have h₁ := dvd_bswap32_add (bswap32 (m.ld32 o) + d)
  have h₂ := dvd_bswap32_add (m.ld32 o)
  unfold edge_diff htonl ntohl
  omega

theorem dvd_edges_iff (d : BitVec 32) (m : Mem) (o n : Nat) :
    (257 : Int) ∣ ∑ j ∈ Finset.range n, edge_diff d m (o + 4 * j) ↔
      (257 : Int) ∣ ∑ j ∈ Finset.range n, (((ntohl (m.ld32 (o + 4 * j)) + d).toNat : Int) -
        (ntohl (m.ld32 (o + 4 * j))).toNat) := by
  have h : (257 : Int) ∣ ∑ j ∈ Finset.range n, (edge_diff d m (o + 4 * j) +
      (((ntohl (m.ld32 (o + 4 * j)) + d).toNat : Int) - (ntohl (m.ld32 (o + 4 * j))).toNat)) :=
    Finset.dvd_sum fun j _ => dvd_edge_diff d m (o + 4 * j)
  rw [Finset.sum_add_distrib] at h
  omega

/-- The factor by which an odd distance is off. -/
theorem residue_odd_iff (x : Int) : ((1 - 256 : Residue) * (x : Residue) = 0) ↔ (257 : Int) ∣ x := by
  have h : (1 - 256 : Residue) * (x : Residue) = ((-255 * x : Int) : Residue) := by
    push_cast
    ring
  rw [h, ZMod.intCast_zmod_eq_zero_iff_dvd]
  omega

/-! ### Ingress -/

/-- The header that the data offset announces lies within the segment, and the SACK option that is
looked at within the header. -/
structure OptionsInside (f : Frame) : Prop where
  header : 34 + 4 * doff f.data ≤ 14 + (ntohs (total_length f.data)).toNat
  sack : ∀ k n, SackFits f k n → 56 + k + 8 * n ≤ 34 + 4 * doff f.data

/-- If the key has an offset `d` and a SACK option stands behind exactly one NOP, then 257 divides
what its edges change by. -/
def SackInStep (maps : Maps) (f : Frame) : Prop :=
  ∀ d n, maps.flow_map (ingressKey f.data) = some d → SackFits f 1 n →
    (257 : Int) ∣ ∑ j ∈ Finset.range (2 * n),
      (((ntohl (f.data.ld32 (57 + 4 * j)) + d).toNat : Int) -
        (ntohl (f.data.ld32 (57 + 4 * j))).toNat)

/-- The frame that leaves behind `n` moved blocks. -/
theorem valid_of_blocks (hK : K.Sums) (h : Checksummed f) (ho : OptionsInside f) {d : BitVec 32}
    {k n : Nat} (hs : SackFits f k n) :
    TcpValid (ingress_out f ((sack_pair K d)^[n] (sack_start K d f k)).data
      ((sack_pair K d)^[n] (sack_start K d f k)).csum maps).frame.data ↔
    (Mem.weight (22 + k) - 256) * ((∑ j ∈ Finset.range (2 * n),
      edge_diff d f.data (56 + k + 4 * j) : Int) : Residue) = 0 := by
  have hin := ho.sack k n hs
  have hlen : tcp_length f.data = (ntohs (total_length f.data)).toNat - 20 := by
    rw [tcp_length, h.no_options]
  have hhead := ho.header
  have hacked : balance (tcp_length f.data) (acked d f) (acked_csum K d f) =
      balance (tcp_length f.data) f.data (~~~((cksum f.data).setWidth 32)) := by
    refine (balance_st32 (j := 8) hK _ _ _ (by omega)).trans ?_
    rw [Mem.weight_even (by decide)]
    ring
  have hsum : (∑ j ∈ Finset.range (2 * n), edge_diff d (sack_start K d f k).data
      ((sack_start K d f k).sack + 4 * j)) =
      ∑ j ∈ Finset.range (2 * n), edge_diff d f.data (56 + k + 4 * j) :=
    Finset.sum_congr rfl fun j _ => edge_diff_congr fun i hi _ =>
      acked_rest (.inr (by
        have : (sack_start K d f k).sack = 56 + k := rfl
        omega))
  have hrest : ∀ i, i < 56 → ((sack_pair K d)^[n] (sack_start K d f k)).data i = acked d f i :=
    fun i hi => (iterate_shifted n (sack_start K d f k)).rest i
      (.inl (show i < 56 + k by omega))
  refine (valid_of_balance h (fun i hi => ?_) ?_).trans ?_
  · rw [hrest i (by omega), acked_rest (.inl (by omega))]
  · exact Mem.ld16_congr fun i _ _ => by rw [hrest i (by omega), acked_rest (.inr (by omega))]
  · rw [balance_blocks hK (show (sack_start K d f k).sack = 34 + (22 + k) by
      show 56 + k = _
      omega) (by omega), hsum]
    refine (Eq.congr_right hacked.symm).trans ?_
    exact add_eq_left

/-- **Ingress checksums.**  For every TCP frame with a valid checksum, options inside the data
offset and all map contents: if the frame passes, its checksum is valid exactly when no SACK block
stands behind a single NOP, or the edges there happen to change by a multiple of 257. -/
theorem ingress_checksum_iff (hK : K.Sums) (h : Checksummed f) (ho : OptionsInside f)
    (hp : (ingress_xdp_prog K maps f).action = .XDP_PASS) :
    TcpValid (ingress_xdp_prog K maps f).frame.data ↔ SackInStep maps f := by
  cases hk : maps.flow_map (ingressKey f.data) with
  | none =>
      have hr : SackInStep maps f := fun d n hd => nomatch hk.symm.trans hd
      refine iff_of_true ?_ hr
      cases hs : syn f.data with
      | false =>
          rw [ingress_quiet K h.segment hk hs]
          exact h.valid
      | true =>
          -- a new flow: the acknowledgement number is replaced by 0
          rw [ingress_segment K h.segment]
          simp only [ingress_tcp, hk, hs, ingress_out, Bool.not_true, Bool.false_eq_true, if_false]
          exact valid_of_word (j := 8) hK h (by omega) (by decide) 0
  | some d =>
      rcases ingress_known_passed K h.segment hk hp with ⟨hn, hr⟩ | ⟨k, n, hfit, hr⟩
      · rw [hr]
        refine iff_of_true ?_ fun d n _ hs => (hn.not_fits hs).elim
        exact valid_of_word (j := 8) hK h (by omega) (by decide) _
      · rw [hr, valid_of_blocks hK h ho hfit]
        -- the blocks stand at distance 22 + k, which is odd for one NOP only
        by_cases h1 : k = 1
        · subst h1
          rw [Mem.weight_odd (by decide), residue_odd_iff, dvd_edges_iff]
          refine ⟨fun hdvd d' n' hd' hs => ?_, fun hstep => hstep d n hk hfit⟩
          obtain rfl : d = d' := Option.some.inj (hk.symm.trans hd')
          obtain ⟨-, rfl⟩ := hfit.unique hs
          exact hdvd
        · have hk2 := hfit.at_nops.nops.1
          rw [Mem.weight_even (by omega)]
          refine iff_of_true (by ring) fun d n _ hs => ?_
          exact absurd (hfit.unique hs).1 h1

/-- One block behind two NOPs. -/
def twoNops : Frame := withChecksum 43016 (withOptions ([1, 1, 5, 10] ++ be32 6000 ++ be32 7000))

theorem twoNops_checksummed : Checksummed twoNops :=
  ⟨by decide +kernel, by decide +kernel, by decide +kernel, by decide +kernel,
    (tcpValid_iff_dvd (by decide +kernel)).mpr (by decide +kernel)⟩

theorem twoNops_inside : OptionsInside twoNops where
  header := by decide +kernel
  sack _ _ hs := le_trans hs.fits (by decide +kernel)

theorem ingress_checksum_twoNops :
    TcpValid (ingress_xdp_prog .kernel sackMaps twoNops).frame.data := by
  refine (ingress_checksum_iff kernel_sums twoNops_checksummed twoNops_inside
    (by decide +kernel)).mpr fun d n _ hs => ?_
  exact absurd hs.at_nops.kind (by decide +kernel)

/-- The same block behind one NOP. -/
def oneNop : Frame := withChecksum 3492 (withOptions ([1, 5, 10] ++ be32 6000 ++ be32 7000 ++ [0]))

theorem oneNop_inside : OptionsInside oneNop where
  header := by decide +kernel
  sack _ _ hs := le_trans hs.fits (by decide +kernel)

/-- The frame passes with both edges moved and a checksum that is not valid. -/
theorem oneNop_not_valid : Checksummed oneNop ∧ OptionsInside oneNop ∧
    (ingress_xdp_prog .kernel sackMaps oneNop).action = .XDP_PASS ∧
    ntohl ((ingress_xdp_prog .kernel sackMaps oneNop).frame.data.ld32 57) = 71001 ∧
    ¬ TcpValid (ingress_xdp_prog .kernel sackMaps oneNop).frame.data := by
  refine ⟨⟨by decide +kernel, by decide +kernel, by decide +kernel, by decide +kernel, ?_⟩,
    oneNop_inside, by decide +kernel, by decide +kernel, ?_⟩
  · exact (tcpValid_iff_dvd (by decide +kernel)).mpr (by decide +kernel)
  · exact fun h => absurd ((tcpValid_iff_dvd (by decide +kernel)).mp h) (by decide +kernel)

end Miresga.Backend
