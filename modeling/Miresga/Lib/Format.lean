import Miresga.Lib.Mem

/-!
# Lib — Header formats

A `Format` is a header of a fixed number of bytes without padding: what it reads off the first bytes
of a packet, and the bytes it emits, each the inverse of the other.  A parser extracts headers from
the front of the rest of a packet (`Format.extract`); what it extracted, emitted again in front of
the rest, is the packet (`emit_of_extract`), and extracting what was emitted gives the header back
(`extract_emit`).
-/

/-- The bytes of a list, and zeros behind it. -/
def toMem (l : List Byte) : Mem := fun i => l.getD i 0

theorem toMem_lt {l : List Byte} {i : Nat} (h : i < l.length) : toMem l i = l[i] := by
  simp [toMem, h]

theorem toMem_cons_zero (b : Byte) (l : List Byte) : toMem (b :: l) 0 = b := rfl

theorem toMem_cons_succ (b : Byte) (l : List Byte) (i : Nat) : toMem (b :: l) (i + 1) = toMem l i :=
  rfl

theorem bytes_toMem {l : List Byte} {n : Nat} (h : n ≤ l.length) :
    (toMem l).bytes 0 n = l.take n := by
  refine List.ext_getElem (by simp [h]) fun i h₁ h₂ => ?_
  have hi : i < l.length := by
    rw [Mem.length_bytes] at h₁
    omega
  rw [Mem.getElem_bytes, Nat.zero_add, toMem_lt hi, List.getElem_take]

theorem toMem_append (l r : List Byte) (i : Nat) : toMem (l ++ r) (l.length + i) = toMem r i := by
  simp only [toMem, List.getD_eq_getElem?_getD]
  rw [List.getElem?_append_right (Nat.le_add_right _ _), Nat.add_sub_cancel_left]

/-- The region from `o` on. -/
def Mem.drop (m : Mem) (o : Nat) : Mem := fun i => m (o + i)

/-- A header of `size` bytes. -/
structure Format (α : Type) where
  size : Nat
  decode : Mem → α
  emit : α → List Byte
  length_emit : ∀ x, (emit x).length = size
  decode_emit : ∀ x r, decode (toMem (emit x ++ r)) = x
  emit_decode : ∀ m, emit (decode m) = m.bytes 0 size

namespace Format

variable {α : Type} (F : Format α)

/-- Takes a header off the front; a packet that is too short is an error. -/
def extract (pkt : List Byte) : Option (α × List Byte) :=
  if F.size ≤ pkt.length then some (F.decode (toMem pkt), pkt.drop F.size) else none

theorem extract_emit (x : α) (r : List Byte) : F.extract (F.emit x ++ r) = some (x, r) := by
  have hl := F.length_emit x
  rw [extract, if_pos (by rw [List.length_append, hl]; omega), F.decode_emit,
    List.drop_left' hl]

theorem emit_of_extract {pkt r : List Byte} {x : α} (h : F.extract pkt = some (x, r)) :
    F.emit x ++ r = pkt := by
  unfold extract at h
  split at h
  next hle =>
    cases h
    rw [F.emit_decode, bytes_toMem hle, List.take_append_drop]
  · cases h

theorem decode_of_extract {pkt r : List Byte} {x : α} (h : F.extract pkt = some (x, r)) :
    x = F.decode (toMem pkt) ∧ r = pkt.drop F.size ∧ F.size ≤ pkt.length := by
  unfold extract at h
  split at h
  next hle =>
    cases h
    exact ⟨rfl, rfl, hle⟩
  · cases h

/-- A header is read off its own bytes. -/
theorem decode_congr {m n : Mem} (h : ∀ i, i < F.size → m i = n i) : F.decode m = F.decode n := by
  have hb : m.bytes 0 F.size = n.bytes 0 F.size := by
    refine List.ext_getElem (by simp) fun i h₁ _ => ?_
    rw [Mem.length_bytes] at h₁
    rw [Mem.getElem_bytes, Mem.getElem_bytes, Nat.zero_add, h i h₁]
  calc F.decode m = F.decode (toMem (F.emit (F.decode m) ++ [])) := (F.decode_emit _ _).symm
    _ = F.decode (toMem (F.emit (F.decode n) ++ [])) := by rw [F.emit_decode, F.emit_decode, hb]
    _ = F.decode n := F.decode_emit _ _

/-- A header that stands in a packet behind `l`. -/
theorem decode_drop (l : List Byte) (x : α) (r : List Byte) :
    F.decode ((toMem (l ++ (F.emit x ++ r))).drop l.length) = x := by
  have h : (toMem (l ++ (F.emit x ++ r))).drop l.length = toMem (F.emit x ++ r) := by
    funext i
    exact toMem_append l _ i
  rw [h, F.decode_emit]

end Format

/-! ### Bits of a byte -/

theorem getLsbD_eq_field {w : Nat} (b : BitVec w) (i : Nat) :
    b.getLsbD i = decide (b.extractLsb' i 1 = 1) := by
  rw [Bool.eq_iff_iff, decide_eq_true_iff]
  constructor
  · intro hb
    ext j hj
    obtain rfl : j = 0 := by omega
    simpa using hb
  · intro hb
    simpa using congrArg (·.getLsbD 0) hb

theorem toNat_high_half (b : Byte) : (b >>> 4).toNat = (b.extractLsb' 4 4).toNat := by
  have := b.isLt
  rw [BitVec.toNat_ushiftRight, BitVec.extractLsb'_toNat, Nat.shiftRight_eq_div_pow]
  omega

/-! ### Numbers in network byte order -/

namespace Mem

/-- The 16-bit number at `o`. -/
def nb16 (m : Mem) (o : Nat) : BitVec 16 := m o ++ m (o + 1)

/-- The 32-bit number at `o`. -/
def nb32 (m : Mem) (o : Nat) : BitVec 32 := m o ++ m (o + 1) ++ m (o + 2) ++ m (o + 3)

/-- The 48-bit number at `o`. -/
def nb48 (m : Mem) (o : Nat) : BitVec 48 :=
  m o ++ m (o + 1) ++ m (o + 2) ++ m (o + 3) ++ m (o + 4) ++ m (o + 5)

end Mem

/-- The bytes of a 48-bit number in network order. -/
def be48 (v : BitVec 48) : List Byte :=
  [v.extractLsb' 40 8, v.extractLsb' 32 8, v.extractLsb' 24 8, v.extractLsb' 16 8,
    v.extractLsb' 8 8, v.extractLsb' 0 8]

theorem append_extract48 (v : BitVec 48) :
    v.extractLsb' 40 8 ++ v.extractLsb' 32 8 ++ v.extractLsb' 24 8 ++ v.extractLsb' 16 8 ++
      v.extractLsb' 8 8 ++ v.extractLsb' 0 8 = v := by
  ext i hi
  simp
  grind

theorem be16_append (a b : Byte) : be16 (a ++ b) = [a, b] := by
  unfold be16
  congr 1
  · ext i hi
    simp
    grind
  · congr 1
    ext i hi
    simp
    grind

theorem be32_append (a b c d : Byte) : be32 (a ++ b ++ c ++ d) = [a, b, c, d] := by
  unfold be32
  simp only [List.cons.injEq, and_true]
  refine ⟨?_, ?_, ?_, ?_⟩ <;> ext i hi <;> simp <;> grind

theorem be48_append (a b c d e f : Byte) :
    be48 (a ++ b ++ c ++ d ++ e ++ f) = [a, b, c, d, e, f] := by
  unfold be48
  simp only [List.cons.injEq, and_true]
  refine ⟨?_, ?_, ?_, ?_, ?_, ?_⟩ <;> ext i hi <;> simp <;> grind

@[simp] theorem be16_nb16 (m : Mem) (o : Nat) : be16 (m.nb16 o) = [m o, m (o + 1)] :=
  be16_append _ _

@[simp] theorem be32_nb32 (m : Mem) (o : Nat) :
    be32 (m.nb32 o) = [m o, m (o + 1), m (o + 2), m (o + 3)] :=
  be32_append _ _ _ _

@[simp] theorem be48_nb48 (m : Mem) (o : Nat) :
    be48 (m.nb48 o) = [m o, m (o + 1), m (o + 2), m (o + 3), m (o + 4), m (o + 5)] :=
  be48_append _ _ _ _ _ _
