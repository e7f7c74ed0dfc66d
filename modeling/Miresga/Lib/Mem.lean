import Mathlib.Data.BitVec
import Mathlib.Tactic

/-!
# Lib — Memory and byte order

A memory region is its bytes, numbered from the first address (`Mem`).  Words are loaded and
stored as a little-endian host does it (`ld16`, `ld32`, `st16`, `st32`); `bswap16` and `bswap32`
are the byte swaps behind `htons` and `htonl`, so `bswap32 (m.ld32 o)` is the number that stands
at `o` in network byte order (`bswap32_ld32`).

* `copy`: a `memcpy` from the start of one region to the start of another.
* `write`: a list of bytes put at an offset.
* `bytes`: a slice read back as a list.
-/

/-- One octet. -/
abbrev Byte := BitVec 8

/-- A region of memory, byte by byte from its first address. -/
abbrev Mem := Nat → Byte

/-- Reverses the two bytes of a 16-bit word. -/
def bswap16 (v : BitVec 16) : BitVec 16 :=
  v.extractLsb' 0 8 ++ v.extractLsb' 8 8

/-- Reverses the four bytes of a 32-bit word. -/
def bswap32 (v : BitVec 32) : BitVec 32 :=
  v.extractLsb' 0 8 ++ v.extractLsb' 8 8 ++ v.extractLsb' 16 8 ++ v.extractLsb' 24 8

/-- The bytes of a word in network order. -/
def be16 (v : BitVec 16) : List Byte := [v.extractLsb' 8 8, v.extractLsb' 0 8]

/-- The bytes of a word in network order. -/
def be32 (v : BitVec 32) : List Byte :=
  [v.extractLsb' 24 8, v.extractLsb' 16 8, v.extractLsb' 8 8, v.extractLsb' 0 8]

namespace Mem

/-- The 16-bit word at `o`. -/
def ld16 (m : Mem) (o : Nat) : BitVec 16 := m (o + 1) ++ m o

/-- The 32-bit word at `o`. -/
def ld32 (m : Mem) (o : Nat) : BitVec 32 := m (o + 3) ++ m (o + 2) ++ m (o + 1) ++ m o

/-- Stores one byte. -/
def st8 (m : Mem) (o : Nat) (b : Byte) : Mem := fun i => if i = o then b else m i

/-- Stores a 16-bit word. -/
def st16 (m : Mem) (o : Nat) (v : BitVec 16) : Mem :=
  (m.st8 o (v.extractLsb' 0 8)).st8 (o + 1) (v.extractLsb' 8 8)

/-- Stores a 32-bit word. -/
def st32 (m : Mem) (o : Nat) (v : BitVec 32) : Mem :=
  (((m.st8 o (v.extractLsb' 0 8)).st8 (o + 1) (v.extractLsb' 8 8)).st8 (o + 2)
    (v.extractLsb' 16 8)).st8 (o + 3) (v.extractLsb' 24 8)

/-- `dst` with its first `n` bytes taken from `src`. -/
def copy (dst src : Mem) (n : Nat) : Mem := fun i => if i < n then src i else dst i

/-- `m` with the bytes of `l` from `o` on. -/
def write (m : Mem) (o : Nat) (l : List Byte) : Mem :=
  fun i => if o ≤ i then (l[i - o]?).getD (m i) else m i

/-- The `n` bytes from `o` on. -/
def bytes (m : Mem) (o n : Nat) : List Byte := (List.range n).map fun i => m (o + i)

end Mem

/-! ### Splitting and swapping words -/

theorem append_extract16 (v : BitVec 16) : v.extractLsb' 8 8 ++ v.extractLsb' 0 8 = v := by
  ext i hi
  simp
  grind

theorem append_extract32 (v : BitVec 32) :
    v.extractLsb' 24 8 ++ v.extractLsb' 16 8 ++ v.extractLsb' 8 8 ++ v.extractLsb' 0 8 = v := by
  ext i hi
  simp
  grind

theorem bswap16_append (a b : Byte) : bswap16 (a ++ b) = b ++ a := by
  unfold bswap16
  ext i hi
  simp
  grind

theorem bswap32_append (a b c d : Byte) : bswap32 (a ++ b ++ c ++ d) = d ++ c ++ b ++ a := by
  unfold bswap32
  ext i hi
  simp
  grind

@[simp] theorem bswap16_bswap16 (v : BitVec 16) : bswap16 (bswap16 v) = v := by
  conv_lhs => rw [← append_extract16 v]
  rw [bswap16_append, bswap16_append, append_extract16]

@[simp] theorem bswap32_bswap32 (v : BitVec 32) : bswap32 (bswap32 v) = v := by
  conv_lhs => rw [← append_extract32 v]
  rw [bswap32_append, bswap32_append, append_extract32]

theorem bswap16_inj {v w : BitVec 16} : bswap16 v = bswap16 w ↔ v = w :=
  ⟨fun h => by rw [← bswap16_bswap16 v, h, bswap16_bswap16], fun h => by rw [h]⟩

theorem bswap32_inj {v w : BitVec 32} : bswap32 v = bswap32 w ↔ v = w :=
  ⟨fun h => by rw [← bswap32_bswap32 v, h, bswap32_bswap32], fun h => by rw [h]⟩

namespace Mem

/-! ### Stores, byte by byte -/

theorem st8_apply (m : Mem) (o : Nat) (b : Byte) (i : Nat) :
    m.st8 o b i = if i = o then b else m i := rfl

theorem st8_same (m : Mem) (o : Nat) (b : Byte) : m.st8 o b o = b := if_pos rfl

theorem st8_outside {m : Mem} {o i : Nat} (b : Byte) (h : i < o ∨ o < i) : m.st8 o b i = m i :=
  if_neg (by omega)

theorem st16_outside {m : Mem} {o i : Nat} (v : BitVec 16) (h : i < o ∨ o + 2 ≤ i) :
    m.st16 o v i = m i := by
  simp only [st16, st8_apply]
  rw [if_neg (by omega), if_neg (by omega)]

theorem st32_outside {m : Mem} {o i : Nat} (v : BitVec 32) (h : i < o ∨ o + 4 ≤ i) :
    m.st32 o v i = m i := by
  simp only [st32, st8_apply]
  rw [if_neg (by omega), if_neg (by omega), if_neg (by omega), if_neg (by omega)]

theorem copy_apply (dst src : Mem) (n i : Nat) :
    dst.copy src n i = if i < n then src i else dst i := rfl

theorem write_outside {m : Mem} {o i : Nat} (l : List Byte) (h : i < o ∨ o + l.length ≤ i) :
    m.write o l i = m i := by
  unfold write
  split
  · rw [List.getElem?_eq_none (by omega)]; rfl
  · rfl

theorem write_inside {m : Mem} {o i : Nat} {l : List Byte} (h : i < l.length) :
    m.write o l (o + i) = l[i] := by
  simp [write, h]

@[simp] theorem length_bytes (m : Mem) (o n : Nat) : (m.bytes o n).length = n := by
  simp [bytes]

@[simp] theorem getElem_bytes (m : Mem) (o n i : Nat) (h : i < (m.bytes o n).length) :
    (m.bytes o n)[i] = m (o + i) := by
  simp [bytes]

/-- The bytes of `l` stand at `o`. -/
def Holds (m : Mem) (o : Nat) (l : List Byte) : Prop := ∀ i (h : i < l.length), m (o + i) = l[i]

section holds

variable {m : Mem} {o : Nat} {l₁ l₂ : List Byte}

theorem holds_write (m : Mem) (o : Nat) (l : List Byte) : (m.write o l).Holds o l :=
  fun _ h => write_inside h

theorem Holds.left (h : m.Holds o (l₁ ++ l₂)) : m.Holds o l₁ := fun i hi => by
  rw [h i (by simp; omega), List.getElem_append_left hi]

theorem Holds.right (h : m.Holds o (l₁ ++ l₂)) : m.Holds (o + l₁.length) l₂ := fun i hi => by
  have hlt : l₁.length + i < (l₁ ++ l₂).length := by simp [hi]
  rw [Nat.add_assoc, h _ hlt, List.getElem_append_right (Nat.le_add_right _ _)]
  simp

theorem Holds.head {b : Byte} {l : List Byte} (h : m.Holds o (b :: l)) : m o = b := h 0 (by simp)

theorem Holds.tail {b : Byte} {l : List Byte} (h : m.Holds o (b :: l)) : m.Holds (o + 1) l := by
  have h' : m.Holds o ([b] ++ l) := h
  exact h'.right

theorem Holds.bytes {l : List Byte} (h : m.Holds o l) : m.bytes o l.length = l :=
  List.ext_getElem (by simp) fun i h₁ h₂ => by rw [getElem_bytes, h i h₂]

end holds

theorem bytes_append (m : Mem) (o n k : Nat) :
    m.bytes o (n + k) = m.bytes o n ++ m.bytes (o + n) k := by
  unfold bytes
  rw [List.range_add, List.map_append, List.map_map]
  simp [Function.comp_def, Nat.add_assoc]

theorem bytes_succ (m : Mem) (o n : Nat) : m.bytes o (n + 1) = m o :: m.bytes (o + 1) n := by
  rw [Nat.add_comm, bytes_append]
  rfl

theorem drop_bytes (m : Mem) (o n k : Nat) : (m.bytes o n).drop k = m.bytes (o + k) (n - k) :=
  List.ext_getElem (by simp) fun i h₁ h₂ => by simp [Nat.add_assoc]

/-! ### Loads -/

theorem ld16_congr {m n : Mem} {o : Nat} (h : ∀ i, o ≤ i → i < o + 2 → m i = n i) :
    m.ld16 o = n.ld16 o := by
  simp only [ld16, h o (by omega) (by omega), h (o + 1) (by omega) (by omega)]

theorem ld32_congr {m n : Mem} {o : Nat} (h : ∀ i, o ≤ i → i < o + 4 → m i = n i) :
    m.ld32 o = n.ld32 o := by
  simp only [ld32, h o (by omega) (by omega), h (o + 1) (by omega) (by omega),
    h (o + 2) (by omega) (by omega), h (o + 3) (by omega) (by omega)]

theorem ld16_shift {m n : Mem} {o p : Nat} (h : ∀ i, i < 2 → m (o + i) = n (p + i)) :
    m.ld16 o = n.ld16 p := by
  simp only [ld16, h 1 (by omega), show m o = n p from h 0 (by omega)]

theorem ld32_shift {m n : Mem} {o p : Nat} (h : ∀ i, i < 4 → m (o + i) = n (p + i)) :
    m.ld32 o = n.ld32 p := by
  simp only [ld32, h 1 (by omega), h 2 (by omega), h 3 (by omega),
    show m o = n p from h 0 (by omega)]

@[simp] theorem ld16_st16 (m : Mem) (o : Nat) (v : BitVec 16) : (m.st16 o v).ld16 o = v := by
  simp [ld16, st16, st8_apply, append_extract16]

@[simp] theorem ld32_st32 (m : Mem) (o : Nat) (v : BitVec 32) : (m.st32 o v).ld32 o = v := by
  simp [ld32, st32, st8_apply, append_extract32]

/-! ### Loads past stores elsewhere -/

section disjoint

variable {m : Mem} {o p : Nat}

theorem ld16_st8_ne (v : Byte) (h : p < o ∨ o + 2 ≤ p) : (m.st8 p v).ld16 o = m.ld16 o :=
  ld16_congr fun i _ _ => by rw [st8_apply, if_neg (by omega)]

theorem ld16_st16_ne (v : BitVec 16) (h : p + 2 ≤ o ∨ o + 2 ≤ p) :
    (m.st16 p v).ld16 o = m.ld16 o :=
  ld16_congr fun i _ _ => st16_outside v (by omega)

theorem ld16_st32_ne (v : BitVec 32) (h : p + 4 ≤ o ∨ o + 2 ≤ p) :
    (m.st32 p v).ld16 o = m.ld16 o :=
  ld16_congr fun i _ _ => st32_outside v (by omega)

theorem ld16_write_ne (l : List Byte) (h : p + l.length ≤ o ∨ o + 2 ≤ p) :
    (m.write p l).ld16 o = m.ld16 o :=
  ld16_congr fun i _ _ => write_outside l (by omega)

theorem ld16_copy (src : Mem) {n : Nat} (h : o + 2 ≤ n) : (m.copy src n).ld16 o = src.ld16 o :=
  ld16_congr fun i _ _ => by rw [copy_apply, if_pos (by omega)]

theorem ld32_st8_ne (v : Byte) (h : p < o ∨ o + 4 ≤ p) : (m.st8 p v).ld32 o = m.ld32 o :=
  ld32_congr fun i _ _ => by rw [st8_apply, if_neg (by omega)]

theorem ld32_st16_ne (v : BitVec 16) (h : p + 2 ≤ o ∨ o + 4 ≤ p) :
    (m.st16 p v).ld32 o = m.ld32 o :=
  ld32_congr fun i _ _ => st16_outside v (by omega)

theorem ld32_st32_ne (v : BitVec 32) (h : p + 4 ≤ o ∨ o + 4 ≤ p) :
    (m.st32 p v).ld32 o = m.ld32 o :=
  ld32_congr fun i _ _ => st32_outside v (by omega)

theorem ld32_write_ne (l : List Byte) (h : p + l.length ≤ o ∨ o + 4 ≤ p) :
    (m.write p l).ld32 o = m.ld32 o :=
  ld32_congr fun i _ _ => write_outside l (by omega)

theorem ld32_copy (src : Mem) {n : Nat} (h : o + 4 ≤ n) : (m.copy src n).ld32 o = src.ld32 o :=
  ld32_congr fun i _ _ => by rw [copy_apply, if_pos (by omega)]

end disjoint

/-- The number that stands at `o` in network byte order. -/
theorem bswap16_ld16 (m : Mem) (o : Nat) : bswap16 (m.ld16 o) = m o ++ m (o + 1) :=
  bswap16_append _ _

/-- The number that stands at `o` in network byte order. -/
theorem bswap32_ld32 (m : Mem) (o : Nat) :
    bswap32 (m.ld32 o) = m o ++ m (o + 1) ++ m (o + 2) ++ m (o + 3) :=
  bswap32_append _ _ _ _

end Mem
