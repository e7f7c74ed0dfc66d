import Miresga.Lib.Mem

/-!
# Lib — Writing at a cursor

A program that fills a buffer keeps a cursor, and need not look at the buffer's size.  A store that
would touch a byte behind the buffer has no result (`Cursor.store`).

`Appends size f l` says of a writer `f` that it puts the bytes `l` behind what was written so far if
there is room for them, and that it leaves the buffer if there is not.  Writers that do so are closed
under sequence (`Appends.seq`) and loops (`Appends.foldlM`).
-/

/-- A buffer and the place where the next byte goes. -/
structure Cursor where
  buffer : Mem
  pos : Nat

namespace Cursor

/-- Stores bytes at the cursor, in a buffer of the given size. -/
def store (size : Nat) (l : List Byte) (c : Cursor) : Option Cursor :=
  if c.pos + l.length ≤ size then some { c with buffer := c.buffer.write c.pos l } else none

def advance (n : Nat) (c : Cursor) : Cursor := { c with pos := c.pos + n }

/-- Stores bytes and moves the cursor behind them. -/
def put (size : Nat) (l : List Byte) (c : Cursor) : Option Cursor :=
  (c.store size l).map (advance l.length)

/-- The bytes in front of the cursor. -/
def written (c : Cursor) : List Byte := c.buffer.bytes 0 c.pos

/-- The bytes in front of the cursor are `w`, and the cursor has not passed the end. -/
structure Wrote (size : Nat) (c : Cursor) (w : List Byte) : Prop where
  pos : c.pos = w.length
  holds : c.buffer.Holds 0 w
  le : w.length ≤ size

variable {size : Nat} {c : Cursor} {w : List Byte}

theorem Wrote.written (h : c.Wrote size w) : c.written = w := by
  rw [Cursor.written, h.pos]
  exact h.holds.bytes

/-- Bytes that are stored stand behind those written so far. -/
theorem Wrote.store (h : c.Wrote size w) (l : List Byte) :
    (c.buffer.write c.pos l).Holds 0 (w ++ l) := by
  intro i hi
  rw [List.length_append] at hi
  rw [Nat.zero_add, h.pos]
  by_cases hlt : i < w.length
  · have hw := h.holds i hlt
    rw [Nat.zero_add] at hw
    rw [Mem.write_outside _ (.inl hlt), List.getElem_append_left hlt, hw]
  · obtain ⟨j, rfl⟩ : ∃ j, i = w.length + j := ⟨i - w.length, by omega⟩
    rw [Mem.write_inside (by omega), List.getElem_append_right (by omega)]
    simp

end Cursor

open Cursor

/-- The writer puts `l` behind what was written, or leaves the buffer. -/
structure Appends (size : Nat) (f : Cursor → Option Cursor) (l : List Byte) : Prop where
  fits : ∀ {c w}, c.Wrote size w → w.length + l.length ≤ size →
    ∃ c', f c = some c' ∧ c'.Wrote size (w ++ l)
  passes : ∀ {c w}, c.Wrote size w → size < w.length + l.length → f c = none

namespace Appends

variable {size : Nat} {f g : Cursor → Option Cursor} {l k : List Byte}

theorem put (size : Nat) (l : List Byte) : Appends size (Cursor.put size l) l where
  fits {c w} h hle := by
    refine ⟨(⟨c.buffer.write c.pos l, c.pos⟩ : Cursor).advance l.length, ?_, ?_, h.store l, ?_⟩
    · rw [Cursor.put, store, if_pos (by rw [h.pos]; exact hle)]
      rfl
    · rw [List.length_append, ← h.pos]
      rfl
    · rwa [List.length_append]
  passes {c w} h hlt := by
    rw [Cursor.put, store, if_neg (by rw [h.pos]; omega)]
    rfl

/-- Two writers, one after the other. -/
theorem seq (hf : Appends size f l) (hg : Appends size g k) :
    Appends size (fun c => (f c).bind g) (l ++ k) where
  fits {c w} h hle := by
    rw [List.length_append] at hle
    obtain ⟨c₁, h₁, hw₁⟩ := hf.fits h (by omega)
    obtain ⟨c₂, h₂, hw₂⟩ := hg.fits hw₁ (by rw [List.length_append]; omega)
    rw [List.append_assoc] at hw₂
    exact ⟨c₂, by rw [h₁]; exact h₂, hw₂⟩
  passes {c w} h hlt := by
    rw [List.length_append] at hlt
    by_cases hl : w.length + l.length ≤ size
    · obtain ⟨c₁, h₁, hw₁⟩ := hf.fits h hl
      rw [h₁]
      exact hg.passes hw₁ (by rw [List.length_append]; omega)
    · rw [hf.passes h (by omega)]
      rfl

/-- The end of what was stored may be stored once more. -/
theorem again (size : Nat) (l k : List Byte) :
    Appends size (fun c => (c.store size (l ++ k)).bind fun c => (c.advance l.length).put size k)
      (l ++ k) where
  fits {c w} h hle := by
    rw [store, if_pos (by rw [h.pos]; exact hle)]
    rw [List.length_append] at hle
    have hw : Wrote size (advance l.length ⟨c.buffer.write c.pos (l ++ k), c.pos⟩) (w ++ l) := by
      refine ⟨?_, ?_, by rw [List.length_append]; omega⟩
      · rw [List.length_append, ← h.pos]
        rfl
      · have hs := h.store (l ++ k)
        rw [← List.append_assoc] at hs
        exact hs.left
    obtain ⟨c', h', hw'⟩ := (put size k).fits hw (by rw [List.length_append]; omega)
    rw [List.append_assoc] at hw'
    exact ⟨c', h', hw'⟩
  passes {c w} h hlt := by
    rw [store, if_neg (by rw [h.pos]; omega)]
    rfl

/-- **A loop** over entries, each of which is appended. -/
theorem foldlM {α : Type} {f : Cursor → α → Option Cursor} {bytes : α → List Byte}
    (hf : ∀ a, Appends size (f · a) (bytes a)) (as : List α) :
    Appends size (as.foldlM f ·) (as.flatMap bytes) := by
  induction as with
  | nil =>
      refine ⟨fun h _ => ⟨_, rfl, by rw [List.flatMap_nil, List.append_nil]; exact h⟩, fun h hlt => ?_⟩
      exact absurd h.le (Nat.not_le.mpr hlt)
  | cons a as ih =>
      have h := (hf a).seq ih
      exact h

end Appends
