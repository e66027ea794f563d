import Mathlib.Data.Int.Notation
import Mathlib.Logic.Function.Basic

/-!
# Stores of cells

A `Store α` is a resizable array of cells addressed by integers: the cells and the number of
them.  Reading and writing are total, so a program over a store is an ordinary function; that
a program stays inside `0 … size - 1` is a statement about it, not a side condition of every
read.

The lemmas say what a read sees after a write or a resize.
-/

namespace ClientServer

/-- A resizable array of cells. -/
structure Store (α : Type*) where
  /-- The number of cells. -/
  size : ℤ
  /-- The content of a cell. -/
  cell : ℤ → α

namespace Store

variable {α : Type*}

/-- `n` copies of `a`. -/
def replicate (n : ℤ) (a : α) : Store α := ⟨n, fun _ => a⟩

/-- Rewrite cell `i` by `f`. -/
def modify (s : Store α) (i : ℤ) (f : α → α) : Store α :=
  { s with cell := Function.update s.cell i (f (s.cell i)) }

/-- Change the number of cells to `n`; the cells added hold `a`. -/
def resize (s : Store α) (n : ℤ) (a : α) : Store α :=
  ⟨n, fun i => if i < s.size then s.cell i else a⟩

variable (s : Store α) {i j : ℤ} (f : α → α)

@[simp] theorem cell_modify_self : (s.modify i f).cell i = f (s.cell i) := by simp [modify]

theorem cell_modify_of_ne (h : j ≠ i) : (s.modify i f).cell j = s.cell j := by simp [modify, h]

theorem cell_modify : (s.modify i f).cell j = if j = i then f (s.cell i) else s.cell j := by
  simp [modify, Function.update_apply]

theorem cell_resize_of_lt {n : ℤ} {a : α} (h : j < s.size) :
    (s.resize n a).cell j = s.cell j := by simp [resize, h]

end Store

end ClientServer
