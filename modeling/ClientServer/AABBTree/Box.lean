import Mathlib.Algebra.Order.Field.Basic

/-!
# Axis-aligned boxes

`Vector2` and `AABB2` of `bb_math.h`, with coordinates in an ordered field `K` (exact
arithmetic).  `AABB2.union` and `AABB2.contains` are `Union` and `AABB2::Contains`; the latter
is strict on all four sides.  `AABB2.testOverlap` is `TestOverlap`, where touching is enough.
-/

namespace ClientServer

/-- A point or a displacement. -/
structure Vector2 (K : Type*) where
  x : K
  y : K
  deriving DecidableEq, Inhabited

/-- An axis-aligned box. -/
structure AABB2 (K : Type*) where
  min : Vector2 K
  max : Vector2 K
  deriving DecidableEq, Inhabited

namespace AABB2

variable {K : Type*}

section Order

variable [LinearOrder K]

/-- `Contains(other)`: the other box lies strictly inside. -/
def contains (a other : AABB2 K) : Bool :=
  if a.min.x ≥ other.min.x ∨ a.max.x ≤ other.max.x then false
  else if a.min.y ≥ other.min.y ∨ a.max.y ≤ other.max.y then false
  else true

/-- `Union(a, b)`. -/
def union (a b : AABB2 K) : AABB2 K :=
  ⟨⟨Min.min a.min.x b.min.x, Min.min a.min.y b.min.y⟩,
   ⟨Max.max a.max.x b.max.x, Max.max a.max.y b.max.y⟩⟩

theorem union_comm (a b : AABB2 K) : union a b = union b a := by
  simp only [union, min_comm, max_comm]

theorem union_assoc (a b c : AABB2 K) : union (union a b) c = union a (union b c) := by
  simp only [union, min_assoc, max_assoc]

theorem contains_iff {a b : AABB2 K} : a.contains b = true ↔
    a.min.x < b.min.x ∧ b.max.x < a.max.x ∧ a.min.y < b.min.y ∧ b.max.y < a.max.y := by
  unfold contains
  split_ifs with h₁ h₂ <;> grind

/-- `TestOverlap(a, b)`. -/
def testOverlap (a b : AABB2 K) : Bool :=
  if a.min.x ≤ b.max.x ∧ a.max.x ≥ b.min.x ∧ a.min.y ≤ b.max.y ∧ a.max.y ≥ b.min.y then true
  else false

theorem testOverlap_iff {a b : AABB2 K} : a.testOverlap b = true ↔
    a.min.x ≤ b.max.x ∧ b.min.x ≤ a.max.x ∧ a.min.y ≤ b.max.y ∧ b.min.y ≤ a.max.y := by
  unfold testOverlap
  split_ifs with h
  · exact iff_of_true rfl h
  · exact iff_of_false (by simp) h

theorem testOverlap_union {a b c : AABB2 K} (h : a.testOverlap b = true ∨ a.testOverlap c = true) :
    a.testOverlap (union b c) = true := by
  simp only [testOverlap_iff] at h ⊢
  simp only [union, le_max_iff, min_le_iff]
  tauto

end Order

section Field

variable [Field K]

/-- `width()`. -/
def width (a : AABB2 K) : K := a.max.x - a.min.x

/-- `height()`. -/
def height (a : AABB2 K) : K := a.max.y - a.min.y

/-- `SurfaceArea()`. -/
def surfaceArea (a : AABB2 K) : K := a.width * a.height

end Field

end AABB2

end ClientServer
