import Mathlib.Algebra.Order.Field.Basic

/-!
# Rectangles

`bb::vec2` and `bb::rect`, with coordinates in an ordered field `K` (exact arithmetic).
`rect.contains` is closed on the sides of the position and open on the opposite ones.
`rect.overlaps` is strict on one side and not on the other, so it is not symmetric.
-/

namespace ClientServer

namespace bb

/-- A point or a size. -/
structure vec2 (K : Type*) where
  x : K
  y : K
  deriving DecidableEq

/-- A rectangle. -/
structure rect (K : Type*) where
  pos : vec2 K
  size : vec2 K
  deriving DecidableEq

namespace rect

variable {K : Type*} [Field K] [LinearOrder K]

/-- `rect()`. -/
def default : rect K := ⟨⟨0, 0⟩, ⟨1, 1⟩⟩

/-- `contains(r)`. -/
def contains (a r : rect K) : Bool :=
  r.pos.x ≥ a.pos.x ∧ r.pos.x + r.size.x < a.pos.x + a.size.x ∧
    r.pos.y ≥ a.pos.y ∧ r.pos.y + r.size.y < a.pos.y + a.size.y

/-- `overlaps(r)`. -/
def overlaps (a r : rect K) : Bool :=
  a.pos.x < r.pos.x + r.size.x ∧ a.pos.x + a.size.x ≥ r.pos.x ∧
    a.pos.y < r.pos.y + r.size.y ∧ a.pos.y + a.size.y ≥ r.pos.y

theorem contains_iff {a r : rect K} : a.contains r = true ↔
    a.pos.x ≤ r.pos.x ∧ r.pos.x + r.size.x < a.pos.x + a.size.x ∧
      a.pos.y ≤ r.pos.y ∧ r.pos.y + r.size.y < a.pos.y + a.size.y := by
  simp [contains]

theorem overlaps_iff {a r : rect K} : a.overlaps r = true ↔
    a.pos.x < r.pos.x + r.size.x ∧ r.pos.x ≤ a.pos.x + a.size.x ∧
      a.pos.y < r.pos.y + r.size.y ∧ r.pos.y ≤ a.pos.y + a.size.y := by
  simp [overlaps]

end rect

end bb

end ClientServer
