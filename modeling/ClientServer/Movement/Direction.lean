import ClientServer.AABBTree.Box
import ClientServer.Movement.Glide
import ClientServer.Schema.Tables
import Mathlib.Analysis.Real.Sqrt

/-!
# Directions

How both programs turn a displacement into the direction and the angle of a mover:
`b2Vec2::Normalize` and `BBMath::UnitVectorToDegree`, with the root and the angle as parameters.

* `course_toward` : with exact roots, what `Normalize` gives is the direction of the course from
  one point to the other.
-/

namespace ClientServer

/-- What movement takes from the mathematics library. -/
structure Geometry (F : Type*) where
  b2Sqrt : F → F
  /-- `BBMath::UnitVectorToDegree`. -/
  unitVectorToDegree : F → F → Int16

/-- The `v2` of a `Vec`, as a point of the plane. -/
def fbVec.xy {F : Type*} (v : fbVec F) : F × F := (v.x, v.y)

namespace Geometry

variable {F : Type*} [Field F] [LinearOrder F] (g : Geometry F)

/-- `b2Vec2::Normalize`, with `b2_epsilon` below every length but `0`. -/
def normalize (v : Vector2 F) : Vector2 F :=
  let length := g.b2Sqrt (v.x * v.x + v.y * v.y)
  if length ≤ 0 then v
  else
    let invLength := 1 / length
    ⟨v.x * invLength, v.y * invLength⟩

/-- The `dir` of a mover at `v`; nothing reads its `z`. -/
def toward (v dest : fbVec F) : fbVec F :=
  let dir := g.normalize ⟨dest.x - v.x, dest.y - v.y⟩
  ⟨dir.x, dir.y, 0⟩

end Geometry

/-! ### Exact arithmetic -/

/-- Exact roots, and any rounding of the angle. -/
noncomputable def exactGeometry (unitVectorToDegree : ℝ → ℝ → Int16) : Geometry ℝ :=
  ⟨Real.sqrt, unitVectorToDegree⟩

/-- The distance in the plane. -/
noncomputable def fbVec.dist (v w : fbVec ℝ) : ℝ := Real.sqrt (normSq (w.xy - v.xy))

/-- `Normalize` gives the direction of the course, and the zero vector where it has no length. -/
theorem course_toward (degree : ℝ → ℝ → Int16) (v w : fbVec ℝ) :
    Course v.xy w.xy ((exactGeometry degree).toward v w).xy (v.dist w) := by
  have hnonneg : 0 ≤ normSq (w.xy - v.xy) :=
    add_nonneg (mul_self_nonneg _) (mul_self_nonneg _)
  refine .of_length (Real.sqrt_nonneg _) (Real.mul_self_sqrt hnonneg) fun h0 => ?_
  have hpos : ¬v.dist w ≤ 0 := not_le.2 (lt_of_le_of_ne (Real.sqrt_nonneg _) (Ne.symm h0))
  have hlength : Real.sqrt ((w.x - v.x) * (w.x - v.x) + (w.y - v.y) * (w.y - v.y)) =
      v.dist w := rfl
  simp only [Geometry.toward, Geometry.normalize, exactGeometry, hlength, if_neg hpos]
  refine Prod.ext ?_ ?_
  · change (w.x - v.x) * (1 / v.dist w) = (v.dist w)⁻¹ * (w.x - v.x)
    rw [one_div, mul_comm]
  · change (w.y - v.y) * (1 / v.dist w) = (v.dist w)⁻¹ * (w.y - v.y)
    rw [one_div, mul_comm]

end ClientServer
