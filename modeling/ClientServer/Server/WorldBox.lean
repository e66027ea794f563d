import ClientServer.AABBTree.Box
import ClientServer.Schema.Tables

/-!
# Boxes of the world tree

`b2AABB` of box2d, with coordinates in an ordered field (exact arithmetic): the box of a circle
shape, the square of a query, and the tests of `b2WorldTree`.
-/

namespace ClientServer

/-- `b2AABB`. -/
structure b2AABB (F : Type*) where
  lowerBound : Vector2 F
  upperBound : Vector2 F
  deriving DecidableEq

namespace b2AABB

variable {F : Type*} [Field F]

/-- The box around `pos` that reaches `r` to every side: of a circle shape
(`b2CircleShape::ComputeAABB`, without rotation) and of a query. -/
def around (pos : fbVec F) (r : F) : b2AABB F :=
  ⟨⟨pos.x - r, pos.y - r⟩, ⟨pos.x + r, pos.y + r⟩⟩

/-- The radius that `NpcSystem::CreateNpc` spawns a body with, `5.f`. -/
def npcRadius : F := 5

/-- The radius that `UserSystem::CreatePc` spawns a body with, `0.6f`. -/
def pcRadius : F := 3 / 5

/-- The boundary that `Region::Initialize` sets. -/
def boundary : b2AABB F := ⟨⟨-100, -100⟩, ⟨100, 100⟩⟩

variable [LinearOrder F]

/-- `b2AABB::Contains`. -/
def contains (a b : b2AABB F) : Bool :=
  a.lowerBound.x ≤ b.lowerBound.x ∧ a.lowerBound.y ≤ b.lowerBound.y ∧
    b.upperBound.x ≤ a.upperBound.x ∧ b.upperBound.y ≤ a.upperBound.y

/-- `b2TestOverlap`. -/
def testOverlap (a b : b2AABB F) : Bool :=
  if b.lowerBound.x - a.upperBound.x > 0 ∨ b.lowerBound.y - a.upperBound.y > 0 then false
  else if a.lowerBound.x - b.upperBound.x > 0 ∨ a.lowerBound.y - b.upperBound.y > 0 then false
  else true

end b2AABB

end ClientServer
