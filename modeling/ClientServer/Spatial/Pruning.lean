import ClientServer.Spatial.Rect
import Mathlib.Algebra.Order.Field.Rat
import Mathlib.Tactic.Linarith

/-!
# Pruning a quad tree

`QuadTree::search` reports an item if the search area overlaps its rectangle.  For a child it does
not look at the items: if the area contains the child it takes them all, otherwise it goes into the
child if the child overlaps the area, the other way round.  Touching is enough for `overlaps` on one
side only.

* `rect.found_iff` : when nothing is missed.
* `rect.taken_iff` : when nothing is taken that would not be reported.
* `rect.soundAt_iff` : **exactly when nothing is missed in a child and nothing taken too much**.
-/

namespace ClientServer

namespace bb

namespace rect

variable {K : Type*} [Field K] [LinearOrder K]

/-- The test for an item. -/
def reports (area r : rect K) : Bool := area.overlaps r

/-- The test to take all items of a child. -/
def takesAll (area child : rect K) : Bool := area.contains child

/-- The test to search a child. -/
def searches (area child : rect K) : Bool := !takesAll area child && child.overlaps area

/-- An item of a child is found if it is to be reported, and only then taken with the others. -/
def SoundAt (area child r : rect K) : Prop :=
  (reports area r = true → takesAll area child = true ∨ searches area child = true) ∧
    (takesAll area child = true → reports area r = true)

/-- No item to be reported touches the far sides of the area together with its child. -/
def NoTouch (area child r : rect K) : Prop :=
  reports area r = true →
    area.pos.x + area.size.x ≠ child.pos.x ∧ area.pos.y + area.size.y ≠ child.pos.y

/-- No item without extent lies on the near sides of an area that takes its child. -/
def NoEdge (area child r : rect K) : Prop :=
  takesAll area child = true →
    (area.pos.x < r.pos.x ∨ 0 < r.size.x) ∧ (area.pos.y < r.pos.y ∨ 0 < r.size.y)

variable {area child r : rect K}

/-- Only the test against the child decides in the end. -/
theorem takesAll_or_searches :
    (takesAll area child = true ∨ searches area child = true) ↔
      takesAll area child = true ∨ child.overlaps area = true := by
  cases h : takesAll area child <;> simp [searches, h]

variable [IsStrictOrderedRing K]

/-- A far side lies behind a point that the near side does not lie behind. -/
theorem lt_far_iff {a x w : K} (hax : a ≤ x) (hw : 0 ≤ w) : a < x + w ↔ a < x ∨ 0 < w := by
  constructor
  · intro h
    rcases hax.lt_or_eq with hlt | rfl
    · exact .inl hlt
    · exact .inr (lt_add_iff_pos_right _ |>.1 h)
  · rintro (h | h)
    · exact h.trans_le (le_add_of_nonneg_right hw)
    · exact hax.trans_lt (lt_add_of_pos_right _ h)

theorem found_iff (hchild : child.contains r = true) (hx : 0 ≤ r.size.x) (hy : 0 ≤ r.size.y) :
    (reports area r = true → takesAll area child = true ∨ searches area child = true) ↔
      NoTouch area child r := by
  refine forall_congr' fun hrep => ?_
  rw [takesAll_or_searches, takesAll, contains_iff, overlaps_iff]
  rw [contains_iff] at hchild
  rw [reports, overlaps_iff] at hrep
  constructor
  · rintro (h | h)
    · constructor
      · intro heq
        linarith
      · intro heq
        linarith
    · exact ⟨h.1.ne', h.2.2.1.ne'⟩
  · rintro ⟨hne, hne'⟩
    right
    refine ⟨lt_of_le_of_ne ?_ hne.symm, ?_, lt_of_le_of_ne ?_ hne'.symm, ?_⟩ <;> linarith

theorem taken_iff (hchild : child.contains r = true) (hx : 0 ≤ r.size.x) (hy : 0 ≤ r.size.y) :
    (takesAll area child = true → reports area r = true) ↔ NoEdge area child r := by
  refine forall_congr' fun htake => ?_
  rw [reports, overlaps_iff]
  rw [contains_iff] at hchild
  rw [takesAll, contains_iff] at htake
  obtain ⟨hcx, hcx', hcy, hcy'⟩ := hchild
  obtain ⟨hax, hax', hay, hay'⟩ := htake
  have hfar : r.pos.x ≤ area.pos.x + area.size.x := by linarith
  have hfar' : r.pos.y ≤ area.pos.y + area.size.y := by linarith
  rw [lt_far_iff (hax.trans hcx) hx, lt_far_iff (hay.trans hcy) hy]
  exact ⟨fun h => ⟨h.1, h.2.2.1⟩, fun h => ⟨h.1, hfar, h.2, hfar'⟩⟩

/-- **When pruning is sound.**  If no item to be reported touches the far sides of the area together
with its child, and none without extent lies on the near sides. -/
theorem soundAt_iff (hchild : child.contains r = true) (hx : 0 ≤ r.size.x) (hy : 0 ≤ r.size.y) :
    SoundAt area child r ↔ NoTouch area child r ∧ NoEdge area child r := by
  rw [SoundAt, found_iff hchild hx hy, taken_iff hchild hx hy]

/-- An area around a child. -/
theorem soundAt_iff_around :
    SoundAt (⟨⟨0, 0⟩, ⟨4, 4⟩⟩ : rect ℚ) ⟨⟨1, 1⟩, ⟨2, 2⟩⟩ ⟨⟨1, 1⟩, ⟨1, 1⟩⟩ :=
  (soundAt_iff (by decide +kernel) (by decide +kernel) (by decide +kernel)).2
    ⟨fun _ => by decide +kernel, fun _ => by decide +kernel⟩

/-- An item on the far side of the area is missed, and one without extent in its corner is taken. -/
theorem not_soundAt :
    ¬SoundAt (⟨⟨0, 0⟩, ⟨1, 1⟩⟩ : rect ℚ) ⟨⟨1, 0⟩, ⟨2, 2⟩⟩ ⟨⟨1, 0⟩, ⟨1, 1⟩⟩ ∧
      ¬SoundAt (⟨⟨0, 0⟩, ⟨4, 4⟩⟩ : rect ℚ) ⟨⟨0, 0⟩, ⟨2, 2⟩⟩ ⟨⟨0, 0⟩, ⟨0, 0⟩⟩ :=
  ⟨fun h => absurd (h.1 (by decide +kernel)) (by decide +kernel),
    fun h => absurd (h.2 (by decide +kernel)) (by decide +kernel)⟩

end rect

end bb

end ClientServer
