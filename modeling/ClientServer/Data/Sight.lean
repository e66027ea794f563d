import Mathlib.Data.Set.Basic

/-!
# Who sees whom

A relation `R` on observers, `R x y` for "`x` has `y` in view", and what two events do to it.
In `look R c N` the observer `c` looks around and finds `N`: those new to it get it in view, and
those it no longer finds are **not** told.  In `vanish R c` the observer `c` goes away, and only
those it had in view drop it.

* `mutual_look_iff` : looking keeps the sight mutual iff nobody falls out of view.
* `closed_vanish_iff` : nobody keeps the one that went away iff it saw all that saw it.
-/

namespace ClientServer

namespace Sight

variable {α : Type*} (R : α → α → Prop) (c : α) (N : Set α)

/-- `c` looks around and finds `N`. -/
def look : α → α → Prop := fun x y =>
  (x = c ∧ y ∈ N) ∨ (x ≠ c ∧ (R x y ∨ (y = c ∧ x ∈ N ∧ ¬R c x)))

/-- `c` goes away. -/
def vanish : α → α → Prop := fun x y => x ≠ c ∧ R x y ∧ ¬(y = c ∧ R c x)

/-- Whoever is seen sees back. -/
def Mutual : Prop := ∀ ⦃x y⦄, R x y → R y x

/-- The members of `V` see only members of `V`. -/
def Closed (V : Set α) : Prop := ∀ x ∈ V, ∀ y, R x y → y ∈ V

variable {R c N} {V : Set α} {x y : α}

theorem look_self : look R c N c y ↔ y ∈ N := by simp [look]

theorem look_of_ne (h : x ≠ c) : look R c N x y ↔ R x y ∨ (y = c ∧ x ∈ N ∧ ¬R c x) := by
  simp [look, h]

/-- The view of an observer that `c` does not newly find stays as it is. -/
theorem look_of_seen (h : x ≠ c) (hx : x ∈ N → R c x) : look R c N x y ↔ R x y := by
  rw [look_of_ne h, or_iff_left]
  rintro ⟨-, hN, hR⟩
  exact hR (hx hN)

/-! ### Irreflexive relations -/

theorem look_irrefl (hR : ∀ x, ¬R x x) (hc : c ∉ N) : ∀ x, ¬look R c N x x := by
  rintro x (⟨rfl, hN⟩ | ⟨hx, hxx | ⟨rfl, -⟩⟩)
  · exact hc hN
  · exact hR x hxx
  · exact hx rfl

theorem vanish_irrefl (hR : ∀ x, ¬R x x) : ∀ x, ¬vanish R c x x := fun x h => hR x h.2.1

/-! ### Mutual sight -/

/-- **Looking keeps the sight mutual iff nobody falls out of view.** -/
theorem mutual_look_iff (hR : Mutual R) (hirr : ∀ x, ¬R x x) (hc : c ∉ N) :
    Mutual (look R c N) ↔ ∀ x, R c x → x ∈ N := by
  constructor
  · intro h x hx
    have hxc : x ≠ c := fun hxc => hirr c (hxc ▸ hx)
    exact look_self.1 (h ((look_of_ne hxc).2 (.inl (hR hx))))
  · intro h x y hxy
    by_cases hx : x = c
    · subst hx
      have hy : y ∈ N := look_self.1 hxy
      have hyx : y ≠ x := fun e => hc (e ▸ hy)
      by_cases hsee : R x y
      · exact (look_of_ne hyx).2 (.inl (hR hsee))
      · exact (look_of_ne hyx).2 (.inr ⟨rfl, hy, hsee⟩)
    · by_cases hy : y = c
      · subst hy
        rcases (look_of_ne hx).1 hxy with hsee | ⟨-, hN, -⟩
        · exact look_self.2 (h x (hR hsee))
        · exact look_self.2 hN
      · rw [look_of_ne hx] at hxy
        rcases hxy with hsee | ⟨hyc, -⟩
        · exact (look_of_ne hy).2 (.inl (hR hsee))
        · exact absurd hyc hy

/-- Where the sight is mutual all that see `c` are told when it goes away. -/
theorem mutual_vanish (hR : Mutual R) : Mutual (vanish R c) := by
  rintro x y ⟨hx, hxy, hgone⟩
  have hy : y ≠ c := by
    rintro rfl
    exact hgone ⟨rfl, hR hxy⟩
  exact ⟨hy, hR hxy, fun h => hx h.1⟩

/-! ### Closed relations -/

theorem closed_look (hR : Closed R V) (hN : N ⊆ V) : Closed (look R c N) (insert c V) := by
  rintro x hx y (⟨-, hy⟩ | ⟨hxc, hy | ⟨rfl, -⟩⟩)
  · exact .inr (hN hy)
  · exact .inr (hR x (hx.resolve_left hxc) y hy)
  · exact .inl rfl

/-- **Nobody keeps the one that went away iff it saw all that saw it.** -/
theorem closed_vanish_iff (hR : Closed R V) :
    Closed (vanish R c) (V \ {c}) ↔ ∀ x ∈ V, x ≠ c → R x c → R c x := by
  constructor
  · intro h x hx hxc hsee
    by_contra hno
    exact (h x ⟨hx, hxc⟩ c ⟨hxc, hsee, fun hboth => hno hboth.2⟩).2 rfl
  · rintro h x ⟨hx, hxc⟩ y ⟨-, hxy, hgone⟩
    refine ⟨hR x hx y hxy, fun hyc => ?_⟩
    obtain rfl : y = c := hyc
    exact hgone ⟨rfl, h x hx hxc hxy⟩

end Sight

end ClientServer
