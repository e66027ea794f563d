import Mathlib.Logic.Function.Basic

/-!
# Mutual exclusion by a flag

A flag that is set by whoever comes in, when it is not set, and cleared by whoever leaves, lets in
one at a time.

* `Excludes` : at most one is inside, and the flag is set while somebody is.
* `Excludes.enter`, `Excludes.leave`, `Excludes.move` : the ways to change who is inside.
-/

namespace ClientServer

/-- At most one of all `T` is inside, and `flag` says whether there is one. -/
structure Excludes {T : Type*} (flag : Bool) (inside : T → Prop) : Prop where
  unique : ∀ t u, inside t → inside u → t = u
  flag_iff : flag = true ↔ ∃ t, inside t

namespace Excludes

variable {T : Type*} {flag : Bool} {inside inside' : T → Prop} {t : T}

theorem enter (h : Excludes false inside) (hin : inside' t)
    (hother : ∀ u, u ≠ t → (inside' u ↔ inside u)) : Excludes true inside' := by
  have hnone : ∀ u, ¬inside u := fun u hu => Bool.false_ne_true (h.flag_iff.2 ⟨u, hu⟩)
  have ht : ∀ u, inside' u → u = t := fun u hu => by
    by_contra hne
    exact hnone u ((hother u hne).1 hu)
  exact ⟨fun u v hu hv => (ht u hu).trans (ht v hv).symm, iff_of_true rfl ⟨t, hin⟩⟩

theorem leave (h : Excludes flag inside) (hin : inside t) (hout : ¬inside' t)
    (hother : ∀ u, u ≠ t → (inside' u ↔ inside u)) : Excludes false inside' := by
  have hnone : ∀ u, ¬inside' u := fun u hu => by
    have hne : u ≠ t := by
      rintro rfl
      exact hout hu
    exact hne (h.unique u t ((hother u hne).1 hu) hin)
  exact ⟨fun u _ hu => absurd hu (hnone u), iff_of_false Bool.false_ne_true fun ⟨u, hu⟩ => hnone u hu⟩

theorem move (h : Excludes flag inside) (hsame : ∀ u, inside' u ↔ inside u) :
    Excludes flag inside' :=
  ⟨fun t u ht hu => h.unique t u ((hsame t).1 ht) ((hsame u).1 hu), by simp only [h.flag_iff, hsame]⟩

theorem not_inside (h : Excludes flag inside) (hin : inside t) {u : T} (hne : u ≠ t) : ¬inside u :=
  fun hu => hne (h.unique u t hu hin)

end Excludes

end ClientServer
