import Mathlib.Algebra.Module.Prod
import Mathlib.Algebra.Order.Field.Basic
import Mathlib.Tactic.FieldSimp
import Mathlib.Tactic.Linarith
import Mathlib.Tactic.Positivity
import Mathlib.Tactic.Ring

/-!
# Gliding along a segment

A point of the plane moves towards an end by steps of a fixed length, and jumps onto the end
once it is nearer than a step.  Over any ordered field, with the length of the segment and its
direction given, so that no root is taken.

* `Course.near_iff` : when the rest of the way is shorter than a step.
* `Course.iterate_put`, `Course.iterate_put_arrive` : anything that moves by such steps.
* `Course.iterate_step` : **where the point is after any number of steps**.
* `Course.pos_iterate` : the distance gone is the time times the speed, cut at the length.
-/

namespace ClientServer

variable {F : Type*}

/-- A point of the plane, and while it moves the end and the direction. -/
structure Glider (F : Type*) where
  pos : F × F
  goal : Option ((F × F) × (F × F))

section Defs

variable [Field F]

/-- The square of the length. -/
def normSq (v : F × F) : F := v.1 * v.1 + v.2 * v.2

variable [LinearOrder F]

/-- One step of length `s`. -/
def Glider.step (s : F) (g : Glider F) : Glider F :=
  match g.goal with
  | none => g
  | some (b, d) =>
    if normSq (b - g.pos) < s * s then ⟨b, none⟩ else ⟨g.pos + s • d, some (b, d)⟩

/-- The way from `a` to `b` has the direction `d` and the length `L`. -/
structure Course (a b d : F × F) (L : F) : Prop where
  nonneg : 0 ≤ L
  reach : b = a + L • d
  unit : L = 0 ∨ normSq d = 1

end Defs

variable [Field F] [LinearOrder F] {a b d v : F × F} {L s x : F}

omit [LinearOrder F] in
theorem normSq_smul (x : F) (v : F × F) : normSq (x • v) = x * x * normSq v := by
  simp only [normSq, Prod.smul_fst, Prod.smul_snd, smul_eq_mul]
  ring

variable [IsStrictOrderedRing F]

theorem normSq_eq_zero : normSq v = 0 ↔ v = 0 := by
  constructor
  · intro h
    have h₁ : v.1 * v.1 = 0 := by
      have := mul_self_nonneg v.1
      have := mul_self_nonneg v.2
      unfold normSq at h
      linarith
    have h₂ : v.2 * v.2 = 0 := by
      unfold normSq at h
      linarith
    exact Prod.ext (mul_self_eq_zero.1 h₁) (mul_self_eq_zero.1 h₂)
  · rintro rfl
    simp [normSq]

namespace Course

/-- The direction is the displacement divided by its length; without length it does not
matter. -/
theorem of_length (hL : 0 ≤ L) (hsq : L * L = normSq (b - a))
    (hd : L ≠ 0 → d = L⁻¹ • (b - a)) : Course a b d L := by
  by_cases h0 : L = 0
  · have hab : b - a = 0 := normSq_eq_zero.1 (by rw [← hsq, h0, mul_zero])
    exact ⟨hL, by rw [h0, zero_smul, add_zero, sub_eq_zero.1 hab], .inl h0⟩
  · refine ⟨hL, ?_, .inr ?_⟩
    · rw [hd h0, smul_smul, mul_inv_cancel₀ h0, one_smul, add_sub_cancel]
    · rw [hd h0, normSq_smul, ← hsq]
      field_simp

variable (h : Course a b d L)
include h

omit [IsStrictOrderedRing F] in
theorem sub_eq (x : F) : b - (a + x • d) = (L - x) • d := by
  rw [h.reach, sub_smul, add_sub_add_left_eq_sub]

/-- After the distance `x` the rest of the way is shorter than a step iff the next step would
lead beyond the end. -/
theorem near_iff (hs : 0 < s) (hx : 0 ≤ x) (hxL : x ≤ L) :
    normSq (b - (a + x • d)) < s * s ↔ L < x + s := by
  rw [h.sub_eq, normSq_smul]
  rcases h.unit with h0 | h1
  · obtain rfl : x = 0 := le_antisymm (h0 ▸ hxL) hx
    rw [h0, sub_zero, zero_mul, zero_mul, zero_add]
    exact iff_of_true (mul_pos hs hs) hs
  · rw [h1, mul_one, ← sub_lt_iff_lt_add']
    exact (mul_self_lt_mul_self_iff (sub_nonneg.2 hxL) hs.le).symm

section Moving

variable {X : Type*} {f : X → X} {put : F × F → X} {done : X} {k : ℕ} (hs : 0 < s)
  (hf : ∀ p, f (put p) = if normSq (b - p) < s * s then done else put (p + s • d))
include hs hf

/-- Whatever moves by such steps, and is as `put p` at a place `p` of its way: where it is as long
as the steps are not longer than the way. -/
theorem iterate_put (hk : k * s ≤ L) : f^[k] (put a) = put (a + (k * s) • d) := by
  induction k with
  | zero => simp
  | succ k ih =>
    have hsucc : ((k + 1 : ℕ) : F) * s = k * s + s := by push_cast; ring
    rw [hsucc] at hk ⊢
    have hle : (k : F) * s ≤ L := by linarith
    have hfar := (h.near_iff hs (by positivity) hle).not.2 (not_lt.2 hk)
    rw [Function.iterate_succ_apply', ih hle, hf, if_neg hfar, add_smul, add_assoc]

theorem iterate_put_arrive (hk : k * s ≤ L) (hlt : L < k * s + s) : f^[k + 1] (put a) = done := by
  have hnear := (h.near_iff hs (by positivity) hk).2 hlt
  rw [Function.iterate_succ_apply', h.iterate_put hs hf hk, hf, if_pos hnear]

end Moving

/-- **Where the point is** after `k` steps: on its way as long as these are not longer than the
whole, at the end from then on. -/
theorem iterate_step (hs : 0 < s) (k : ℕ) :
    (Glider.step s)^[k] ⟨a, some (b, d)⟩ =
      if k * s ≤ L then ⟨a + (k * s) • d, some (b, d)⟩ else ⟨b, none⟩ := by
  have hf : ∀ p, Glider.step s ⟨p, some (b, d)⟩ =
      if normSq (b - p) < s * s then ⟨b, none⟩ else ⟨p + s • d, some (b, d)⟩ := fun _ => rfl
  split_ifs with hle
  · exact h.iterate_put hs hf hle
  · induction k with
    | zero => exact absurd h.nonneg (by simpa using hle)
    | succ k ih =>
      by_cases hk : k * s ≤ L
      · exact h.iterate_put_arrive hs hf hk (by push_cast at hle; linarith)
      · rw [Function.iterate_succ_apply', ih hk]
        rfl

theorem pos_iterate (hs : 0 < s) (k : ℕ) :
    ((Glider.step s)^[k] ⟨a, some (b, d)⟩).pos = a + min (k * s) L • d := by
  rw [h.iterate_step hs]
  split_ifs with hle
  · rw [min_eq_left hle]
  · rw [min_eq_right (not_le.1 hle).le]
    exact h.reach

omit [IsStrictOrderedRing F] in
/-- The place after the distance `x`, from the two ends alone. -/
theorem add_smul_eq (hx : 0 ≤ x) (hxL : x ≤ L) : a + x • d = a + (x / L) • (b - a) := by
  have hsub : b - a = L • d := by rw [h.reach, add_sub_cancel_left]
  rw [hsub, smul_smul]
  by_cases hL : L = 0
  · obtain rfl : x = 0 := le_antisymm (hL ▸ hxL) hx
    rw [zero_div, zero_mul]
  · rw [div_mul_cancel₀ _ hL]

theorem exists_convex (hx : 0 ≤ x) (hxL : x ≤ L) :
    ∃ θ : F, 0 ≤ θ ∧ θ ≤ 1 ∧ a + x • d = a + θ • (b - a) :=
  ⟨x / L, div_nonneg hx h.nonneg, div_le_one_of_le₀ hxL h.nonneg, h.add_smul_eq hx hxL⟩

end Course

end ClientServer
