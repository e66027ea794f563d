import Mathlib.Algebra.Order.Ring.Unbundled.Rat
import Mathlib.Data.Int.Log
import Mathlib.Data.Rat.Floor
import Mathlib.Tactic.Linarith
import Mathlib.Tactic.NormNum
import Mathlib.Tactic.Positivity
import Mathlib.Tactic.Ring

/-!
# Rounding

The nearest number with `p` binary digits, and of two of them the one with an even last digit.  There
are such numbers of any size: what is rounded here neither overflows nor underflows.

* `roundTo` : the rounding.
* `roundTo_mono`, `roundTo_roundTo` : it keeps the order, and what is rounded already.
* `near_roundTo` : **its error**; `Near.trans` and `Near.mul` are how errors add up.
-/

namespace ClientServer

/-! ### To an integer -/

/-- The nearest integer, or the even one of two. -/
def roundHalfEven (x : ℚ) : ℤ :=
  if Int.fract x < 1 / 2 ∨ Int.fract x = 1 / 2 ∧ ⌊x⌋ % 2 = 0 then ⌊x⌋ else ⌊x⌋ + 1

theorem roundHalfEven_intCast (n : ℤ) : roundHalfEven n = n := by
  simp [roundHalfEven]

theorem abs_roundHalfEven_sub_le (x : ℚ) : |(roundHalfEven x : ℚ) - x| ≤ 1 / 2 := by
  have hfract : x = ⌊x⌋ + Int.fract x := (Int.floor_add_fract x).symm
  have hnonneg := Int.fract_nonneg x
  unfold roundHalfEven
  rw [abs_le]
  split_ifs with h
  · have hle : Int.fract x ≤ 1 / 2 := h.elim le_of_lt fun h => h.1.le
    constructor <;> linarith
  · have hge : 1 / 2 ≤ Int.fract x := not_lt.1 fun hlt => h (.inl hlt)
    have hlt := Int.fract_lt_one x
    push_cast
    constructor <;> linarith

theorem floor_le_roundHalfEven (x : ℚ) : ⌊x⌋ ≤ roundHalfEven x ∧ roundHalfEven x ≤ ⌊x⌋ + 1 := by
  unfold roundHalfEven
  split_ifs <;> omega

theorem roundHalfEven_mono {x y : ℚ} (h : x ≤ y) : roundHalfEven x ≤ roundHalfEven y := by
  rcases (Int.floor_mono h).lt_or_eq with hlt | heq
  · have hx := (floor_le_roundHalfEven x).2
    have hy := (floor_le_roundHalfEven y).1
    omega
  · -- between the same integers, what is rounded up is past the middle
    have hfract : Int.fract x ≤ Int.fract y := by
      rw [Int.fract, Int.fract, heq]
      exact sub_le_sub_right h _
    unfold roundHalfEven
    rw [heq]
    split_ifs with hx hy
    · exact le_rfl
    · omega
    · refine absurd ?_ hx
      rcases ‹Int.fract y < 1 / 2 ∨ _› with hlt | ⟨heven, hmod⟩
      · exact .inl (hfract.trans_lt hlt)
      · exact (hfract.trans_eq heven).lt_or_eq.imp_right fun heq => ⟨heq, hmod⟩
    · exact le_rfl

/-! ### To some digits -/

/-- The last digit of a number with `p` digits stands for this much. -/
def ulp (p : ℕ) (x : ℚ) : ℚ := 2 ^ (Int.log 2 |x| - (p - 1))

/-- The nearest number with `p` digits. -/
def roundTo (p : ℕ) (x : ℚ) : ℚ := roundHalfEven (x / ulp p x) * ulp p x

variable {p : ℕ} {x y z : ℚ}

theorem ulp_pos : 0 < ulp p x := zpow_pos two_pos _

theorem two_pow_mul_ulp (hp : 0 < p) : ((2 ^ (p - 1) : ℤ) : ℚ) * ulp p x = 2 ^ Int.log 2 |x| := by
  rw [ulp, Int.cast_pow, Int.cast_ofNat, ← zpow_natCast, ← zpow_add₀ two_ne_zero]
  congr 1
  omega

theorem two_pow_mul_ulp_succ (p : ℕ) (x : ℚ) :
    ((2 ^ p : ℤ) : ℚ) * ulp p x = 2 ^ (Int.log 2 |x| + 1) := by
  rw [ulp, Int.cast_pow, Int.cast_ofNat, ← zpow_natCast, ← zpow_add₀ two_ne_zero]
  congr 1
  ring

theorem zpow_log_le (hx : 0 < x) : (2 : ℚ) ^ Int.log 2 |x| ≤ x := by
  rw [abs_of_pos hx]
  exact_mod_cast Int.zpow_log_le_self one_lt_two hx

theorem lt_zpow_log (hx : 0 ≤ x) : x < (2 : ℚ) ^ (Int.log 2 |x| + 1) := by
  rw [abs_of_nonneg hx]
  exact_mod_cast Int.lt_zpow_succ_log_self one_lt_two x

/-- A multiple of the last digit is not passed. -/
theorem le_roundTo {n : ℤ} (h : n * ulp p x ≤ x) : n * ulp p x ≤ roundTo p x := by
  have hround := roundHalfEven_mono ((le_div_iff₀ ulp_pos).2 h)
  rw [roundHalfEven_intCast] at hround
  exact mul_le_mul_of_nonneg_right (by exact_mod_cast hround) ulp_pos.le

theorem roundTo_le {n : ℤ} (h : x ≤ n * ulp p x) : roundTo p x ≤ n * ulp p x := by
  have hround := roundHalfEven_mono ((div_le_iff₀ ulp_pos).2 h)
  rw [roundHalfEven_intCast] at hround
  exact mul_le_mul_of_nonneg_right (by exact_mod_cast hround) ulp_pos.le

theorem roundTo_of_eq {n : ℤ} (h : x = n * ulp p x) : roundTo p x = x :=
  le_antisymm ((roundTo_le h.le).trans_eq h.symm) (h.le.trans (le_roundTo h.ge))

@[simp] theorem roundTo_zero : roundTo p 0 = 0 :=
  roundTo_of_eq (n := 0) (by simp)

theorem roundTo_nonneg (hx : 0 ≤ x) : 0 ≤ roundTo p x := by
  simpa using le_roundTo (p := p) (n := 0) (by simpa using hx)

theorem zpow_log_le_roundTo (hp : 0 < p) (hx : 0 < x) :
    (2 : ℚ) ^ Int.log 2 |x| ≤ roundTo p x := by
  rw [← two_pow_mul_ulp hp]
  exact le_roundTo (by rw [two_pow_mul_ulp hp]; exact zpow_log_le hx)

theorem roundTo_le_zpow_log (hx : 0 ≤ x) : roundTo p x ≤ (2 : ℚ) ^ (Int.log 2 |x| + 1) := by
  rw [← two_pow_mul_ulp_succ p]
  exact roundTo_le (by rw [two_pow_mul_ulp_succ]; exact (lt_zpow_log hx).le)

/-- **The order is kept.** -/
theorem roundTo_mono (hp : 0 < p) (hx : 0 ≤ x) (h : x ≤ y) : roundTo p x ≤ roundTo p y := by
  rcases hx.eq_or_lt with rfl | hpos
  · exact roundTo_zero.trans_le (roundTo_nonneg h)
  have hlog : Int.log 2 |x| ≤ Int.log 2 |y| := by
    rw [abs_of_pos hpos, abs_of_pos (hpos.trans_le h)]
    exact Int.log_mono_right hpos h
  rcases hlog.eq_or_lt with heq | hlt
  · have hulp : ulp p x = ulp p y := by rw [ulp, ulp, heq]
    have hround := roundHalfEven_mono (div_le_div_of_nonneg_right h (ulp_pos (p := p) (x := y)).le)
    rw [roundTo, roundTo, hulp]
    exact mul_le_mul_of_nonneg_right (by exact_mod_cast hround) ulp_pos.le
  · -- there is a power of two between them
    calc roundTo p x ≤ (2 : ℚ) ^ (Int.log 2 |x| + 1) := roundTo_le_zpow_log hx
      _ ≤ (2 : ℚ) ^ Int.log 2 |y| := zpow_le_zpow_right₀ one_le_two hlt
      _ ≤ roundTo p y := zpow_log_le_roundTo hp (hpos.trans_le h)

/-- **What is rounded stays.** -/
theorem roundTo_roundTo (hp : 0 < p) (hx : 0 ≤ x) : roundTo p (roundTo p x) = roundTo p x := by
  rcases hx.eq_or_lt with rfl | hpos
  · rw [roundTo_zero, roundTo_zero]
  have hle := zpow_log_le_roundTo hp hpos
  have hrpos : 0 < roundTo p x := (zpow_pos two_pos _).trans_le hle
  rcases (roundTo_le_zpow_log (p := p) hx).lt_or_eq with hlt | heq
  · -- it has as many digits
    have hlog : Int.log 2 |roundTo p x| = Int.log 2 |x| := by
      rw [abs_of_pos hrpos]
      refine le_antisymm (Int.lt_add_one_iff.1 ?_) ?_
      · exact (Int.lt_zpow_iff_log_lt one_lt_two hrpos).1 (by exact_mod_cast hlt)
      · exact (Int.zpow_le_iff_le_log one_lt_two hrpos).1 (by exact_mod_cast hle)
    have hulp : ulp p (roundTo p x) = ulp p x := by rw [ulp, ulp, hlog]
    exact roundTo_of_eq (n := roundHalfEven (x / ulp p x)) (by rw [hulp, ← roundTo])
  · -- it is a power of two
    have hlog : Int.log 2 |roundTo p x| = Int.log 2 |x| + 1 := by
      rw [abs_of_pos hrpos, heq]
      exact_mod_cast Int.log_zpow (R := ℚ) one_lt_two (Int.log 2 |x| + 1)
    exact roundTo_of_eq (n := 2 ^ (p - 1)) (by rw [two_pow_mul_ulp hp, hlog, heq])

/-! ### Errors -/

/-- By how much the rounding is off at most, for a number of size one. -/
def roundoff (p : ℕ) : ℚ := (2 ^ p)⁻¹

theorem roundoff_pos : 0 < roundoff p := by
  unfold roundoff
  positivity

/-- `x` is off by the part `δ` of `y` at most, which is not negative. -/
def Near (δ x y : ℚ) : Prop := |x - y| ≤ δ * y

/-- **The error of the rounding.** -/
theorem near_roundTo (hx : 0 ≤ x) : Near (roundoff p) (roundTo p x) x := by
  rcases hx.eq_or_lt with rfl | hpos
  · simp [Near]
  have hulp := ulp_pos (p := p) (x := x)
  have hdiff : roundTo p x - x = (roundHalfEven (x / ulp p x) - x / ulp p x) * ulp p x := by
    rw [roundTo, sub_mul, div_mul_cancel₀ _ hulp.ne']
  have hfirst := zpow_log_le hpos
  have hdigits := two_pow_mul_ulp_succ p x
  rw [zpow_add_one₀ two_ne_zero] at hdigits
  push_cast at hdigits
  rw [Near, hdiff, abs_mul, abs_of_pos hulp, roundoff, inv_mul_eq_div, le_div_iff₀ (by positivity)]
  calc |(roundHalfEven (x / ulp p x) : ℚ) - x / ulp p x| * ulp p x * 2 ^ p
      ≤ 1 / 2 * ulp p x * 2 ^ p := by
        gcongr
        exact abs_roundHalfEven_sub_le _
    _ = 1 / 2 * (2 ^ p * ulp p x) := by ring
    _ ≤ x := by
        rw [hdigits]
        linarith

namespace Near

variable {δ ε x' y' : ℚ}

theorem le (h : Near δ x y) : x ≤ (1 + δ) * y := by
  linarith [(abs_le.1 h).2]

theorem trans (h : Near δ x y) (h' : Near ε y z) (hδ : 0 ≤ δ) :
    Near (δ + ε + δ * ε) x z := by
  have hy := mul_le_mul_of_nonneg_left h'.le hδ
  calc |x - z| ≤ |x - y| + |y - z| := abs_sub_le x y z
    _ ≤ δ * y + ε * z := add_le_add h h'
    _ ≤ (δ + ε + δ * ε) * z := by linarith

theorem mul (h : Near δ x y) (h' : Near ε x' y') (hy : 0 ≤ y) (hy' : 0 ≤ y') (hδ : 0 ≤ δ) :
    Near (δ + ε + δ * ε) (x * x') (y * y') := by
  have hsplit : x * x' - y * y' = (x - y) * (x' - y') + (x - y) * y' + y * (x' - y') := by ring
  have hboth := mul_le_mul h h' (abs_nonneg _) (mul_nonneg hδ hy)
  have hleft := mul_le_mul_of_nonneg_right h hy'
  have hright := mul_le_mul_of_nonneg_left h' hy
  rw [Near, hsplit]
  calc |(x - y) * (x' - y') + (x - y) * y' + y * (x' - y')|
      ≤ |(x - y) * (x' - y')| + |(x - y) * y'| + |y * (x' - y')| := abs_add_three _ _ _
    _ = |x - y| * |x' - y'| + |x - y| * y' + y * |x' - y'| := by
        rw [abs_mul, abs_mul, abs_mul, abs_of_nonneg hy, abs_of_nonneg hy']
    _ ≤ (δ + ε + δ * ε) * (y * y') := by linarith

end Near

end ClientServer
