import ClientServer.Data.Rounding
import ClientServer.LTS.Run
import Mathlib.Algebra.Order.Archimedean.Basic
import Mathlib.Algebra.Order.Floor.Semiring
import Mathlib.Tactic.FieldSimp

/-!
# The main loop

Both programs wait in `SimulateTimer::Frame` until a frame has passed, and then call `Update` until no
more than a frame is left of the time.  The timer adds up `double`s: every operation of it is rounded.

* `MainLoop.next` : the steps, a reading of the clock or a turn of the loop around `Update`.
* `MainLoop.Sound` : the invariant: how much time is left, at most.
* `MainLoop.Drifts` : what the roundings may lose; `MainLoop.Sound.drifts_step` for one step.
* `MainLoop.paced_run` : **how often `Update` was called**: whenever the loop waits, as often as
  frames have begun, less one, if the clock is not at the end of a frame.
* `MainLoop.catches_up` : the loop around `Update` ends.
* `MainLoop.Span.near` : what two moments at which the loop waits say about the time between them.
-/

namespace ClientServer

/-- What a `double` has of a number; none here is too large or too small for one. -/
def double (x : ℚ) : ℚ := roundTo 53 x

/-- `static_cast<double>(ms) * 0.001`. -/
def seconds (ms : ℕ) : ℚ := double (double ms * double 0.001)

/-- `SimulateTimer<_Fps>`; `GetTickCount64` counts milliseconds. -/
structure SimulateTimer where
  time_acc : ℚ
  FRAMERATE : ℚ
  previous : ℕ
  deriving DecidableEq

/-- The main loop of a program. -/
structure MainLoop where
  timer : SimulateTimer
  /-- `Frame` has not returned yet. -/
  framing : Bool
  /-- How often `Update` was called. -/
  updates : ℕ
  deriving DecidableEq

/-- What can happen. -/
inductive MainStep
  /-- `GetTickCount64` returns `time` in `Frame`. -/
  | read (time : ℕ)
  /-- The condition of the loop around `Update` is tested, and a turn made if it holds. -/
  | turn

/-- The constructor of `SimulateTimer<fps>`, and `Reset` at the time `previous`. -/
def SimulateTimer.reset (fps : ℚ) (previous : ℕ) : SimulateTimer := ⟨0, double (1 / fps), previous⟩

/-- A turn of the loop of `Frame`. -/
def SimulateTimer.elapse (timer : SimulateTimer) (time : ℕ) : SimulateTimer :=
  { timer with
    time_acc := double (timer.time_acc + seconds (time - timer.previous))
    previous := time }

namespace MainLoop

/-- The timer was reset, and `Frame` is called. -/
def start (fps : ℚ) (previous : ℕ) : MainLoop := ⟨.reset fps previous, true, 0⟩

/-- One step. -/
def next (s : MainLoop) : MainStep → Option MainLoop
  | .read time =>
    if s.framing then
      let timer := s.timer.elapse time
      some { s with timer, framing := !decide (timer.FRAMERATE ≤ timer.time_acc) }
    else none
  | .turn =>
    if s.framing then none
    else if s.timer.FRAMERATE < s.timer.time_acc then
      some { s with
        timer := { s.timer with time_acc := double (s.timer.time_acc - s.timer.FRAMERATE) }
        updates := s.updates + 1 }
    else some { s with framing := true }

/-- In three tenths of a second there is time for six frames of a twentieth, not for five. -/
example : (LTS.execute next (start 20 0) (.read 300 :: List.replicate 7 .turn)).any
    (fun s => s.framing && s.updates = 6) = true := by decide +kernel

/-- The steps of the loop. -/
def system : LTS MainLoop MainStep := .ofNext next

/-- The clock does not go back, and is read again within `gap` milliseconds. -/
def Forward (gap : ℕ) (s : MainLoop) : MainStep → Prop
  | .read time => s.timer.previous ≤ time ∧ time ≤ s.timer.previous + gap
  | .turn => True

instance (gap : ℕ) (s : MainLoop) : DecidablePred (s.Forward gap)
  | .read time =>
    inferInstanceAs (Decidable (s.timer.previous ≤ time ∧ time ≤ s.timer.previous + gap))
  | .turn => .isTrue trivial

/-- The time since the timer was reset, at `t₀`, in seconds. -/
def elapsed (t₀ : ℕ) (s : MainLoop) : ℚ := (s.timer.previous - t₀ : ℕ) / 1000

/-- The time that was simulated, in frames of `1 / fps`. -/
def simulated (fps : ℚ) (s : MainLoop) : ℚ := s.updates / fps

/-- What is lost at most in a millisecond, or in a call of `Update`. -/
def slack (fps : ℚ) (gap : ℕ) : ℚ := 2 * roundoff 53 * (1 / fps + (gap + 6) / 1000)

/-- The time that is left: at most a frame where `Frame` waits, and at most what the next reading adds
to that otherwise. -/
structure Sound (fps : ℚ) (gap : ℕ) (s : MainLoop) : Prop where
  frame : s.timer.FRAMERATE = double (1 / fps)
  nonneg : 0 ≤ s.timer.time_acc
  rounded : double s.timer.time_acc = s.timer.time_acc
  le : s.timer.time_acc ≤ double (s.timer.FRAMERATE + seconds gap)
  le_frame : s.framing = true → s.timer.time_acc ≤ s.timer.FRAMERATE

/-- How much more time was simulated, or is left, than the clock says. -/
def ahead (fps : ℚ) (s : MainLoop) : ℚ :=
  s.simulated fps + s.timer.time_acc - s.timer.previous / 1000

/-- The milliseconds and the calls of `Update`. -/
def count (s : MainLoop) : ℕ := s.timer.previous + s.updates

/-- From `s` to `s'` not more is lost than may be in the milliseconds and calls of `Update`. -/
structure Drifts (fps : ℚ) (gap : ℕ) (s s' : MainLoop) : Prop where
  previous : s.timer.previous ≤ s'.timer.previous
  updates : s.updates ≤ s'.updates
  error : |s'.ahead fps - s.ahead fps| ≤ slack fps gap * (s'.count - s.count)

end MainLoop

/-! ### Roundings -/

theorem double_nonneg {x : ℚ} (hx : 0 ≤ x) : 0 ≤ double x := roundTo_nonneg hx

theorem double_mono {x y : ℚ} (hx : 0 ≤ x) (h : x ≤ y) : double x ≤ double y :=
  roundTo_mono (by decide) hx h

theorem double_double {x : ℚ} (hx : 0 ≤ x) : double (double x) = double x :=
  roundTo_roundTo (by decide) hx

theorem near_double {x : ℚ} (hx : 0 ≤ x) : Near (roundoff 53) (double x) x := near_roundTo hx

theorem seconds_nonneg (ms : ℕ) : 0 ≤ seconds ms :=
  double_nonneg (mul_nonneg (double_nonneg ms.cast_nonneg) (double_nonneg (by norm_num)))

@[simp] theorem seconds_zero : seconds 0 = 0 := by
  simp [seconds, double]

theorem seconds_mono {m n : ℕ} (h : m ≤ n) : seconds m ≤ seconds n := by
  have hconst : 0 ≤ double 0.001 := double_nonneg (by norm_num)
  refine double_mono (mul_nonneg (double_nonneg m.cast_nonneg) hconst) ?_
  exact mul_le_mul_of_nonneg_right (double_mono m.cast_nonneg (by exact_mod_cast h)) hconst

/-- Three roundings. -/
theorem near_seconds (ms : ℕ) : Near (4 * roundoff 53) (seconds ms) (ms / 1000) := by
  have hms : (0 : ℚ) ≤ ms := ms.cast_nonneg
  have hconst : (0 : ℚ) ≤ 0.001 := by norm_num
  have hprod := (near_double hms).mul (near_double hconst) hms hconst roundoff_pos.le
  have hall := (near_double (mul_nonneg (double_nonneg hms) (double_nonneg hconst))).trans hprod
    roundoff_pos.le
  rw [show (ms : ℚ) / 1000 = ms * 0.001 by norm_num [div_eq_mul_inv]]
  refine le_trans hall (mul_le_mul_of_nonneg_right ?_ (mul_nonneg hms hconst))
  norm_num [roundoff]

theorem roundoff_le : roundoff 53 ≤ 1 / 16 := by
  norm_num [roundoff]

theorem double_le {x : ℚ} (hx : 0 ≤ x) : double x ≤ 17 / 16 * x := by
  have hnear := (near_double hx).le
  linarith [mul_le_mul_of_nonneg_right roundoff_le hx]

theorem seconds_le (ms : ℕ) : seconds ms ≤ 5 / 4 * (ms / 1000) := by
  have hnear := (near_seconds ms).le
  have hms : (0 : ℚ) ≤ ms / 1000 := by positivity
  linarith [mul_le_mul_of_nonneg_right roundoff_le hms]

namespace MainLoop

variable {fps : ℚ} {gap t₀ : ℕ} {s s' s'' : MainLoop} {es : List (MainLoop × MainStep)}

/-! ### What is left of the time -/

theorem sound_start (hfps : 0 < fps) (gap t₀ : ℕ) : Sound fps gap (start fps t₀) where
  frame := rfl
  nonneg := le_rfl
  rounded := roundTo_zero
  le := double_nonneg
    (add_nonneg (double_nonneg (one_div_pos.2 hfps).le) (seconds_nonneg gap))
  le_frame _ := double_nonneg (one_div_pos.2 hfps).le

theorem Sound.frame_nonneg (hfps : 0 < fps) (h : Sound fps gap s) : 0 ≤ s.timer.FRAMERATE :=
  h.frame ▸ double_nonneg (one_div_pos.2 hfps).le

theorem Sound.read (h : Sound fps gap s) {time : ℕ} (hstep : s.next (.read time) = some s')
    (hforward : s.Forward gap (.read time)) : Sound fps gap s' := by
  obtain ⟨hframing, hstep⟩ := Option.ite_none_right_eq_some.1 hstep
  obtain rfl := Option.some.inj hstep
  have hsum := add_nonneg h.nonneg (seconds_nonneg (time - s.timer.previous))
  refine ⟨h.frame, double_nonneg hsum, double_double hsum, ?_, fun hless => ?_⟩
  · refine double_mono hsum (add_le_add (h.le_frame hframing) (seconds_mono ?_))
    have := hforward.2
    omega
  · exact (not_le.1 (by simpa using hless)).le

theorem Sound.turn (hfps : 0 < fps) (h : Sound fps gap s) (hstep : s.next .turn = some s') :
    Sound fps gap s' := by
  obtain ⟨hreturned, hstep⟩ := Option.ite_none_left_eq_some.1 hstep
  split_ifs at hstep with hmore
  · obtain rfl := Option.some.inj hstep
    have hrest := (sub_pos.2 hmore).le
    refine ⟨h.frame, double_nonneg hrest, double_double hrest, ?_,
      fun hframing => absurd hframing hreturned⟩
    -- less is left than before, rounded as it was
    have hless := double_mono hrest (sub_le_self s.timer.time_acc (h.frame_nonneg hfps))
    exact (hless.trans_eq h.rounded).trans h.le
  · obtain rfl := Option.some.inj hstep
    exact ⟨h.frame, h.nonneg, h.rounded, h.le, fun _ => not_lt.1 hmore⟩

theorem Sound.rest_le (hfps : 0 < fps) (h : Sound fps gap s) :
    s.timer.time_acc - s.timer.FRAMERATE ≤ 1 / fps + 2 * (gap / 1000) := by
  have hfps' := (one_div_pos.2 hfps).le
  have hframe := h.frame_nonneg hfps
  have hle := double_le hfps'
  rw [← h.frame] at hle
  have hgap : (0 : ℚ) ≤ gap / 1000 := by positivity
  linarith [h.le, double_le (add_nonneg hframe (seconds_nonneg gap)), seconds_le gap]

/-! ### What is lost -/

theorem slack_nonneg (hfps : 0 < fps) (gap : ℕ) : 0 ≤ slack fps gap := by
  have hu := roundoff_pos (p := 53)
  unfold slack
  positivity

theorem Drifts.refl (fps : ℚ) (gap : ℕ) (s : MainLoop) : Drifts fps gap s s :=
  ⟨le_rfl, le_rfl, by simp⟩

theorem Drifts.trans (h : Drifts fps gap s s') (h' : Drifts fps gap s' s'') :
    Drifts fps gap s s'' where
  previous := h.previous.trans h'.previous
  updates := h.updates.trans h'.updates
  error := by
    have hsum := abs_add_le (s''.ahead fps - s'.ahead fps) (s'.ahead fps - s.ahead fps)
    rw [sub_add_sub_cancel] at hsum
    linarith [h.error, h'.error]

/-- A reading: of the clock, and of what is added. -/
theorem Sound.drifts_read (hfps : 0 < fps) (h : Sound fps gap s) {time : ℕ}
    (hstep : s.next (.read time) = some s') (hforward : s.Forward gap (.read time)) :
    Drifts fps gap s s' := by
  obtain ⟨hframing, hstep⟩ := Option.ite_none_right_eq_some.1 hstep
  obtain rfl := Option.some.inj hstep
  obtain ⟨n, rfl⟩ := Nat.exists_eq_add_of_le hforward.1
  refine ⟨hforward.1, le_rfl, ?_⟩
  simp only [ahead, simulated, count, SimulateTimer.elapse, Nat.add_sub_cancel_left]
  rcases Nat.eq_zero_or_pos n with rfl | hpos
  · -- the clock has not moved on
    simp [h.rounded]
  have hfps' := (one_div_pos.2 hfps).le
  have hu := roundoff_pos (p := 53)
  have hn : (1 : ℚ) ≤ n := by exact_mod_cast hpos
  have hgap : (0 : ℚ) ≤ gap := gap.cast_nonneg
  have hacc := h.le_frame hframing
  rw [h.frame] at hacc
  have hsum := add_nonneg h.nonneg (seconds_nonneg n)
  have hround : |double (s.timer.time_acc + seconds n) - (s.timer.time_acc + seconds n)| ≤
      roundoff 53 * (2 * (1 / fps) + 2 * (n / 1000)) := by
    refine le_trans (near_double hsum) (mul_le_mul_of_nonneg_left ?_ hu.le)
    linarith [double_le hfps', seconds_le n]
  have hsec : |seconds n - n / 1000| ≤ 4 * roundoff 53 * (n / 1000) := near_seconds n
  have hslack : roundoff 53 * (2 * (1 / fps) + 2 * (n / 1000)) + 4 * roundoff 53 * (n / 1000) ≤
      slack fps gap * n := by
    have hless : 2 * (1 / fps) + 6 * (n / 1000) ≤ 2 * (1 / fps + (gap + 6) / 1000) * n := by
      have h₁ := mul_le_mul_of_nonneg_left hn hfps'
      have h₂ := mul_nonneg hgap n.cast_nonneg
      linarith
    have hmul := mul_le_mul_of_nonneg_left hless hu.le
    rw [slack]
    linarith
  push_cast
  rw [abs_le] at hround hsec ⊢
  constructor <;> linarith

/-- A turn: of the length of a frame, and of what is taken off. -/
theorem Sound.drifts_turn (hfps : 0 < fps) (h : Sound fps gap s) (hstep : s.next .turn = some s') :
    Drifts fps gap s s' := by
  obtain ⟨-, hstep⟩ := Option.ite_none_left_eq_some.1 hstep
  split_ifs at hstep with hmore
  · obtain rfl := Option.some.inj hstep
    refine ⟨le_rfl, Nat.le_succ _, ?_⟩
    have hfps' := (one_div_pos.2 hfps).le
    have hu := roundoff_pos (p := 53)
    have hframe : |s.timer.FRAMERATE - 1 / fps| ≤ roundoff 53 * (1 / fps) :=
      h.frame ▸ near_double hfps'
    have hround : |double (s.timer.time_acc - s.timer.FRAMERATE) -
        (s.timer.time_acc - s.timer.FRAMERATE)| ≤ roundoff 53 * (1 / fps + 2 * (gap / 1000)) :=
      le_trans (near_double (sub_pos.2 hmore).le)
        (mul_le_mul_of_nonneg_left (h.rest_le hfps) hu.le)
    have hslack : roundoff 53 * (1 / fps) + roundoff 53 * (1 / fps + 2 * (gap / 1000)) ≤
        slack fps gap := by
      rw [slack]
      linarith
    simp only [ahead, simulated, count]
    push_cast
    rw [add_div, abs_le]
    rw [abs_le] at hframe hround
    constructor <;> linarith
  · obtain rfl := Option.some.inj hstep
    exact ⟨le_rfl, le_rfl, by simp [ahead, simulated, count]⟩

/-- **A step**, if the clock does not go back and is read in time. -/
theorem Sound.step (hfps : 0 < fps) (h : Sound fps gap s) {l : MainStep}
    (hstep : system.step s l s') (hforward : s.Forward gap l) :
    Sound fps gap s' ∧ Drifts fps gap s s' := by
  cases l with
  | read time => exact ⟨h.read hstep hforward, h.drifts_read hfps hstep hforward⟩
  | turn => exact ⟨h.turn hfps hstep, h.drifts_turn hfps hstep⟩

theorem Sound.run (hfps : 0 < fps) (h : Sound fps gap s) (hrun : system.Run s es s')
    (hforward : ∀ e ∈ es, e.1.Forward gap e.2) : Sound fps gap s' ∧ Drifts fps gap s s' :=
  hrun.invariant_of (I := fun t => Sound fps gap t ∧ Drifts fps gap s t) (C := Forward gap)
    ⟨h, .refl fps gap s⟩ (fun _ _ _ ht hst hl =>
      have hstep := ht.1.step hfps hst hl
      ⟨hstep.1, ht.2.trans hstep.2⟩) hforward

/-! ### How often `Update` is called -/

/-- By how much the timer may be wrong. -/
def tolerance (fps : ℚ) (gap t₀ : ℕ) (s : MainLoop) : ℚ :=
  slack fps gap * ((s.timer.previous - t₀ : ℕ) + s.updates + 1)

/-- Up to the tolerance, no more time is simulated than has passed, and while `Frame` waits, no more
than a frame less; and unless the clock is that close to the end of a frame, `Update` was called then
as often as frames have begun, less one. -/
structure Paced (fps : ℚ) (gap t₀ : ℕ) (s : MainLoop) : Prop where
  behind : s.simulated fps ≤ s.elapsed t₀ + s.tolerance fps gap t₀
  within : s.framing = true → s.elapsed t₀ ≤ s.simulated fps + 1 / fps + s.tolerance fps gap t₀
  exact : s.framing = true → (∀ k : ℕ, s.tolerance fps gap t₀ < |s.elapsed t₀ - k / fps|) →
    s.updates = ⌈s.elapsed t₀ * fps⌉₊ - 1

theorem Sound.frame_le (hfps : 0 < fps) (h : Sound fps gap s) :
    s.timer.FRAMERATE ≤ 1 / fps + slack fps gap := by
  have hfps' := (one_div_pos.2 hfps).le
  have hle := (near_double hfps').le
  have hu := roundoff_pos (p := 53)
  have hgap : (0 : ℚ) ≤ roundoff 53 * ((gap + 6) / 1000) := by positivity
  have hmul := mul_nonneg hu.le hfps'
  rw [h.frame, slack]
  linarith

/-- What is lost since the start. -/
theorem Drifts.error_start (h : Drifts fps gap (start fps t₀) s) :
    |s.simulated fps + s.timer.time_acc - s.elapsed t₀| ≤
      slack fps gap * ((s.timer.previous - t₀ : ℕ) + s.updates) := by
  have hprevious : t₀ ≤ s.timer.previous := h.previous
  have herror := h.error
  simp only [ahead, simulated, count, start, SimulateTimer.reset] at herror
  rw [elapsed, simulated, Nat.cast_sub hprevious]
  convert herror using 2
  · push_cast
    ring
  · push_cast
    ring

theorem updates_eq {n : ℕ} {T : ℚ} (hfps : 0 < fps) (hmore : n / fps < T)
    (hless : T ≤ (n + 1 : ℕ) / fps) : n = ⌈T * fps⌉₊ - 1 := by
  have hceil : ⌈T * fps⌉₊ = n + 1 := by
    rw [Nat.ceil_eq_iff (Nat.succ_ne_zero n), Nat.succ_sub_one]
    exact ⟨(div_lt_iff₀ hfps).1 hmore, (le_div_iff₀ hfps).1 hless⟩
  omega

theorem Sound.paced (hfps : 0 < fps) (h : Sound fps gap s)
    (hdrifts : Drifts fps gap (start fps t₀) s) : Paced fps gap t₀ s := by
  have herror := abs_le.1 hdrifts.error_start
  have hnonneg := h.nonneg
  have hslack := slack_nonneg hfps gap
  have htolerance : s.tolerance fps gap t₀ =
      slack fps gap * ((s.timer.previous - t₀ : ℕ) + s.updates) + slack fps gap := by
    rw [tolerance]
    ring
  have hbehind : s.simulated fps ≤ s.elapsed t₀ + s.tolerance fps gap t₀ := by linarith
  have hwithin : s.framing = true →
      s.elapsed t₀ ≤ s.simulated fps + 1 / fps + s.tolerance fps gap t₀ := fun hframing => by
    linarith [h.le_frame hframing, h.frame_le hfps]
  refine ⟨hbehind, hwithin, fun hframing hclear => updates_eq hfps ?_ ?_⟩
  · -- the last frame that was simulated has ended
    have hlast := hclear s.updates
    rw [← simulated] at hlast ⊢
    rcases lt_abs.1 hlast with hlt | hlt <;> linarith
  · have hnext := hclear (s.updates + 1)
    have hone : ((s.updates + 1 : ℕ) : ℚ) / fps = s.simulated fps + 1 / fps := by
      rw [simulated, ← add_div]
      push_cast
      rfl
    have hle := hwithin hframing
    rw [hone] at hnext ⊢
    rcases lt_abs.1 hnext with hlt | hlt <;> linarith

/-- **The main loop keeps time.**  In every run in which the clock does not go back and is read again
within `gap` milliseconds, the time that was simulated is not ahead of the time that has passed, and
whenever the loop waits it is behind by no more than a frame, up to the roundings of the timer; and
where these do not matter, `Update` was called as often as frames have begun, less one. -/
theorem paced_run (hfps : 0 < fps) (h : system.Run (start fps t₀) es s)
    (hforward : ∀ e ∈ es, e.1.Forward gap e.2) : Paced fps gap t₀ s := by
  obtain ⟨hs, hdrifts⟩ := (sound_start hfps gap t₀).run hfps h hforward
  exact hs.paced hfps hdrifts

/-- The second reading ends the first frame, and the third two more. -/
def threeFrames : List MainStep :=
  [.read 30, .read 60, .turn, .turn, .read 170, .turn, .turn, .turn]

theorem paced_run_twenty : ∃ es s, system.Run (start 20 0) es s ∧ s.updates = 3 ∧
    s.framing = true ∧ Paced 20 110 0 s := by
  obtain ⟨s, hrun, hs⟩ := LTS.exists_run next (start 20 0) threeFrames
    (fun s => s.updates = 3 ∧ s.framing = true) (by decide +kernel)
  obtain ⟨hupdates, hframing⟩ := of_decide_eq_true hs
  exact ⟨_, s, hrun, hupdates, hframing, paced_run (by norm_num) hrun (by decide +kernel)⟩

/-- Between two moments of a run at which the loop waits, `n` calls of `Update` and `ms`
milliseconds. -/
def Span (fps : ℚ) (gap n ms : ℕ) : Prop :=
  ∃ t₀ es s es' s', system.Run (start fps t₀) es s ∧ system.Run s es' s' ∧
    (∀ e ∈ es ++ es', e.1.Forward gap e.2) ∧ s.framing = true ∧ s'.framing = true ∧
    s'.updates = s.updates + n ∧ s'.timer.previous = s.timer.previous + ms

/-- By how much `n` frames and `ms` milliseconds may differ in such a span. -/
def spanError (fps : ℚ) (gap n ms : ℕ) : ℚ := 1 / fps + slack fps gap * (ms + n + 1)

/-- In such a span the simulated time is off by no more than a frame, up to the roundings. -/
theorem Span.near (hfps : 0 < fps) {n ms : ℕ} (h : Span fps gap n ms) :
    |n / fps - ms / 1000| ≤ spanError fps gap n ms := by
  obtain ⟨t₀, es, s, es', s', hrun, hrun', hforward, hwaits, hwaits', hupdates, hms⟩ := h
  rw [List.forall_mem_append] at hforward
  have hs := ((sound_start hfps gap t₀).run hfps hrun hforward.1).1
  obtain ⟨hs', hdrifts⟩ := hs.run hfps hrun' hforward.2
  have herror := hdrifts.error
  simp only [ahead, simulated, count, hupdates, hms] at herror
  push_cast at herror
  rw [add_div, add_div, abs_le] at herror
  rw [spanError, abs_le]
  constructor <;>
    linarith [hs.nonneg, hs'.nonneg, hs.le_frame hwaits, hs'.le_frame hwaits', hs.frame_le hfps,
      hs'.frame_le hfps]

theorem span_of_execute {n ms : ℕ} (ls : List MainStep)
    (h : (LTS.execute next (start fps 0) ls).any
      (fun s => s.framing && s.updates = n && s.timer.previous = ms) = true)
    (hforward : ∀ e ∈ LTS.trace next (start fps 0) ls, e.1.Forward gap e.2) :
    Span fps gap n ms := by
  obtain ⟨s, hrun, hs⟩ := LTS.exists_run next (start fps 0) ls _ h
  simp only [Bool.and_eq_true, decide_eq_true_eq] at hs
  obtain ⟨⟨hframing, hupdates⟩, hms⟩ := hs
  exact ⟨0, [], start fps 0, _, s, .start, hrun, hforward, rfl, hframing,
    hupdates.trans (Nat.zero_add n).symm, hms.trans (Nat.zero_add ms).symm⟩

/-! ### The loop around `Update` -/

/-- How many turns the loop around `Update` makes at most, with the last test of its condition: each
takes off half a frame or more. -/
def turnsLeft (s : MainLoop) : ℕ :=
  if s.framing then 0 else ⌈s.timer.time_acc / (s.timer.FRAMERATE / 2)⌉₊ + 1

/-- A turn takes off half a frame, if that is more than the timer can lose. -/
theorem Sound.double_sub_le (hfps : 0 < fps) (hslack : slack fps gap ≤ 1 / (4 * fps))
    (h : Sound fps gap s) (hmore : s.timer.FRAMERATE < s.timer.time_acc) :
    double (s.timer.time_acc - s.timer.FRAMERATE) ≤
      s.timer.time_acc - s.timer.FRAMERATE / 2 := by
  have hfps' := (one_div_pos.2 hfps).le
  have hquarter : 1 / (4 * fps) = 1 / 4 * (1 / fps) := by
    field_simp
  rw [hquarter, slack] at hslack
  have hu := roundoff_pos (p := 53)
  have hmul := mul_nonneg hu.le hfps'
  -- a frame is not much shorter than it should be
  have hframe := (abs_le.1 (near_double hfps')).1
  rw [← h.frame] at hframe
  have hclose := mul_le_mul_of_nonneg_right roundoff_le hfps'
  have hnear := (near_double (sub_pos.2 hmore).le).le
  have hlost := mul_le_mul_of_nonneg_left (h.rest_le hfps) hu.le
  linarith

theorem Sound.turnsLeft_turn (hfps : 0 < fps) (hslack : slack fps gap ≤ 1 / (4 * fps))
    (h : Sound fps gap s) (hreturned : ¬s.framing = true) : ∃ s', s.next .turn = some s' ∧
      s'.timer.previous = s.timer.previous ∧ s'.turnsLeft < s.turnsLeft := by
  by_cases hmore : s.timer.FRAMERATE < s.timer.time_acc
  · have hnext : s.next .turn = some { s with
        timer := { s.timer with time_acc := double (s.timer.time_acc - s.timer.FRAMERATE) }
        updates := s.updates + 1 } := by
      rw [next, if_neg hreturned, if_pos hmore]
    refine ⟨_, hnext, rfl, ?_⟩
    have hhalf : 0 < s.timer.FRAMERATE / 2 := by
      have hframe := (abs_le.1 (near_double (one_div_pos.2 hfps).le)).1
      rw [← h.frame] at hframe
      have hclose := mul_le_mul_of_nonneg_right roundoff_le (one_div_pos.2 hfps).le
      linarith [one_div_pos.2 hfps]
    have hdiv : double (s.timer.time_acc - s.timer.FRAMERATE) / (s.timer.FRAMERATE / 2) ≤
        s.timer.time_acc / (s.timer.FRAMERATE / 2) - 1 := by
      rw [div_le_iff₀ hhalf, sub_mul, div_mul_cancel₀ _ hhalf.ne', one_mul]
      exact h.double_sub_le hfps hslack hmore
    have hceil := Nat.ceil_mono hdiv
    rw [Nat.ceil_sub_one] at hceil
    have hpos : 0 < ⌈s.timer.time_acc / (s.timer.FRAMERATE / 2)⌉₊ :=
      Nat.ceil_pos.2 (div_pos ((h.frame_nonneg hfps).trans_lt hmore) hhalf)
    simp only [turnsLeft, hreturned, Bool.false_eq_true, if_false]
    omega
  · have hnext : s.next .turn = some { s with framing := true } := by
      rw [next, if_neg hreturned, if_neg hmore]
    exact ⟨_, hnext, rfl, by simp [turnsLeft, hreturned]⟩

/-- **The loop catches up.**  Whatever the clock says while the loop waits, without another reading
the loop comes to wait again, and keeps time then; unless so much time has passed that the timer could
lose a quarter of a frame at once. -/
theorem catches_up (hfps : 0 < fps) (hslack : slack fps gap ≤ 1 / (4 * fps))
    (h : system.Run (start fps t₀) es s) (hforward : ∀ e ∈ es, e.1.Forward gap e.2)
    (hframing : s.framing = true) {time : ℕ} (htime : s.Forward gap (.read time)) :
    ∃ s₁ es' s', system.step s (.read time) s₁ ∧ system.Run s₁ es' s' ∧
      (∀ e ∈ es', e.2 = .turn) ∧ s'.framing = true ∧ s'.timer.previous = time ∧
      Paced fps gap t₀ s' := by
  obtain ⟨hs, hdrifts⟩ := (sound_start hfps gap t₀).run hfps h hforward
  obtain ⟨s₁, hstep⟩ : ∃ s₁, s.next (.read time) = some s₁ := ⟨_, if_pos hframing⟩
  have hprevious : s₁.timer.previous = time := by
    obtain ⟨-, hstep⟩ := Option.ite_none_right_eq_some.1 hstep
    obtain rfl := Option.some.inj hstep
    rfl
  obtain ⟨hs₁, hdrifts₁⟩ := hs.step hfps hstep htime
  obtain ⟨es', s', hrun, hturn, ⟨hs', hdrifts', hsame⟩, hwaits⟩ :=
    LTS.Run.exists_done (A := system)
    (I := fun t => Sound fps gap t ∧ Drifts fps gap (start fps t₀) t ∧ t.timer.previous = time)
    (D := fun t => t.framing = true) (C := fun _ l => l = .turn) turnsLeft
    (fun t ⟨ht, htdrifts, hsame⟩ hreturned => by
      obtain ⟨t', hnext, hprev, hless⟩ := ht.turnsLeft_turn hfps hslack hreturned
      have hstep : system.step t .turn t' := hnext
      obtain ⟨ht', hdrift⟩ := ht.step hfps hstep trivial
      exact ⟨.turn, t', hnext, rfl, ⟨ht', htdrifts.trans hdrift, hprev.trans hsame⟩, hless⟩)
    ⟨hs₁, hdrifts.trans hdrifts₁, hprevious⟩
  exact ⟨s₁, es', s', hstep, hrun, hturn, hwaits, hsame, hs'.paced hfps hdrifts'⟩

/-- A second goes by. -/
theorem catches_up_second : ∃ es s, system.Run (start 20 0) es s ∧ s.updates = 3 ∧
    ∃ s₁ es' s', system.step s (.read 1170) s₁ ∧ system.Run s₁ es' s' ∧
      (∀ e ∈ es', e.2 = .turn) ∧ s'.framing = true ∧ s'.timer.previous = 1170 ∧
      Paced 20 1000 0 s' := by
  obtain ⟨s, hrun, hs⟩ := LTS.exists_run next (start 20 0) threeFrames
    (fun s => s.updates = 3 ∧ s.framing = true ∧ s.timer.previous = 170) (by decide +kernel)
  obtain ⟨hupdates, hframing, hprevious⟩ := of_decide_eq_true hs
  refine ⟨_, s, hrun, hupdates, catches_up (by norm_num) ?_ hrun (by decide +kernel) hframing ?_⟩
  · norm_num [slack, roundoff]
  · rw [Forward, hprevious]
    decide

end MainLoop

end ClientServer
