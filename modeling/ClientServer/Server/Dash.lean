import ClientServer.Server.Journey
import ClientServer.Server.Requests

/-!
# Dashing

What becomes of an entity after `DashTo` or `MoveTo`, while `UpdateMove` runs and nothing else
steers it.  Both leave the new `Mover` without a direction: `UpdatePath` and the `MoveTo` of the
client set it, they do not.

* `Region.moveOn` : an iteration of `UpdateMove`, whoever is found.
* `Region.Coasting` : `UpdateMove` after `UpdateMove`.
* `Region.dash_arrives_iff` : **when the entity arrives**: at once, or never.
-/

namespace ClientServer

namespace Components

/-- Step by step of length `s` an entity comes nearer to `d`, and the last step brings it there and
takes its `Mover`. -/
def Arrives {U : Type*} (cs : ℕ → Components ℝ U) (s : ℝ) (d : fbVec ℝ) : Prop :=
  ∃ n, (∀ t < n, (cs t).mover.isSome = true) ∧
    (∀ t, t + 1 < n → (cs (t + 1)).transform.v.dist d = (cs t).transform.v.dist d - s) ∧
    (cs n).transform.v = d ∧ (cs n).mover = none

variable {U : Type*} {dt spd : ℝ} {d : fbVec ℝ} {c : Components ℝ U}

/-- `UpdateMove` brings the entity to a destination that is near, and else leaves it where it is. -/
theorem move_headTo : (c.headTo d spd).move dt =
    if normSq (d.xy - c.transform.v.xy) < dt * spd * (dt * spd)
    then arrive ⟨d, ⟨0, 0, 0⟩⟩ (c.headTo d spd) else c.headTo d spd := by
  have hmover : (c.headTo d spd).mover = some ⟨d, ⟨0, 0, 0⟩⟩ := rfl
  have hstep := move_putAt hmover dt c.transform.v.xy
  have hstay : c.transform.v.xy + (dt * (c.headTo d spd).transform.speed) •
      (⟨0, 0, 0⟩ : fbVec ℝ).xy = c.transform.v.xy := by
    simp [fbVec.xy]
  rw [hstay] at hstep
  exact hstep

theorem near_iff (hs : 0 < dt * spd) (v : fbVec ℝ) :
    normSq (d.xy - v.xy) < dt * spd * (dt * spd) ↔ v.dist d < dt * spd := by
  rw [fbVec.dist, Real.sqrt_lt' hs, sq]

theorem arrives_headTo_iff (hs : 0 < dt * spd) :
    Arrives (fun t => (move dt)^[t] (c.headTo d spd)) (dt * spd) d ↔
      c.transform.v.dist d < dt * spd := by
  rw [← near_iff hs]
  constructor
  · rintro ⟨n, -, -, -, hmover⟩
    by_contra hfar
    -- without a direction one step, and so every number of them, leaves it where it is
    have hstay : (c.headTo d spd).move dt = c.headTo d spd := move_headTo.trans (if_neg hfar)
    dsimp only at hmover
    rw [Function.iterate_fixed hstay] at hmover
    cases hmover
  · intro hnear
    have harrive : (c.headTo d spd).move dt = arrive ⟨d, ⟨0, 0, 0⟩⟩ (c.headTo d spd) :=
      move_headTo.trans (if_pos hnear)
    refine ⟨1, fun t ht => ?_, fun t ht => by omega, congrArg (·.transform.v) harrive,
      congrArg Components.mover harrive⟩
    obtain rfl : t = 0 := by omega
    rfl

/-- Only the transform and the mover matter. -/
theorem arrives_of_motion {cs ms : ℕ → Components ℝ U} {s : ℝ}
    (hcs : ∀ t, (cs t).motion = (ms t).motion) : Arrives cs s d ↔ Arrives ms s d := by
  have htransform : ∀ t, (cs t).transform = (ms t).transform := fun t => by
    rw [← transform_motion, hcs, transform_motion]
  have hmover : ∀ t, (cs t).mover = (ms t).mover := fun t => by
    rw [← mover_motion, hcs, mover_motion]
  simp only [Arrives, htransform, hmover]

end Components

namespace Region

open Components

/-- An iteration of `MoveSystem::UpdateMove`, if it comes to `e`; the tree answers `found`. -/
def moveOn {F U : Type*} [Field F] [LinearOrder F] (dt : F) (r : Region F U) (e : Entity)
    (found : SortedSet Entity) : Region F U :=
  match (r.comps e).bind Components.mover with
  | some mover => r.updateMove e dt mover found
  | none => r

theorem motion_moveOn {F U : Type*} [Field F] [LinearOrder F] (dt : F) (r : Region F U)
    {e : Entity} {c : Components F U} (found : SortedSet Entity) (h : r.comps e = some c) :
    (r.moveOn dt e found).motion e = some (c.motion.move dt) := by
  rw [← motion_move, moveOn, h, Option.bind_some, move]
  cases c.mover with
  | none => rw [motion, h, Option.map_some]
  | some mover =>
    rw [motion_updateMove, motion, comps_modify, if_pos rfl, h, Option.map_some, Option.map_some]

variable {U : Type*} {rs : ℕ → Region ℝ U} {r : Region ℝ U} {e : Entity} {c : Components ℝ U}
  {dt z : ℝ} {nav : Navigation ℝ} {dest d : fbVec ℝ}

/-- From one region to the next `UpdateMove` comes to `e`, and whatever else happens touches of `e`
at most its neighbours. -/
def Coasting (dt : ℝ) (e : Entity) (rs : ℕ → Region ℝ U) : Prop :=
  ∀ t, ∃ found, (rs (t + 1)).motion e = ((rs t).moveOn dt e found).motion e

theorem Coasting.exists_comps (h : Coasting dt e rs) (hc : (rs 0).comps e = some c) (t : ℕ) :
    ∃ d, (rs t).comps e = some d ∧ d.motion = ((move dt)^[t] c).motion := by
  induction t with
  | zero => exact ⟨c, hc, rfl⟩
  | succ t ih =>
    obtain ⟨d, hd, hmotion⟩ := ih
    obtain ⟨found, hnext⟩ := h t
    rw [motion_moveOn dt (rs t) found hd] at hnext
    obtain ⟨d', hd', hmotion'⟩ := Option.map_eq_some_iff.1 hnext
    refine ⟨d', hd', ?_⟩
    rw [hmotion', hmotion, Function.iterate_succ_apply', motion_move]

/-- The steps of `UpdateMove` after the entity has headed for `d`. -/
theorem Coasting.arrives_iff {spd : ℝ} (h : Coasting dt e rs)
    (hc : (rs 0).comps e = some (c.headTo d spd)) (hs : 0 < dt * spd) :
    ∃ cs : ℕ → Components ℝ U, (∀ t, (rs t).comps e = some (cs t)) ∧
      (Arrives cs (dt * spd) d ↔ c.transform.v.dist d < dt * spd) := by
  choose cs hcs hmotion using h.exists_comps hc
  exact ⟨cs, hcs, (arrives_of_motion hmotion).trans (arrives_headTo_iff hs)⟩

/-- What `DashTo` and `MoveTo` leave behind when they return true. -/
theorem exists_headTo {speed : Transform ℝ → ℝ} (hc : r.comps e = some c)
    (hreq : r.headTo nav dest e z speed = (rs 0, true)) :
    ∃ t, nav.raycast c.transform.v dest = some t ∧
      (rs 0).comps e = some (c.headTo (c.transform.v.clip dest t z) (speed c.transform)) := by
  obtain ⟨c', hc', hray⟩ := headTo_eq_true_iff.1 (congrArg Prod.snd hreq)
  obtain rfl := Option.some.inj (hc.symm.trans hc')
  obtain ⟨t, ht⟩ := Option.isSome_iff_exists.1 hray
  rw [headTo_of_raycast hc ht] at hreq
  refine ⟨t, ht, ?_⟩
  rw [← (Prod.mk.inj hreq).1, comps_set, if_pos rfl]

/-- **Dashing.**  After `DashTo` or `MoveTo` to where the ray cast clips the way, at the speed that
they set, an entity arrives, nearer by its step at each before, iff one step is longer than that. -/
theorem dash_arrives_iff {spd : ℝ} (hdt : 0 < dt) (hc : r.comps e = some c)
    (hbase : 0 < c.transform.base_spd)
    (hreq : spd = c.transform.base_spd * (3 : ℕ) ∧ r.dashTo nav dest e z = (rs 0, true) ∨
      0 < spd ∧ r.moveTo nav dest e z spd = (rs 0, true))
    (h : Coasting dt e rs) :
    ∃ (cs : ℕ → Components ℝ U) (t : ℝ), (∀ n, (rs n).comps e = some (cs n)) ∧
      nav.raycast c.transform.v dest = some t ∧
      cs 0 = c.headTo (c.transform.v.clip dest t z) spd ∧
      (Arrives cs (dt * spd) (c.transform.v.clip dest t z) ↔
        c.transform.v.dist (c.transform.v.clip dest t z) < dt * spd) := by
  obtain ⟨t, hspd, ht, h0⟩ : ∃ t, 0 < spd ∧ nav.raycast c.transform.v dest = some t ∧
      (rs 0).comps e = some (c.headTo (c.transform.v.clip dest t z) spd) := by
    rcases hreq with ⟨rfl, hdash⟩ | ⟨hspd, hmove⟩
    · obtain ⟨t, ht⟩ := exists_headTo hc hdash
      exact ⟨t, mul_pos hbase (by norm_num), ht⟩
    · obtain ⟨t, ht⟩ := exists_headTo hc hmove
      exact ⟨t, hspd, ht⟩
  obtain ⟨cs, hcs, hiff⟩ := h.arrives_iff h0 (mul_pos hdt hspd)
  exact ⟨cs, t, hcs, ht, Option.some.inj ((hcs 0).symm.trans h0), hiff⟩

/-- One polygon and no obstacle. -/
noncomputable def openField : Navigation ℝ where
  nav_query := ⟨fun p => some (1, p), fun _ _ _ => some 1, fun _ _ _ _ _ => none,
    fun _ _ _ _ => none, fun _ p _ => some p⟩
  atStart := ⟨0, 0, 0⟩
  atEnd := ⟨0, 0, 0⟩

/-- An entity at the origin, of base speed `1`. -/
def stander : Components ℝ ℕ := ⟨⟨⟨0, 0, 0⟩, 0, 0, 1⟩, none, none, some ∅, none⟩

/-- The regions after a dash of that entity to `dest`, in steps of `1`. -/
noncomputable def dashing (dest : fbVec ℝ) (t : ℕ) : Region ℝ ℕ :=
  (fun r => r.moveOn 1 0 ∅)^[t] ((Region.empty.set 0 (some stander)).dashTo openField dest 0 0).1

theorem coasting_dashing (dest : fbVec ℝ) : Coasting 1 0 (dashing dest) := by
  intro t
  refine ⟨∅, ?_⟩
  unfold dashing
  rw [Function.iterate_succ_apply']

theorem comps_stander : (Region.empty.set 0 (some stander)).comps 0 = some stander :=
  (comps_set _).trans (if_pos rfl)

theorem dashTo_stander (dest : fbVec ℝ) :
    (Region.empty.set 0 (some stander)).dashTo openField dest 0 0 = (dashing dest 0, true) ∧
      (dashing dest 0).comps 0 = some (stander.headTo dest (1 * (3 : ℕ))) := by
  have hray : openField.raycast stander.transform.v dest = some 1 := rfl
  have hclip : stander.transform.v.clip dest 1 0 = dest := if_neg (lt_irrefl 1)
  have hset : (Region.empty.set 0 (some stander)).dashTo openField dest 0 0 = _ :=
    headTo_of_raycast comps_stander hray
  refine ⟨Prod.ext rfl (congrArg Prod.snd hset), ?_⟩
  rw [hclip] at hset
  exact (congrArg (fun p => p.1.comps 0) hset).trans ((comps_set _).trans (if_pos rfl))

theorem dist_stander {x : ℝ} (hx : 0 ≤ x) : stander.transform.v.dist ⟨x, 0, 0⟩ = x := by
  have hsq : normSq ((⟨x, 0, 0⟩ : fbVec ℝ).xy - stander.transform.v.xy) = x * x := by
    simp [normSq, fbVec.xy, stander]
  rw [fbVec.dist, hsq, Real.sqrt_mul_self hx]

/-- Two units in one step of three. -/
theorem dash_arrives_iff_near : ∃ cs : ℕ → Components ℝ ℕ,
    (∀ n, (dashing ⟨2, 0, 0⟩ n).comps 0 = some (cs n)) ∧
      Arrives cs (1 * (1 * (3 : ℕ))) ⟨2, 0, 0⟩ := by
  obtain ⟨cs, t, hcs, ht, -, hiff⟩ := dash_arrives_iff one_pos comps_stander one_pos
    (.inl ⟨rfl, (dashTo_stander ⟨2, 0, 0⟩).1⟩) (coasting_dashing ⟨2, 0, 0⟩)
  obtain rfl : (1 : ℝ) = t := Option.some.inj ht
  have hclip : stander.transform.v.clip ⟨2, 0, 0⟩ 1 0 = ⟨2, 0, 0⟩ := if_neg (lt_irrefl 1)
  rw [hclip, dist_stander zero_le_two] at hiff
  refine ⟨cs, hcs, hiff.2 ?_⟩
  change (2 : ℝ) < 1 * (1 * ((3 : ℕ) : ℝ))
  norm_num

/-- Nine units in steps of three. -/
theorem dash_not_arrives : ¬∀ (nav : Navigation ℝ) (r : Region ℝ ℕ) (rs : ℕ → Region ℝ ℕ)
    (e : Entity) (c : Components ℝ ℕ) (dest : fbVec ℝ) (dt z : ℝ), 0 < dt → r.comps e = some c →
      0 < c.transform.base_spd → r.dashTo nav dest e z = (rs 0, true) → Coasting dt e rs →
      ∃ (cs : ℕ → Components ℝ ℕ) (d : fbVec ℝ), (∀ t, (rs t).comps e = some (cs t)) ∧
        (cs 0).mover.map Mover.dest = some d ∧ Arrives cs (dt * (cs 0).transform.speed) d := by
  intro h
  obtain ⟨hdash, hcomps⟩ := dashTo_stander ⟨9, 0, 0⟩
  have hcoast := coasting_dashing ⟨9, 0, 0⟩
  obtain ⟨cs, d, hcs, hd, harrives⟩ := h _ _ _ _ _ _ _ _ one_pos comps_stander one_pos hdash hcoast
  obtain ⟨cs', hcs', hiff⟩ := hcoast.arrives_iff hcomps (by norm_num)
  obtain rfl : cs = cs' := funext fun t => Option.some.inj ((hcs t).symm.trans (hcs' t))
  have h0 : cs 0 = stander.headTo ⟨9, 0, 0⟩ (1 * ((3 : ℕ) : ℝ)) :=
    Option.some.inj ((hcs 0).symm.trans hcomps)
  rw [h0] at hd harrives
  obtain rfl := Option.some.inj hd
  have hnear := hiff.1 harrives
  rw [dist_stander (by norm_num)] at hnear
  norm_num at hnear

end Region

end ClientServer
