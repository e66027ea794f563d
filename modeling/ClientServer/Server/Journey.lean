import ClientServer.Server.Movement
import Mathlib.Algebra.BigOperators.Group.Finset.Basic
import Mathlib.Algebra.Order.Floor.Semiring

/-!
# Journeys along a path

An entity with a `PathList`, tick after tick, in exact arithmetic.  One segment is a course of
`Movement.Glide`; `UpdatePath` and `UpdateMove` hand the flag and the `Mover` to each other at its
ends.

* `Components.tick_iterate_depart`, `Components.tick_iterate_arrive` : the ticks of one segment.
* `Components.journey` : all segments, by induction on the waypoints.
* `Region.follows_waypoints` : **every waypoint is reached, in order and in time**, whoever else
  acts in the region.
-/

namespace ClientServer

/-! ### Waypoints and the ticks between them -/

/-- The start (`0`) and the waypoints (from `1` on) of a path. -/
def waypoint : fbVec ℝ → List (fbVec ℝ) → ℕ → fbVec ℝ
  | v, _, 0 => v
  | v, [], _ + 1 => v
  | _, w :: ws, i + 1 => waypoint w ws i

theorem waypoint_zero (v : fbVec ℝ) (ws : List (fbVec ℝ)) : waypoint v ws 0 = v := by
  cases ws <;> rfl

theorem waypoint_cons_succ (v w : fbVec ℝ) (ws : List (fbVec ℝ)) (i : ℕ) :
    waypoint v (w :: ws) (i + 1) = waypoint w ws i := rfl

/-- The ticks from one waypoint to the next, with steps of length `s`. -/
noncomputable def legTicks (s : ℝ) (v w : fbVec ℝ) : ℕ := ⌊v.dist w / s⌋₊ + 1

/-- The tick after which the waypoint `i` is reached. -/
noncomputable def arrival (s : ℝ) (v : fbVec ℝ) (ws : List (fbVec ℝ)) (i : ℕ) : ℕ :=
  ∑ j ∈ Finset.range i, legTicks s (waypoint v ws j) (waypoint v ws (j + 1))

theorem arrival_cons_succ (s : ℝ) (v w : fbVec ℝ) (ws : List (fbVec ℝ)) (i : ℕ) :
    arrival s v (w :: ws) (i + 1) = arrival s w ws i + legTicks s v w := by
  unfold arrival
  rw [Finset.sum_range_succ']
  simp only [waypoint_cons_succ, waypoint_zero]

/-- `k` steps stay within the length iff `k` ticks are fewer than those of the leg. -/
theorem mul_le_dist_iff {s : ℝ} (hs : 0 < s) (v w : fbVec ℝ) (k : ℕ) :
    k * s ≤ v.dist w ↔ k < legTicks s v w := by
  have hnonneg : 0 ≤ v.dist w / s := div_nonneg (Real.sqrt_nonneg _) hs.le
  rw [legTicks, Nat.lt_succ_iff, Nat.le_floor_iff hnonneg, le_div_iff₀ hs]

/-- The last step of a leg starts within its length, and would lead beyond it. -/
theorem exists_legTicks {s : ℝ} (hs : 0 < s) (v w : fbVec ℝ) :
    ∃ k : ℕ, legTicks s v w = k + 1 ∧ k * s ≤ v.dist w ∧ v.dist w < k * s + s := by
  refine ⟨⌊v.dist w / s⌋₊, rfl, (mul_le_dist_iff hs v w _).2 (Nat.lt_succ_self _), ?_⟩
  have hnot := (mul_le_dist_iff hs v w (⌊v.dist w / s⌋₊ + 1)).not.2 (lt_irrefl _)
  push_cast at hnot
  linarith

namespace Components

variable {U : Type*}

/-! ### One segment -/

/-- The components with another place in the plane. -/
def putAt (p : ℝ × ℝ) (c : Components ℝ U) : Components ℝ U :=
  { c with transform := { c.transform with v := ⟨p.1, p.2, c.transform.v.z⟩ } }

/-- The components on arrival at the end of `mover`. -/
def arrive (mover : Mover ℝ) (c : Components ℝ U) : Components ℝ U :=
  { c with
    transform := { c.transform with v := mover.dest }
    mover := none
    path := c.path.map fun path => { path with flag := .Arrive } }

/-- The components when `UpdatePath` has started the segment to `w`. -/
noncomputable def depart (g : Geometry ℝ) (w : fbVec ℝ) (ws : List (fbVec ℝ)) (c : Components ℝ U) :
    Components ℝ U :=
  let mover : Mover ℝ := ⟨w, g.toward c.transform.v w⟩
  let degree := g.unitVectorToDegree mover.dir.x mover.dir.y
  { c with
    transform := { c.transform with degree, speed := c.transform.base_spd }
    mover := some mover
    path := some ⟨ws, .Moving⟩ }

/-- The place is on the segment from `v` to `w`. -/
def Between (c : Components ℝ U) (v w : fbVec ℝ) : Prop :=
  ∃ θ : ℝ, 0 ≤ θ ∧ θ ≤ 1 ∧ c.transform.v.xy = v.xy + θ • (w.xy - v.xy)

/-- The components of an entity, tick after tick, on the path from `v` along `ws` with steps of
length `s`. -/
structure Journey (cs : ℕ → Components ℝ U) (s : ℝ) (v : fbVec ℝ) (ws : List (fbVec ℝ)) :
    Prop where
  /-- From one waypoint on it is between that and the next, on its way there. -/
  between : ∀ i < ws.length, ∀ t, arrival s v ws i ≤ t → t < arrival s v ws (i + 1) →
    (cs t).Between (waypoint v ws i) (waypoint v ws (i + 1)) ∧
      (arrival s v ws i < t → (cs t).mover.isSome)
  /-- Every waypoint is reached, when its time has come. -/
  reached : ∀ i < ws.length,
    (cs (arrival s v ws (i + 1))).transform.v = waypoint v ws (i + 1) ∧
      (cs (arrival s v ws (i + 1))).mover = none ∧
      (cs (arrival s v ws (i + 1))).path = some ⟨ws.drop (i + 1), .Arrive⟩
  /-- One tick after the last waypoint nothing is left of the path. -/
  ended : (cs (arrival s v ws ws.length + 1)).path = none ∧
    (cs (arrival s v ws ws.length + 1)).mover = none

variable {g : Geometry ℝ} {dt s : ℝ} {c : Components ℝ U} {mover : Mover ℝ} {w : fbVec ℝ}
  {ws : List (fbVec ℝ)} {flag : MoveFlag}

theorem move_putAt (hmover : c.mover = some mover) (dt : ℝ) (p : ℝ × ℝ) :
    (putAt p c).move dt =
      if normSq (mover.dest.xy - p) < dt * c.transform.speed * (dt * c.transform.speed)
      then arrive mover c else putAt (p + (dt * c.transform.speed) • mover.dir.xy) c := by
  unfold move
  rw [show (putAt p c).mover = some mover from hmover]
  rfl

theorem followPath_depart (hpath : c.path = some ⟨w :: ws, flag⟩) (hflag : flag ≠ .Moving)
    (hn : c.neighbor.isSome) : (c.followPath g).1 = depart g w ws c := by
  obtain ⟨O, hO⟩ := Option.isSome_iff_exists.1 hn
  unfold followPath depart
  rw [hpath, hO]
  exact congrArg Prod.fst (if_neg hflag)

theorem tick_depart (hpath : c.path = some ⟨w :: ws, flag⟩) (hflag : flag ≠ .Moving)
    (hn : c.neighbor.isSome) : c.tick g dt = (depart g w ws c).move dt := by
  rw [tick, followPath_depart hpath hflag hn]

theorem tick_moving (hpath : c.path = some ⟨ws, .Moving⟩) : c.tick g dt = c.move dt := by
  have hfollow : (c.followPath g).1 = c := by
    unfold followPath
    rw [hpath]
    split
    · rename_i heq hn
      obtain rfl := Option.some.inj heq
      rfl
    · rfl
  rw [tick, hfollow]

section Segment

variable (degree : ℝ → ℝ → Int16) (hs : 0 < s) (hstep : dt * c.transform.base_spd = s)
include hs hstep

omit hs in
theorem tick_putAt_depart (p : ℝ × ℝ) :
    (putAt p (depart (exactGeometry degree) w ws c)).tick (exactGeometry degree) dt =
      if normSq (w.xy - p) < s * s
      then arrive ⟨w, (exactGeometry degree).toward c.transform.v w⟩
        (depart (exactGeometry degree) w ws c)
      else putAt (p + s • ((exactGeometry degree).toward c.transform.v w).xy)
        (depart (exactGeometry degree) w ws c) := by
  have hspeed : dt * (depart (exactGeometry degree) w ws c).transform.speed = s := hstep
  rw [tick_moving rfl, move_putAt rfl, hspeed]

theorem tick_iterate_depart {k : ℕ} (hk : k < legTicks s c.transform.v w) :
    (tick (exactGeometry degree) dt)^[k] (depart (exactGeometry degree) w ws c) =
      putAt (c.transform.v.xy + (k * s) • ((exactGeometry degree).toward c.transform.v w).xy)
        (depart (exactGeometry degree) w ws c) :=
  (course_toward degree c.transform.v w).iterate_put hs (tick_putAt_depart degree hstep)
    ((mul_le_dist_iff hs _ _ k).2 hk)

theorem tick_iterate_arrive :
    (tick (exactGeometry degree) dt)^[legTicks s c.transform.v w]
        (depart (exactGeometry degree) w ws c) =
      arrive ⟨w, (exactGeometry degree).toward c.transform.v w⟩
        (depart (exactGeometry degree) w ws c) := by
  obtain ⟨k, hlegs, hle, hlt⟩ := exists_legTicks hs c.transform.v w
  rw [hlegs]
  exact (course_toward degree c.transform.v w).iterate_put_arrive hs
    (tick_putAt_depart degree hstep) hle hlt

/-- One segment: the entity stays between its ends and has a mover from the first tick on, and
the last tick brings it to the end. -/
theorem leg (hpath : c.path = some ⟨w :: ws, flag⟩) (hflag : flag ≠ .Moving)
    (hn : c.neighbor.isSome) :
    (tick (exactGeometry degree) dt)^[legTicks s c.transform.v w] c =
        arrive ⟨w, (exactGeometry degree).toward c.transform.v w⟩
          (depart (exactGeometry degree) w ws c) ∧
      ∀ t < legTicks s c.transform.v w,
        ((tick (exactGeometry degree) dt)^[t] c).Between c.transform.v w ∧
          (0 < t → ((tick (exactGeometry degree) dt)^[t] c).mover.isSome) := by
  -- the first tick is that of an entity that has departed already
  have hdepart : ∀ t, (tick (exactGeometry degree) dt)^[t + 1] c =
      (tick (exactGeometry degree) dt)^[t + 1] (depart (exactGeometry degree) w ws c) := by
    intro t
    rw [Function.iterate_succ_apply, Function.iterate_succ_apply, tick_depart hpath hflag hn,
      tick_moving rfl]
  refine ⟨(hdepart _).trans (tick_iterate_arrive degree hs hstep), fun t ht => ?_⟩
  cases t with
  | zero => exact ⟨⟨0, le_rfl, zero_le_one, by simp⟩, fun h => absurd h (lt_irrefl 0)⟩
  | succ t =>
    rw [hdepart, tick_iterate_depart degree hs hstep ht]
    exact ⟨(course_toward degree c.transform.v w).exists_convex (by positivity)
      ((mul_le_dist_iff hs _ _ _).2 ht), fun _ => rfl⟩

end Segment

/-! ### All segments -/

/-- **Journeys.**  An entity whose path starts passes all waypoints. -/
theorem journey {degree : ℝ → ℝ → Int16} (hs : 0 < s) (hstep : dt * c.transform.base_spd = s)
    (hpath : c.path = some ⟨ws, flag⟩) (hflag : flag ≠ .Moving) (hn : c.neighbor.isSome)
    (hmover : ws = [] → c.mover = none) :
    Journey (fun t => (tick (exactGeometry degree) dt)^[t] c) s c.transform.v ws := by
  induction ws generalizing c flag with
  | nil =>
    obtain ⟨O, hO⟩ := Option.isSome_iff_exists.1 hn
    refine ⟨fun i hi => absurd hi (Nat.not_lt_zero i),
      fun i hi => absurd hi (Nat.not_lt_zero i), ?_⟩
    have htick : c.tick (exactGeometry degree) dt = { c with path := none } := by
      unfold tick followPath move
      rw [hpath, hO]
      simp only [if_neg hflag, hmover rfl]
    change (c.tick (exactGeometry degree) dt).path = none ∧
      (c.tick (exactGeometry degree) dt).mover = none
    rw [htick]
    exact ⟨rfl, hmover rfl⟩
  | cons w ws ih =>
    obtain ⟨hend, hway⟩ := leg degree hs hstep hpath hflag hn
    set f := tick (U := U) (exactGeometry degree) dt with hf
    set N := legTicks s c.transform.v w
    set c' := arrive ⟨w, (exactGeometry degree).toward c.transform.v w⟩
      (depart (exactGeometry degree) w ws c)
    have hpath' : c'.path = some ⟨ws, .Arrive⟩ := rfl
    have hrec : Journey (fun t => f^[t] c') s w ws :=
      ih (c := c') hstep hpath' (by decide) hn fun _ => rfl
    -- the ticks of the rest of the path come after those of the first segment
    have hshift : ∀ t, f^[t + N] c = f^[t] c' := fun t => by
      rw [Function.iterate_add_apply, hend]
    have harrival : ∀ i, arrival s c.transform.v (w :: ws) (i + 1) = arrival s w ws i + N :=
      arrival_cons_succ s c.transform.v w ws
    refine ⟨fun i hi t ht ht' => ?_, fun i hi => ?_, ?_⟩
    · cases i with
      | zero =>
        have h0 : arrival s c.transform.v (w :: ws) 0 = 0 := Finset.sum_range_zero _
        have h1 : arrival s c.transform.v (w :: ws) (0 + 1) = N := (harrival 0).trans (zero_add N)
        rw [h1] at ht'
        rw [h0, waypoint_zero, waypoint_cons_succ, waypoint_zero]
        exact hway t ht'
      | succ i =>
        rw [harrival] at ht ht'
        obtain ⟨t, rfl⟩ : ∃ u, t = u + N := ⟨t - N, by omega⟩
        rw [hshift, harrival]
        obtain ⟨hb, hm⟩ := hrec.between i (Nat.lt_of_succ_lt_succ hi) t (by omega) (by omega)
        exact ⟨hb, fun hlt => hm (by omega)⟩
    · rw [harrival, hshift]
      cases i with
      | zero => exact ⟨(waypoint_zero w ws).symm, rfl, rfl⟩
      | succ i => exact hrec.reached i (Nat.lt_of_succ_lt_succ hi)
    · rw [List.length_cons, harrival, Nat.add_right_comm, hshift]
      exact hrec.ended

/-- Only the transform, the mover and the path of the entity matter. -/
theorem Journey.of_motion {cs ms : ℕ → Components ℝ U} {v : fbVec ℝ} (h : Journey ms s v ws)
    (hcs : ∀ t, (cs t).motion = ms t) : Journey cs s v ws := by
  have htransform : ∀ t, (ms t).transform = (cs t).transform := fun t => by rw [← hcs]; rfl
  have hmover : ∀ t, (ms t).mover = (cs t).mover := fun t => by rw [← hcs]; rfl
  have hpath : ∀ t, (ms t).path = (cs t).path := fun t => by rw [← hcs]; rfl
  obtain ⟨hbetween, hreached, hended⟩ := h
  simp only [Between, htransform, hmover, hpath] at hbetween hreached hended
  exact ⟨hbetween, hreached, hended⟩

end Components

/-! ### In a region -/

namespace Region

open Components

variable {U : Type*} {rs : ℕ → Region ℝ U} {e : Entity} {g : Geometry ℝ} {dt : ℝ}
  {c : Components ℝ U}

/-- From one region to the next a tick of `e` is taken, and whatever else happens in the region
touches of `e` at most its neighbours.  The tree does not answer a query with the entity that
asks. -/
def Ticking (g : Geometry ℝ) (dt : ℝ) (e : Entity) (rs : ℕ → Region ℝ U) : Prop :=
  ∀ t, ∃ contacts found : SortedSet Entity, e ∉ found ∧
    (rs (t + 1)).motion e = ((rs t).tick g dt e contacts found).motion e

theorem Ticking.exists_comps (h : Ticking g dt e rs) (hc : (rs 0).comps e = some c)
    (hn : c.neighbor.isSome) (t : ℕ) :
    ∃ d, (rs t).comps e = some d ∧ d.neighbor.isSome ∧
      d.motion = (Components.tick g dt)^[t] c.motion := by
  induction t with
  | zero => exact ⟨c, hc, hn, rfl⟩
  | succ t ih =>
    obtain ⟨d, hd, hdn, hmotion⟩ := ih
    obtain ⟨contacts, found, -, hnext⟩ := h t
    rw [motion_tick _ g dt hd] at hnext
    obtain ⟨d', hd', hmotion'⟩ := Option.map_eq_some_iff.1 hnext
    refine ⟨d', hd', ?_, ?_⟩
    · rw [← isSome_neighbor_motion, hmotion', neighbor_tick, isSome_neighbor_motion]
      exact hdn
    · rw [hmotion', hmotion, Function.iterate_succ_apply']

/-- **Path following.**  An entity whose path starts, in regions that tick on, passes all
waypoints, in order and in time, and one tick later has neither a path nor a mover. -/
theorem follows_waypoints {degree : ℝ → ℝ → Int16} {ws : List (fbVec ℝ)}
    (h : Ticking (exactGeometry degree) dt e rs) (hdt : 0 < dt) (hc : (rs 0).comps e = some c)
    (hspd : 0 < c.transform.base_spd) (hpath : c.path = some ⟨ws, .Start⟩)
    (hn : c.neighbor.isSome) (hmover : ws = [] → c.mover = none) :
    ∃ cs : ℕ → Components ℝ U, (∀ t, (rs t).comps e = some (cs t)) ∧
      Journey cs (dt * c.transform.base_spd) c.transform.v ws := by
  choose cs hcs _ hmotion using h.exists_comps hc hn
  refine ⟨cs, hcs, Journey.of_motion ?_ hmotion⟩
  exact Components.journey (c := c.motion) (mul_pos hdt hspd) rfl hpath (by decide)
    (by rwa [isSome_neighbor_motion]) hmover

/-- Two waypoints, the second where the first is. -/
theorem follows_waypoints_there : ∃ (rs : ℕ → Region ℝ ℕ) (cs : ℕ → Components ℝ ℕ),
    (∀ t, (rs t).comps 0 = some (cs t)) ∧
      Journey cs (1 * 1) ⟨0, 0, 0⟩ [⟨2, 0, 0⟩, ⟨2, 0, 0⟩] := by
  let start : Components ℝ ℕ :=
    ⟨⟨⟨0, 0, 0⟩, 0, 0, 1⟩, none, some ⟨[⟨2, 0, 0⟩, ⟨2, 0, 0⟩], .Start⟩, some ∅, none⟩
  let rs : ℕ → Region ℝ ℕ := fun t =>
    (fun r => r.tick (exactGeometry fun _ _ => 0) 1 0 ∅ ∅)^[t] (Region.empty.set 0 (some start))
  have hticking : Ticking (exactGeometry fun _ _ => 0) 1 0 rs := by
    intro t
    refine ⟨∅, ∅, SortedSet.not_mem_empty, ?_⟩
    dsimp only [rs]
    rw [Function.iterate_succ_apply']
  have hcomps : (rs 0).comps 0 = some start := (comps_set _).trans (if_pos rfl)
  exact ⟨rs, follows_waypoints hticking one_pos hcomps one_pos rfl rfl (by simp)⟩

end Region

end ClientServer
