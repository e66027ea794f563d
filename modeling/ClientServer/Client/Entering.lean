import ClientServer.Client.Notifications
import ClientServer.Client.Pace

/-!
# Entering while moving

An entity that is on its way when it comes into view enters the client with a path to the end of its
way.  `RegionSystem::Update` starts it at the speed that the entity has by nature, and the client's
`CreateNpc` sets none.

* `ClientScene.updatePath`, `ClientScene.frame` : `RegionSystem::Update`, and the frame it is part
  of.
* `ClientScene.Reaches` : the entity gets to the end of its way, at the speed that it had.
* `ClientScene.reaches_of_base_spd` : with a speed by nature it would.
* `ClientScene.enter_not_reaches` : **it never does**: it stays where it entered, with its `Mover`.
-/

namespace ClientServer

section Defs

variable {F : Type*} [Field F] [LinearOrder F]

namespace Body

/-- An iteration of `RegionSystem::Update`: the body afterwards, and the waypoint of the segment
that starts, if one does. -/
def followPath (g : Geometry F) (b : Body F) : Body F × Option (fbVec F) :=
  match b.path with
  | none => (b, none) -- not in the view
  | some path =>
    if path.flag = .Moving then (b, none)
    else
      match path.paths with
      | [] => ({ b with transform := { b.transform with speed := 0 }, path := none }, none)
      | dest :: paths =>
        let tf := b.transform
        let mover : Mover F := ⟨dest, g.toward tf.v dest⟩
        let degree := g.unitVectorToDegree mover.dir.x mover.dir.y
        ({ transform := { tf with degree, speed := tf.base_spd }
           mover := some mover
           path := some ⟨paths, .Moving⟩ }, some dest)

/-- What a frame does to a body. -/
def frame (g : Geometry F) (dt : F) (b : Body F) : Body F := (b.followPath g).1.update dt

end Body

namespace ClientScene

/-- `RegionSystem::Update`: the scene, and the `MoveReq`s for the entities with a
`PlayerSession`. -/
def updatePath (g : Geometry F) (s : ClientScene F) : ClientScene F × List (Message F) :=
  (s.mapBodies fun _ b => (b.followPath g).1,
    s.entities.filterMap fun p =>
      if p.2.session then ((s.body p.1).bind fun b => (b.followPath g).2).map .MoveReq else none)

/-- `Region::Update`, less the commands and timers: `RegionSystem::Update` and then
`MoveSystem::Update`. -/
def frame (g : Geometry F) (dt : F) (s : ClientScene F) : ClientScene F :=
  (s.updatePath g).1.update dt

end ClientScene

end Defs

namespace ClientScene

/-- From one scene to the next a frame runs, and whatever else happens leaves the body of `k`
alone. -/
def Framing {F : Type*} [Field F] [LinearOrder F] (g : Geometry F) (dt : F) (k : ℕ)
    (ss : ℕ → ClientScene F) : Prop :=
  ∀ t, (ss (t + 1)).body k = ((ss t).frame g dt).body k

/-- Frame by frame `k` is where the speed and the time lead on the way from `v` to `w`, until it is
at `w`, with neither `Mover` nor path. -/
def Reaches (dt spd : ℝ) (v w : fbVec ℝ) (k : ℕ) (ss : ℕ → ClientScene ℝ) : Prop :=
  ∃ n, (∀ t ≤ n, ∃ b, (ss t).body k = some b ∧
      b.transform.v.xy = v.along w (min (spd * (t * dt)) (v.dist w))) ∧
    ∃ b, (ss n).body k = some b ∧ b.transform.v = w ∧ b.mover = none ∧ b.path = none

end ClientScene

/-! ### Bodies with and without speed -/

namespace Body

section Still

variable {F : Type*} [Field F] [LinearOrder F] [IsStrictOrderedRing F] {g : Geometry F} {dt : F}
  {b : Body F} {w : fbVec F} {ws : List (fbVec F)} {flag : MoveFlag}

omit [IsStrictOrderedRing F] in
theorem followPath_of_moving (hpath : b.path = some ⟨ws, .Moving⟩) : (b.followPath g).1 = b := by
  unfold followPath
  rw [hpath]
  rfl

theorem update_of_speed_eq_zero (h : b.transform.speed = 0) : b.update dt = b := by
  obtain ⟨⟨v, degree, speed, base_spd⟩, mover, path⟩ := b
  obtain rfl : speed = 0 := h
  cases mover with
  | none => rfl
  | some mover =>
    have hfar : ¬(mover.dest.x - v.x) * (mover.dest.x - v.x) +
        (mover.dest.y - v.y) * (mover.dest.y - v.y) < dt * 0 * (dt * 0) := by
      rw [mul_zero, mul_zero, not_lt]
      exact add_nonneg (mul_self_nonneg _) (mul_self_nonneg _)
    unfold update
    dsimp only
    rw [if_neg hfar]
    simp only [mul_zero, zero_mul, add_zero]

/-- A body that has no speed by nature starts, and stays where it is. -/
theorem frame_of_base_spd_eq_zero (hpath : b.path = some ⟨w :: ws, flag⟩) (hflag : flag ≠ .Moving)
    (hspd : b.transform.base_spd = 0) :
    (b.frame g dt).mover.isSome = true ∧ (b.frame g dt).frame g dt = b.frame g dt := by
  have hfollow : (b.followPath g).1.transform.speed = 0 ∧
      (b.followPath g).1.path = some ⟨ws, .Moving⟩ ∧
      (b.followPath g).1.mover.isSome = true := by
    unfold followPath
    rw [hpath]
    dsimp only
    rw [if_neg hflag]
    exact ⟨hspd, rfl, rfl⟩
  obtain ⟨hspeed, hmoving, hmover⟩ := hfollow
  have hframe : b.frame g dt = (b.followPath g).1 := update_of_speed_eq_zero hspeed
  refine ⟨by rwa [hframe], ?_⟩
  rw [hframe, frame, followPath_of_moving hmoving, update_of_speed_eq_zero hspeed]

end Still

variable {g : Geometry ℝ} {degree : ℝ → ℝ → Int16} {dt s : ℝ} {b : Body ℝ} {w : fbVec ℝ}
  {flag : MoveFlag} {n : ℕ}

/-- The body with another place in the plane. -/
def putAt (p : ℝ × ℝ) (b : Body ℝ) : Body ℝ :=
  { b with transform := { b.transform with v := ⟨p.1, p.2, b.transform.v.z⟩ } }

/-- The body when `RegionSystem::Update` has started the last segment, to `w`. -/
noncomputable def depart (g : Geometry ℝ) (w : fbVec ℝ) (b : Body ℝ) : Body ℝ :=
  let mover : Mover ℝ := ⟨w, g.toward b.transform.v w⟩
  let degree := g.unitVectorToDegree mover.dir.x mover.dir.y
  { transform := { b.transform with degree, speed := b.transform.base_spd }
    mover := some mover
    path := some ⟨[], .Moving⟩ }

/-- The body on arrival at the last waypoint `w`. -/
def arrive (w : fbVec ℝ) (b : Body ℝ) : Body ℝ :=
  { transform := { b.transform with v := w }, mover := none, path := some ⟨[], .Arrive⟩ }

theorem followPath_depart (hpath : b.path = some ⟨[w], flag⟩) (hflag : flag ≠ .Moving) :
    (b.followPath g).1 = depart g w b := by
  unfold followPath
  rw [hpath]
  exact congrArg Prod.fst (if_neg hflag)

section Segment

variable (hs : 0 < s) (hstep : dt * b.transform.base_spd = s)
include hstep

theorem frame_putAt_depart (p : ℝ × ℝ) : ((depart g w b).putAt p).frame g dt =
    if normSq (w.xy - p) < s * s then arrive w (depart g w b)
    else (depart g w b).putAt (p + s • (g.toward b.transform.v w).xy) := by
  subst hstep
  rw [frame, followPath_of_moving rfl]
  rfl

include hs

theorem frame_iterate_depart (hn : n < legTicks s b.transform.v w) :
    (frame (exactGeometry degree) dt)^[n] (depart (exactGeometry degree) w b) =
      (depart (exactGeometry degree) w b).putAt (b.transform.v.xy +
        (n * s) • ((exactGeometry degree).toward b.transform.v w).xy) :=
  (course_toward degree b.transform.v w).iterate_put hs (frame_putAt_depart hstep)
    ((mul_le_dist_iff hs _ _ n).2 hn)

theorem frame_iterate_arrive :
    (frame (exactGeometry degree) dt)^[legTicks s b.transform.v w]
      (depart (exactGeometry degree) w b) = arrive w (depart (exactGeometry degree) w b) := by
  obtain ⟨k, hlegs, hle, hlt⟩ := exists_legTicks hs b.transform.v w
  rw [hlegs]
  exact (course_toward degree b.transform.v w).iterate_put_arrive hs (frame_putAt_depart hstep)
    hle hlt

end Segment

end Body

/-! ### The entity that enters -/

namespace ClientScene

section Field

variable {F : Type*} [Field F] [LinearOrder F] {g : Geometry F} {dt : F} {k : ℕ}

theorem body_frame (s : ClientScene F) (k : ℕ) :
    (s.frame g dt).body k = (s.body k).map (Body.frame g dt) := by
  rw [frame, body_update, updatePath, body_mapBodies, Option.map_map]
  rfl

theorem Framing.body {ss : ℕ → ClientScene F} {b : Body F} (h : Framing g dt k ss)
    (hb : (ss 0).body k = some b) (n : ℕ) : (ss n).body k = some ((Body.frame g dt)^[n] b) := by
  induction n with
  | zero => exact hb
  | succ n ih => rw [h n, body_frame, ih, Option.map_some, Function.iterate_succ_apply']

theorem body_enter {s : ClientScene F} (hfresh : s.entities.lookup s.next = none)
    (info : EntityInfo F UInt32) : (s.enter info).body s.next =
      some ⟨⟨info.pos, info.angle, 0, 0⟩, none,
        if 0 < info.spd then some ⟨[info.endpos], .Start⟩ else none⟩ := by
  have hlookup : (s.enter info).entities.lookup s.next = some ⟨info.entity_id,
      ⟨info.pos, info.angle, 0, 0⟩, if 0 < info.spd then some ⟨[info.endpos], .Start⟩ else none,
      false⟩ := by
    simp only [enter, ClientRegion.enter, ClientRegion.create, List.lookup_append, hfresh,
      Option.none_or]
    exact List.lookup_cons_self
  rw [body, hlookup, enter]
  dsimp only
  rw [Option.map_some, Function.update_self]

theorem framing_iterate (s : ClientScene F) : Framing g dt k fun t => (frame g dt)^[t] s := by
  intro t
  dsimp only
  rw [Function.iterate_succ_apply']

variable [IsStrictOrderedRing F]

/-- Frame after frame it still has a path, or a `Mover`. -/
theorem Framing.not_done {ss : ℕ → ClientScene F} {s : ClientScene F} {info : EntityInfo F UInt32}
    (h : Framing g dt s.next ss) (h0 : ss 0 = s.enter info)
    (hfresh : s.entities.lookup s.next = none) (hspd : 0 < info.spd) (n : ℕ) {b : Body F}
    (hb : (ss n).body s.next = some b) : b.mover ≠ none ∨ b.path ≠ none := by
  have hstart := body_enter hfresh info
  rw [if_pos hspd, ← h0] at hstart
  obtain rfl := Option.some.inj ((h.body hstart n).symm.trans hb)
  have hflag : MoveFlag.Start ≠ .Moving := MoveFlag.noConfusion
  cases n with
  | zero => exact .inr (Option.some_ne_none _)
  | succ n =>
    -- the first frame gives it the `Mover`, and the later ones nothing
    obtain ⟨hmover, hfixed⟩ := Body.frame_of_base_spd_eq_zero
      (b := ⟨⟨info.pos, info.angle, 0, 0⟩, none, some ⟨[info.endpos], .Start⟩⟩) rfl hflag rfl
    rw [Function.iterate_succ_apply, Function.iterate_fixed hfixed]
    exact .inl (Option.isSome_iff_ne_none.1 hmover)

end Field

/-- A body with a speed by nature gets to the end of its way, at that speed. -/
theorem reaches_of_base_spd {degree : ℝ → ℝ → Int16} {dt : ℝ} {k : ℕ} {ss : ℕ → ClientScene ℝ}
    {b : Body ℝ} {w : fbVec ℝ} {flag : MoveFlag} (h : Framing (exactGeometry degree) dt k ss)
    (hb : (ss 0).body k = some b) (hdt : 0 < dt) (hspd : 0 < b.transform.base_spd)
    (hpath : b.path = some ⟨[w], flag⟩) (hflag : flag ≠ .Moving) :
    Reaches dt b.transform.base_spd b.transform.v w k ss := by
  have hs : 0 < dt * b.transform.base_spd := mul_pos hdt hspd
  have hcourse := course_toward degree b.transform.v w
  set N := legTicks (dt * b.transform.base_spd) b.transform.v w with hN
  have hway : ∀ n : ℕ, b.transform.base_spd * (n * dt) = n * (dt * b.transform.base_spd) :=
    fun n => by ring
  -- the first frame is that of a body that has departed already
  have hdepart : ∀ n, (Body.frame (exactGeometry degree) dt)^[n + 1] b =
      (Body.frame (exactGeometry degree) dt)^[n + 1] (b.depart (exactGeometry degree) w) := by
    intro n
    rw [Function.iterate_succ_apply, Function.iterate_succ_apply, Body.frame, Body.frame,
      Body.followPath_depart hpath hflag, Body.followPath_of_moving rfl]
  have harrive : (Body.frame (exactGeometry degree) dt)^[N] b =
      (b.depart (exactGeometry degree) w).arrive w :=
    (hdepart _).trans (Body.frame_iterate_arrive hs rfl)
  have hend : ∀ n : ℕ, N ≤ n → b.transform.v.along w
      (min (b.transform.base_spd * (n * dt)) (b.transform.v.dist w)) = w.xy := by
    intro n hn
    have hfar := (mul_le_dist_iff hs b.transform.v w n).not.2 (not_lt.2 hn)
    rw [hway, min_eq_right (not_le.1 hfar).le, fbVec.along,
      ← hcourse.add_smul_eq hcourse.nonneg le_rfl, ← hcourse.reach]
  have hdone := h.body hb (N + 1)
  rw [Function.iterate_succ_apply', harrive] at hdone
  refine ⟨N + 1, fun n hn => ⟨_, h.body hb n, ?_⟩, _, hdone, rfl, rfl, rfl⟩
  rcases Nat.lt_or_ge n N with hlt | hge
  · have hle := (mul_le_dist_iff hs b.transform.v w n).2 hlt
    rw [hway, min_eq_left hle, fbVec.along, ← hcourse.add_smul_eq (by positivity) hle]
    cases n with
    | zero => simp
    | succ n =>
      rw [hdepart, Body.frame_iterate_depart hs rfl hlt]
      rfl
  · -- at the end, with the path for one frame more
    rw [hend n hge]
    obtain rfl | rfl : n = N ∨ n = N + 1 := by omega
    · rw [harrive]
      rfl
    · rw [Function.iterate_succ_apply', harrive]
      rfl

variable {g : Geometry ℝ} {dt : ℝ} {s : ClientScene ℝ} {ss : ℕ → ClientScene ℝ}
  {info : EntityInfo ℝ UInt32}

/-- **Entering while moving.**  Whatever an entity enters with that has a speed, it never gets to
the end of its way. -/
theorem enter_not_reaches (h : Framing g dt s.next ss) (h0 : ss 0 = s.enter info)
    (hfresh : s.entities.lookup s.next = none) (hspd : 0 < info.spd) :
    ¬Reaches dt info.spd info.pos info.endpos s.next ss := by
  rintro ⟨n, -, b, hb, -, hmover, hpath⟩
  rcases h.not_done h0 hfresh hspd n hb with hne | hne
  · exact hne hmover
  · exact hne hpath

/-- An entity of the server on its way to a place one step away. -/
def nearby : Components ℝ ℕ :=
  ⟨⟨⟨0, 0, 0⟩, 0, 1, 1⟩, some ⟨⟨1, 0, 0⟩, ⟨1, 0, 0⟩⟩, none, some ∅, none⟩

theorem enter_not_reaches_nearby : ¬Reaches 1 1 ⟨0, 0, 0⟩ ⟨1, 0, 0⟩ 0 fun t =>
    (frame (exactGeometry fun _ _ => 0) 1)^[t] (init.enter (nearby.serializeEntityInfo 0)) :=
  enter_not_reaches (s := init) (framing_iterate _) rfl rfl one_pos

/-- The entity that is to go one step does not even arrive after a long time. -/
theorem nearby_not_reaches : ¬∀ (g : Geometry ℝ) (c : Components ℝ ℕ) (mover : Mover ℝ)
    (e : Entity) (dt : ℝ) (s : ClientScene ℝ) (ss : ℕ → ClientScene ℝ), c.mover = some mover →
      0 < (c.serializeEntityInfo e).spd → 0 < dt → s.entities.lookup s.next = none →
      ss 0 = s.enter (c.serializeEntityInfo e) → Framing g dt s.next ss →
      Reaches dt (c.serializeEntityInfo e).spd (c.serializeEntityInfo e).pos
        (c.serializeEntityInfo e).endpos s.next ss := by
  intro h
  have hframing : Framing (exactGeometry fun _ _ => 0) 1 0 fun t =>
      (frame (exactGeometry fun _ _ => 0) 1)^[t] (init.enter (nearby.serializeEntityInfo 0)) :=
    framing_iterate _
  obtain ⟨n, -, b, hb, -, hmover, hpath⟩ :=
    h _ nearby _ 0 1 init _ rfl one_pos one_pos rfl rfl hframing
  rcases hframing.not_done (s := init) rfl rfl one_pos n hb with hne | hne
  · exact hne hmover
  · exact hne hpath

end ClientScene

end ClientServer
