import ClientServer.Client.Pace
import ClientServer.Movement.MainLoop

/-!
# How far apart client and server are

The loops of the two programs call `Update` at moments of their own.  Seen at any moment at which
both wait, the client's copy of an entity on its last segment is where the entity is on the server,
up to what it goes in the time by which the one started later than the other, and a frame of each; and
in what the timers lose.  The entity itself moves exactly.

* `fbVec.dist_along_le` : two places on a way are no further apart than the distances gone.
* `Region.apart_le` : **how far the client's copy is from the entity**.
-/

namespace ClientServer

theorem fbVec.dist_along_le {v w p q : fbVec ℝ} {x y : ℝ} (hx : 0 ≤ x) (hxw : x ≤ v.dist w)
    (hy : 0 ≤ y) (hyw : y ≤ v.dist w) (hp : p.xy = v.along w x) (hq : q.xy = v.along w y) :
    p.dist q ≤ |x - y| := by
  have hcourse := course_toward (fun _ _ => 0) v w
  have hdiff : q.xy - p.xy = (y - x) • ((exactGeometry fun _ _ => 0).toward v w).xy := by
    rw [hp, hq, along, along, ← hcourse.add_smul_eq hx hxw, ← hcourse.add_smul_eq hy hyw,
      add_sub_add_left_eq_sub, sub_smul]
  rw [dist, hdiff, normSq_smul]
  rcases hcourse.unit with hzero | hone
  · -- there is no way to go
    obtain rfl : x = 0 := le_antisymm (hzero ▸ hxw) hx
    obtain rfl : y = 0 := le_antisymm (hzero ▸ hyw) hy
    simp
  · rw [hone, mul_one, Real.sqrt_mul_self_eq_abs, abs_sub_comm]

/-- The simulated time and the time that passed, as real numbers. -/
theorem MainLoop.Span.abs_sub_le {fps : ℚ} {gap n ms : ℕ} (hfps : 0 < fps)
    (h : Span fps gap n ms) :
    |n * (1 / (fps : ℝ)) - ms / 1000| ≤ (spanError fps gap n ms : ℝ) := by
  have hnear := h.near hfps
  rw [div_eq_mul_one_div] at hnear
  have hcast := (Rat.cast_le (K := ℝ)).2 hnear
  push_cast at hcast
  exact hcast

namespace Region

open ClientScene

variable {U : Type*} {rs : ℕ → Region ℝ U} {ss : ℕ → ClientScene ℝ} {e : Entity} {u : U}
  {c : Components ℝ U} {fps₁ fps₂ : ℚ} {gap₁ gap₂ ms₁ ms₂ : ℕ} {t : ℝ}
  {degree : ℝ → ℝ → Int16} {w : fbVec ℝ}
  {flag : MoveFlag} {contacts : SortedSet Entity} {l : List (U × Message ℝ)} {m : Message ℝ}
  {s : ClientScene ℝ} {raycast : Raycast ℝ} {k n₁ n₂ : ℕ} {b : Body ℝ}

/-- **How far the client's copy is from the entity.**  `UpdatePath` starts the last segment of `e`, and
the client that gets the `MoveNfy` has its copy at the same place and no obstacle before it.  `ms₁`
milliseconds later on the server and `ms₂` milliseconds later on the client, both waiting for their
next frame, they are no further apart than what the entity goes in the difference and in what each of
the two loops may be off. -/
theorem apart_le (hfps₁ : 0 < fps₁) (hfps₂ : 0 < fps₂)
    (hserver : Ticking (exactGeometry degree) (1 / (fps₁ : ℝ)) e rs)
    (hclient : Updating (1 / (fps₂ : ℝ)) k ss) (hspd : 0 < c.transform.base_spd)
    (hc : (rs 0).comps e = some c) (hn : c.neighbor.isSome)
    (hpath : c.path = some ⟨[w], flag⟩) (hflag : flag ≠ .Moving)
    (hsent : ((rs 0).updatePath (exactGeometry degree) e contacts).1.sent = (rs 0).sent ++ l)
    (hm : (u, m) ∈ l) (hss : ss 0 = s.recvMoveNfy (exactGeometry degree) raycast m)
    (hmap : s.mapped_eid e = some k) (hb : s.body k = some b)
    (hsame : b.transform.v.xy = c.transform.v.xy)
    (hray : raycast b.transform.v w = some t) (ht : 1 ≤ t)
    (htime₁ : MainLoop.Span fps₁ gap₁ n₁ ms₁) (htime₂ : MainLoop.Span fps₂ gap₂ n₂ ms₂) :
    ∃ d b', (rs n₁).comps e = some d ∧ (ss n₂).body k = some b' ∧
      d.transform.v.dist b'.transform.v ≤ c.transform.base_spd *
        (|(ms₁ / 1000 : ℝ) - ms₂ / 1000| + MainLoop.spanError fps₁ gap₁ n₁ ms₁ +
          MainLoop.spanError fps₂ gap₂ n₂ ms₂) := by
  obtain rfl := eq_moveNfy_of_mem hc hn hpath hflag hsent hm
  have hdt₁ : 0 < 1 / (fps₁ : ℝ) := one_div_pos.2 (Rat.cast_pos.2 hfps₁)
  have hdt₂ : 0 < 1 / (fps₂ : ℝ) := one_div_pos.2 (Rat.cast_pos.2 hfps₂)
  obtain ⟨d, hd, -, hmotion⟩ := hserver.exists_comps hc hn n₁
  have hss0 : (ss 0).body k =
      some (b.moveTo (exactGeometry degree) t w c.transform.base_spd) := by
    rw [hss]
    exact s.body_recvMoveNfy _ hmap hb hray
  refine ⟨d, _, hd, hclient.body hss0 n₂, ?_⟩
  -- where both are on the way
  have hd_pos : d.transform.v.xy = c.transform.v.along w
      (min (c.transform.base_spd * (n₁ * (1 / (fps₁ : ℝ)))) (c.transform.v.dist w)) := by
    rw [← Components.transform_motion, hmotion]
    exact Components.pos_tick_iterate (c := c.motion) hdt₁ hspd hpath hflag
      (by rwa [Components.isSome_neighbor_motion]) n₁
  have hb_pos : ((Body.update (1 / (fps₂ : ℝ)))^[n₂]
      (b.moveTo (exactGeometry degree) t w c.transform.base_spd)).transform.v.xy =
        c.transform.v.along w
          (min (c.transform.base_spd * (n₂ * (1 / (fps₂ : ℝ)))) (c.transform.v.dist w)) := by
    rw [Body.pos_update_iterate hdt₂ hspd ht, fbVec.along_congr hsame, fbVec.dist_congr hsame]
  have hnonneg : 0 ≤ c.transform.v.dist w := (course_toward degree _ _).nonneg
  refine (fbVec.dist_along_le (le_min (by positivity) hnonneg) (min_le_right _ _)
    (le_min (by positivity) hnonneg) (min_le_right _ _) hd_pos hb_pos).trans ?_
  -- how far they have gone
  have hfar : |n₁ * (1 / (fps₁ : ℝ)) - n₂ * (1 / (fps₂ : ℝ))| ≤ |(ms₁ / 1000 : ℝ) - ms₂ / 1000| +
      MainLoop.spanError fps₁ gap₁ n₁ ms₁ + MainLoop.spanError fps₂ gap₂ n₂ ms₂ := by
    have h₁ := htime₁.abs_sub_le hfps₁
    have h₂ := htime₂.abs_sub_le hfps₂
    rw [abs_le] at h₁ h₂ ⊢
    constructor <;> linarith [le_abs_self ((ms₁ / 1000 : ℝ) - ms₂ / 1000),
      neg_abs_le ((ms₁ / 1000 : ℝ) - ms₂ / 1000)]
  calc |min (c.transform.base_spd * (n₁ * (1 / (fps₁ : ℝ)))) (c.transform.v.dist w) -
        min (c.transform.base_spd * (n₂ * (1 / (fps₂ : ℝ)))) (c.transform.v.dist w)|
      ≤ |c.transform.base_spd * (n₁ * (1 / (fps₁ : ℝ))) -
          c.transform.base_spd * (n₂ * (1 / (fps₂ : ℝ)))| := by
        refine (abs_min_sub_min_le_max _ _ _ _).trans ?_
        rw [sub_self, abs_zero, max_eq_left (abs_nonneg _)]
    _ = c.transform.base_spd * |n₁ * (1 / (fps₁ : ℝ)) - n₂ * (1 / (fps₂ : ℝ))| := by
        rw [← mul_sub, abs_mul, abs_of_pos hspd]
    _ ≤ _ := mul_le_mul_of_nonneg_left hfar hspd.le

/-- One frame at twenty a second and one at thirty, both in six hundredths of a second. -/
theorem apart_le_twenty_thirty : ∃ (rs : ℕ → Region ℝ ℕ) (ss : ℕ → ClientScene ℝ)
    (d : Components ℝ ℕ) (b : Body ℝ), (rs 1).comps 0 = some d ∧ (ss 1).body 0 = some b ∧
      d.transform.v.dist b.transform.v ≤ 1 * (|((60 : ℕ) / 1000 : ℝ) - (60 : ℕ) / 1000| +
        MainLoop.spanError 20 60 1 60 + MainLoop.spanError 30 60 1 60) := by
  let tf : Transform ℝ := ⟨⟨0, 0, 0⟩, 0, 0, 1⟩
  let walker : Components ℝ ℕ := ⟨tf, none, some ⟨[⟨2, 0, 0⟩], .Start⟩, some ∅, none⟩
  let r : Region ℝ ℕ :=
    (Region.empty.set 1 (some ⟨tf, none, none, some ∅, some 7⟩)).set 0 (some walker)
  let rs : ℕ → Region ℝ ℕ := fun n =>
    (fun r => r.tick (exactGeometry fun _ _ => 0) (1 / ((20 : ℚ) : ℝ)) 0 (.ofList [1]) ∅)^[n] r
  let s : ClientScene ℝ := ⟨⟨[(0, ⟨0, tf, none, false⟩)], 1, fun _ => some 0⟩, fun _ => none⟩
  let ss : ℕ → ClientScene ℝ := fun n => (ClientScene.update (1 / ((30 : ℚ) : ℝ)))^[n]
    (s.recvMoveNfy (exactGeometry fun _ _ => 0) (fun _ _ => some 1) (.MoveNfy ⟨2, 0, 0⟩ 1 0))
  have hserver : Ticking (exactGeometry fun _ _ => 0) (1 / ((20 : ℚ) : ℝ)) 0 rs := fun n =>
    ⟨.ofList [1], ∅, SortedSet.not_mem_empty,
      congrArg (fun r => motion r 0) (Function.iterate_succ_apply' ..)⟩
  have hclient : Updating (1 / ((30 : ℚ) : ℝ)) 0 ss := fun n =>
    congrArg (fun s => ClientScene.body s 0) (Function.iterate_succ_apply' ..)
  have hcomps : (rs 0).comps 0 = some walker := (comps_set _).trans (if_pos rfl)
  have hm : ((7 : ℕ), (.MoveNfy ⟨2, 0, 0⟩ 1 0 : Message ℝ)) ∈
      (rs 0).moveNfy 0 (walker.followPath (exactGeometry fun _ _ => 0)).1.transform.speed
        (.ofList [1]) (walker.followPath (exactGeometry fun _ _ => 0)).2 :=
    List.mem_singleton.2 rfl
  have hserver_time : MainLoop.Span 20 60 1 60 :=
    MainLoop.span_of_execute [.read 60, .turn, .turn] (by decide +kernel) (by decide +kernel)
  have hclient_time : MainLoop.Span 30 60 1 60 :=
    MainLoop.span_of_execute [.read 60, .turn, .turn] (by decide +kernel) (by decide +kernel)
  obtain ⟨d, b, h⟩ := apart_le (by norm_num) (by norm_num) hserver hclient one_pos hcomps rfl rfl
    (by decide) (sent_updatePath (rs 0) _ (.ofList [1]) hcomps) hm rfl rfl rfl rfl rfl le_rfl
    hserver_time hclient_time
  exact ⟨rs, ss, d, b, h⟩

end Region

end ClientServer
