import ClientServer.Data.Loop
import ClientServer.Server.Dash

/-!
# The loops of a tick

`Wander` gives the NPCs that stand still a new path from time to time, `UpdatePath` starts the next
segments, `UpdateMove` takes the entities with a `Mover` a step on.  Each goes through a view, in an
order that is the registry's own; here in that of a list.  What the navigation mesh and the world
tree answer is given for each entity visited.

* `Components.wander`, `WanderRegion.wanderOne` : an iteration of `Wander`.
* `Region.updatePathAll`, `WanderRegion.wanderAll`, `Region.updateMoveAll` : the loops.
* `WanderRegion.visited_alone_iff` : **when no entity stalls another one**: nothing is left to do
  after the entity at which `UpdatePath`, or `Wander`, returns.
-/

namespace ClientServer

/-- `WanderComponent`. -/
structure WanderComponent (F : Type*) where
  acc_time : F
  range : F
  spawn_pos : fbVec F
  deriving DecidableEq

/-- A region with the `WanderComponent`s of its entities. -/
structure WanderRegion (F U : Type*) extends Region F U where
  wandering : Entity → Option (WanderComponent F)

variable {F U : Type*} [Field F] [LinearOrder F]

namespace Components

/-- An iteration of `Wander`: the components afterwards, and whether the loop goes on. -/
def wander (dt : F) (nav : Navigation F) (c : Components F U) (wandering : WanderComponent F) :
    (Components F U × WanderComponent F) × Bool :=
  if c.mover.isSome ∨ c.path.isSome then ((c, wandering), true) -- not in the view
  else
    let tf := c.transform
    let wandering := { wandering with acc_time := wandering.acc_time - dt }
    if wandering.acc_time > 0 then ((c, wandering), true)
    else
      match nav.findRandomPointInCircle tf.v wandering.range with
      | none => ((c, wandering), false)
      | some dest =>
        match nav.findPathDt tf.v.toDt dest with
        | none => ((c, wandering), false)
        | some path =>
          (({ c with path := some ⟨path, .Start⟩ }, { wandering with acc_time := (2 : ℕ) }), true)

end Components

namespace Region

/-- `MoveSystem::UpdatePath`; `contacts` are the answers of the world tree. -/
def updatePathAll (g : Geometry F) (contacts : Entity → SortedSet Entity) (r : Region F U)
    (l : List Entity) : Region F U :=
  Loop.run (fun r e => r.updatePath g e (contacts e)) r l

/-- `MoveSystem::UpdateMove`. -/
def updateMoveAll (dt : F) (found : Entity → SortedSet Entity) (r : Region F U)
    (l : List Entity) : Region F U :=
  l.foldl (fun r e => r.moveOn dt e (found e)) r

end Region

namespace WanderRegion

/-- What belongs to an entity. -/
def own (s : WanderRegion F U) (e : Entity) :
    Option (Components F U) × Option (WanderComponent F) := (s.comps e, s.wandering e)

/-- An iteration of `Wander`, and whether the loop goes on after it. -/
def wanderOne (dt : F) (nav : Navigation F) (s : WanderRegion F U) (e : Entity) :
    WanderRegion F U × Bool :=
  match s.comps e, s.wandering e with
  | some c, some wandering =>
    let ((c, wandering), on) := c.wander dt nav wandering
    ({ toRegion := s.set e (some c)
       wandering := Function.update s.wandering e (some wandering) }, on)
  | _, _ => (s, true)

/-- `Wander`; `nav` is what the mesh, and the random generator, answer. -/
def wanderAll (dt : F) (nav : Entity → Navigation F) (s : WanderRegion F U) (l : List Entity) :
    WanderRegion F U :=
  Loop.run (fun s e => s.wanderOne dt (nav e) e) s l

end WanderRegion

/-! ### What an iteration of `UpdatePath` does -/

namespace Components

/-- `UpdatePath` has something to do for the entity. -/
def PathDue (c : Components F U) : Prop :=
  c.neighbor.isSome = true ∧ ∃ path, c.path = some path ∧ path.flag ≠ .Moving

/-- `UpdatePath` starts a segment. -/
def Departs (c : Components F U) : Prop :=
  c.neighbor.isSome = true ∧ ∃ path, c.path = some path ∧ path.flag ≠ .Moving ∧ path.paths ≠ []

variable {c : Components F U} {g : Geometry F}

theorem path_followPath_of_due (h : c.PathDue) : (c.followPath g).1.path ≠ c.path := by
  obtain ⟨hn, path, hpath, hflag⟩ := h
  obtain ⟨O, hO⟩ := Option.isSome_iff_exists.1 hn
  unfold followPath
  rw [hpath, hO]
  dsimp only
  rw [if_neg hflag]
  split
  · exact (Option.some_ne_none path).symm
  · exact fun heq => hflag (congrArg PathList.flag (Option.some.inj heq)).symm

theorem followPath_of_not_due (h : ¬c.PathDue) : c.followPath g = (c, none) := by
  unfold followPath
  split
  · rename_i path O hpath hO
    have hflag : path.flag = .Moving := by
      by_contra hne
      exact h ⟨by rw [hO]; rfl, path, hpath, hne⟩
    rw [if_pos hflag]
  · rfl

theorem departs_iff : c.Departs ↔ (c.followPath g).2.isSome = true := by
  by_cases hdue : c.PathDue
  · obtain ⟨hn, path, hpath, hflag⟩ := hdue
    obtain ⟨O, hO⟩ := Option.isSome_iff_exists.1 hn
    unfold followPath Departs
    rw [hpath, hO]
    dsimp only
    rw [if_neg hflag]
    cases hpaths : path.paths <;> simp_all
  · rw [followPath_of_not_due hdue]
    exact iff_of_false (fun ⟨hn, path, hpath, hflag, _⟩ => hdue ⟨hn, path, hpath, hflag⟩)
      Bool.false_ne_true

end Components

namespace Region

variable {r : Region F U} {e : Entity} {g : Geometry F} {contacts : Entity → SortedSet Entity}

/-- `UpdatePath` returns at `e`: a segment starts and nobody is in view. -/
def StopsPath (r : Region F U) (contacts : Entity → SortedSet Entity) (e : Entity) : Prop :=
  (∃ c, r.comps e = some c ∧ c.Departs) ∧ (contacts e).toList = []

/-- `UpdatePath` has something to do for `e`. -/
def PathDue (r : Region F U) (e : Entity) : Prop := ∃ c, r.comps e = some c ∧ c.PathDue

theorem updatePath_eq_false_iff :
    (r.updatePath g e (contacts e)).2 = false ↔ r.StopsPath contacts e := by
  unfold updatePath StopsPath
  cases h : r.comps e with
  | none => simp
  | some c =>
    simp only [Option.some.injEq, exists_eq_left', Components.departs_iff (g := g)]
    cases (c.followPath g).2 with
    | none => simp [broadcastMove]
    | some mover =>
      simp only [broadcastMove, List.length_eq_zero_iff, Option.isSome_some, true_and]
      split_ifs with hnil <;> simp [hnil]

theorem comps_updatePath_eq_iff :
    (r.updatePath g e (contacts e)).1.comps e = r.comps e ↔ ¬r.PathDue e := by
  rw [comps_updatePath, if_pos rfl, PathDue]
  cases h : r.comps e with
  | none => simp
  | some c =>
    simp only [Option.map_some, Option.some.injEq, exists_eq_left']
    constructor
    · intro heq hdue
      exact Components.path_followPath_of_due hdue (congrArg Components.path heq)
    · intro hdue
      rw [Components.followPath_of_not_due hdue]

theorem separate_updatePath :
    Loop.Separate (fun (r : Region F U) e => r.updatePath g e (contacts e)) Region.comps where
  others r a b h := by rw [comps_updatePath, if_neg h]
  congr r r' a h := by
    constructor
    · rw [comps_updatePath, comps_updatePath, h]
    · rw [Bool.eq_iff_iff, ← not_iff_not, Bool.not_eq_true, Bool.not_eq_true,
        updatePath_eq_false_iff, updatePath_eq_false_iff, StopsPath, StopsPath, h]

end Region

/-! ### What an iteration of `Wander` does -/

namespace Components

/-- The entity is in the view of `Wander`. -/
def Stands (c : Components F U) : Prop := c.mover = none ∧ c.path = none

/-- No random point is found, or no path there. -/
def Lost (nav : Navigation F) (c : Components F U) (wandering : WanderComponent F) : Prop :=
  ∀ dest, nav.findRandomPointInCircle c.transform.v wandering.range = some dest →
    nav.findPathDt c.transform.v.toDt dest = none

/-- `Wander` returns. -/
def StopsWander (dt : F) (nav : Navigation F) (c : Components F U)
    (wandering : WanderComponent F) : Prop :=
  c.Stands ∧ wandering.acc_time - dt ≤ 0 ∧ c.Lost nav wandering

/-- `Wander` has something to do: to count down, or to give a path. -/
def WanderDue (dt : F) (nav : Navigation F) (c : Components F U)
    (wandering : WanderComponent F) : Prop :=
  c.Stands ∧ (dt ≠ 0 ∨ wandering.acc_time ≤ 0 ∧ ¬c.Lost nav wandering)

variable {dt : F} {nav : Navigation F} {c : Components F U} {wandering : WanderComponent F}

omit [Field F] [LinearOrder F] in
theorem stands_iff : c.Stands ↔ ¬(c.mover.isSome = true ∨ c.path.isSome = true) := by
  unfold Stands
  cases c.mover <;> cases c.path <;> simp

/-- An entity that stands: it goes on waiting, gets nothing, or gets a path. -/
theorem wander_of_stands (h : c.Stands) : c.wander dt nav wandering =
      ((c, { wandering with acc_time := wandering.acc_time - dt }), true) ∧
        0 < wandering.acc_time - dt ∨
    c.wander dt nav wandering =
      ((c, { wandering with acc_time := wandering.acc_time - dt }), false) ∧
        wandering.acc_time - dt ≤ 0 ∧ c.Lost nav wandering ∨
    (∃ path, c.wander dt nav wandering =
      (({ c with path := some ⟨path, .Start⟩ }, { wandering with acc_time := (2 : ℕ) }), true)) ∧
        wandering.acc_time - dt ≤ 0 ∧ ¬c.Lost nav wandering := by
  unfold wander
  rw [if_neg (stands_iff.1 h)]
  dsimp only
  split_ifs with hwait
  · exact .inl ⟨rfl, hwait⟩
  · have hover : wandering.acc_time - dt ≤ 0 := not_lt.1 hwait
    unfold Lost
    cases hdest : nav.findRandomPointInCircle c.transform.v wandering.range with
    | none => exact .inr (.inl ⟨rfl, hover, fun _ h => nomatch h⟩)
    | some dest =>
      dsimp only
      cases hpath : nav.findPathDt c.transform.v.toDt dest with
      | none => exact .inr (.inl ⟨rfl, hover, fun _ h => Option.some.inj h ▸ hpath⟩)
      | some path =>
        refine .inr (.inr ⟨⟨path, rfl⟩, hover, fun hlost => ?_⟩)
        rw [hlost dest rfl] at hpath
        cases hpath

theorem wander_of_not_stands (h : ¬c.Stands) :
    c.wander dt nav wandering = ((c, wandering), true) := by
  unfold wander
  rw [if_pos (not_not.1 (mt stands_iff.2 h))]

theorem wander_eq_false_iff : (c.wander dt nav wandering).2 = false ↔
    c.StopsWander dt nav wandering := by
  unfold StopsWander
  by_cases h : c.Stands
  · rw [and_iff_right h]
    rcases wander_of_stands h with ⟨heq, hwait⟩ | ⟨heq, hstop⟩ | ⟨⟨path, heq⟩, -, hfound⟩
    · rw [heq]
      exact iff_of_false (Bool.noConfusion) fun hstop => absurd hwait (not_lt.2 hstop.1)
    · rw [heq]
      exact iff_of_true rfl hstop
    · rw [heq]
      exact iff_of_false (Bool.noConfusion) fun hstop => hfound hstop.2
  · rw [wander_of_not_stands h]
    exact iff_of_false (Bool.noConfusion) fun hstop => h hstop.1

theorem wander_eq_iff : (c.wander dt nav wandering).1 = (c, wandering) ↔
    ¬c.WanderDue dt nav wandering := by
  unfold WanderDue
  by_cases h : c.Stands
  · have hcount : ({ wandering with acc_time := wandering.acc_time - dt } : WanderComponent F) =
        wandering ↔ dt = 0 := by
      rw [← sub_eq_self (a := wandering.acc_time)]
      exact ⟨congrArg WanderComponent.acc_time, fun heq => by rw [heq]⟩
    rw [and_iff_right h]
    rcases wander_of_stands h with ⟨heq, hwait⟩ | ⟨heq, hstop⟩ | ⟨⟨path, heq⟩, hover, hfound⟩
    · rw [heq, Prod.mk.injEq, and_iff_right rfl, hcount]
      constructor
      · rintro rfl (hdt | ⟨hover, -⟩)
        · exact hdt rfl
        · rw [sub_zero] at hwait
          exact absurd hwait (not_lt.2 hover)
      · intro hidle
        exact not_not.1 fun hdt => hidle (.inl hdt)
    · rw [heq, Prod.mk.injEq, and_iff_right rfl, hcount]
      constructor
      · rintro rfl (hdt | ⟨-, hfound⟩)
        · exact hdt rfl
        · exact hfound hstop.2
      · intro hidle
        exact not_not.1 fun hdt => hidle (.inl hdt)
    · -- it gets a path, even if no time has passed
      rw [heq]
      refine iff_of_false (fun hsame => ?_) fun hidle => hidle ?_
      · have hpath := congrArg (fun p => p.1.path) hsame
        rw [h.2] at hpath
        cases hpath
      · by_cases hdt : dt = 0
        · rw [hdt, sub_zero] at hover
          exact .inr ⟨hover, hfound⟩
        · exact .inl hdt
  · rw [wander_of_not_stands h]
    exact iff_of_true rfl fun hdue => h hdue.1

end Components

namespace WanderRegion

variable {s : WanderRegion F U} {dt : F} {nav : Entity → Navigation F} {e : Entity}

/-- `Wander` returns at `e`. -/
def StopsWander (s : WanderRegion F U) (dt : F) (nav : Entity → Navigation F) (e : Entity) :
    Prop :=
  ∃ c wandering, s.own e = (some c, some wandering) ∧ c.StopsWander dt (nav e) wandering

/-- `Wander` has something to do for `e`. -/
def WanderDue (s : WanderRegion F U) (dt : F) (nav : Entity → Navigation F) (e : Entity) : Prop :=
  ∃ c wandering, s.own e = (some c, some wandering) ∧ c.WanderDue dt (nav e) wandering

theorem own_wanderOne (s : WanderRegion F U) (dt : F) (nav : Navigation F) (e : Entity) :
    (s.wanderOne dt nav e).1.own e =
        (match s.own e with
        | (some c, some wandering) =>
          (some (c.wander dt nav wandering).1.1, some (c.wander dt nav wandering).1.2)
        | p => p) ∧
      (s.wanderOne dt nav e).2 =
        match s.own e with
        | (some c, some wandering) => (c.wander dt nav wandering).2
        | _ => true := by
  unfold wanderOne own
  cases hc : s.comps e with
  | none => exact ⟨by rw [hc], rfl⟩
  | some c =>
    cases hw : s.wandering e with
    | none => exact ⟨by rw [hc, hw], rfl⟩
    | some wandering =>
      exact ⟨Prod.ext ((Region.comps_set _).trans (if_pos rfl)) (Function.update_self ..), rfl⟩

theorem wanderOne_eq_false_iff :
    (s.wanderOne dt (nav e) e).2 = false ↔ s.StopsWander dt nav e := by
  rw [(own_wanderOne s dt (nav e) e).2]
  unfold StopsWander
  rcases s.own e with ⟨_ | c, _ | wandering⟩
  · simp
  · simp
  · simp
  · simp only [Prod.mk.injEq, Option.some.injEq, and_assoc, exists_eq_left',
      exists_and_left, Components.wander_eq_false_iff]

theorem own_wanderOne_eq_iff :
    (s.wanderOne dt (nav e) e).1.own e = s.own e ↔ ¬s.WanderDue dt nav e := by
  rw [(own_wanderOne s dt (nav e) e).1]
  unfold WanderDue
  rcases s.own e with ⟨_ | c, _ | wandering⟩
  · simp
  · simp
  · simp
  · simp only [Option.some.injEq, and_assoc, exists_eq_left', exists_and_left,
      ← Components.wander_eq_iff, Prod.ext_iff]

/-- An iteration of `Wander` touches its entity only. -/
theorem separate_wanderOne :
    Loop.Separate (fun (s : WanderRegion F U) e => s.wanderOne dt (nav e) e) own where
  others s a b h := by
    unfold wanderOne
    split
    · exact Prod.ext ((Region.comps_set _).trans (if_neg h)) (Function.update_of_ne h ..)
    · rfl
  congr s s' a h := by
    obtain ⟨hown, hon⟩ := own_wanderOne s dt (nav a) a
    obtain ⟨hown', hon'⟩ := own_wanderOne s' dt (nav a) a
    rw [hown, hown', hon, hon', h]
    exact ⟨rfl, rfl⟩

/-! ### The loops -/

/-- **Entities on their own.**  `UpdatePath` advances every entity as if it were visited alone iff
nothing is left to do after the entity at which it returns, one that starts a segment with nobody
in view.  `Wander` does iff nothing is left to do after one for which no point or path is found. -/
theorem visited_alone_iff {g : Geometry F} {contacts : Entity → SortedSet Entity}
    {l m : List Entity} (hl : l.Nodup) (hm : m.Nodup) :
    ((∀ e ∈ l, (s.updatePathAll g contacts l).comps e =
        (s.updatePath g e (contacts e)).1.comps e) ↔
      l.Pairwise fun x e => s.StopsPath contacts x → ¬s.PathDue e) ∧
    ((∀ e ∈ m, (s.wanderAll dt nav m).own e = (s.wanderOne dt (nav e) e).1.own e) ↔
      m.Pairwise fun x e => s.StopsWander dt nav x → ¬s.WanderDue dt nav e) := by
  constructor
  · refine (Region.separate_updatePath.alone_iff hl).trans (List.Pairwise.iff ?_)
    intro x e
    rw [Region.updatePath_eq_false_iff, Region.comps_updatePath_eq_iff]
  · refine (separate_wanderOne.alone_iff hm).trans (List.Pairwise.iff ?_)
    intro x e
    rw [wanderOne_eq_false_iff, own_wanderOne_eq_iff]

/-- Every entity has one waypoint to go and dwells for `5`. -/
def strollers : WanderRegion ℚ ℕ where
  comps _ := some ⟨⟨⟨0, 0, 0⟩, 0, 0, 1⟩, none, some ⟨[⟨1, 0, 0⟩], .Start⟩, some ∅, none⟩
  sent := []
  wandering _ := some ⟨5, 20, ⟨0, 0, 0⟩⟩

/-- One polygon, and a random point that is always the center. -/
def meadow : Navigation ℚ := ⟨Navigation.twoPolys 2, ⟨0, 0, 0⟩, ⟨0, 0, 0⟩⟩

theorem visited_alone_iff_company :
    (∀ e ∈ [0, 1], (strollers.updatePathAll ⟨id, fun _ _ => 0⟩ (fun _ => .ofList [2]) [0, 1]).comps
        e = (strollers.updatePath ⟨id, fun _ _ => 0⟩ e (.ofList [2])).1.comps e) ∧
    ∀ e ∈ [0, 1], (strollers.wanderAll 1 (fun _ => meadow) [0, 1]).own e =
      (strollers.wanderOne 1 meadow e).1.own e := by
  obtain ⟨hpath, hwander⟩ := visited_alone_iff (s := strollers) (g := ⟨id, fun _ _ => 0⟩)
    (l := [0, 1]) (m := [0, 1]) (by decide) (by decide)
  refine ⟨hpath.2 (List.pairwise_of_forall fun x e hstop => ?_),
    hwander.2 (List.pairwise_of_forall fun x e hstop => ?_)⟩
  · have hnobody : (SortedSet.ofList [(2 : Entity)]).toList = [] := hstop.2
    exact absurd hnobody (by decide)
  · obtain ⟨c, wandering, hown, hstop⟩ := hstop
    obtain rfl : (⟨5, 20, ⟨0, 0, 0⟩⟩ : WanderComponent ℚ) = wandering :=
      Option.some.inj (Prod.mk.inj hown).2
    exact absurd hstop.2.1 (by decide +kernel)

/-- The first one sees nobody: the second one does not start. -/
theorem updatePathAll_stalls : ¬∀ (g : Geometry ℚ) (contacts : Entity → SortedSet Entity)
    (dt : ℚ) (nav : Entity → Navigation ℚ) (s : WanderRegion ℚ ℕ) (l : List Entity), l.Nodup →
    (∀ e ∈ l, (s.updatePathAll g contacts l).comps e =
      (s.updatePath g e (contacts e)).1.comps e) ∧
    ∀ e ∈ l, (s.wanderAll dt nav l).own e = (s.wanderOne dt (nav e) e).1.own e := by
  intro h
  have hone := (h ⟨id, fun _ _ => 0⟩ (fun _ => ∅) 1 (fun _ => meadow) strollers [0, 1]
    (by decide)).1 1 (by decide)
  have hmover := congrArg (fun c => (c.bind Components.mover).isSome) hone
  revert hmover
  decide +kernel

end WanderRegion

end ClientServer
