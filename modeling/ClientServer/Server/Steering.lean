import ClientServer.Server.Wander

/-!
# Steering over a run

A region of the server in which everything that steers an entity is a step of its own: the requests
of the players, `Wander`, `UpdatePath` and `UpdateMove`, in any order and number, while NPCs and
players come and players go.

* `WanderRegion.next`, `steeringSystem` : the steps.
* `Components.Steady` : whoever is said to be moving has a `Mover`.
* `WanderRegion.steady_run` : **no entity is stuck**: it is so in every state of a run, and an entity
  without a `Mover` has no path, or one that `UpdatePath` acts on.
-/

namespace ClientServer

variable {F U : Type*}

namespace WanderRegion

/-- A region without entities. -/
def empty : WanderRegion F U := ⟨.empty, fun _ => none⟩

/-- What happens in a region. -/
inductive Action (F U : Type*)
  | createNpc (eid : Entity) (tf : Transform F) (contacts : SortedSet Entity)
  | createPc (eid : Entity) (user : U) (tf : Transform F) (contacts : SortedSet Entity)
  | leave (eid : Entity)
  | pathTo (nav : Navigation F) (dest : fbVec F) (eid : Entity)
  | dashTo (nav : Navigation F) (dest : fbVec F) (eid : Entity) (z : F)
  | moveTo (nav : Navigation F) (dest : fbVec F) (eid : Entity) (z spd : F)
  | wander (dt : F) (nav : Entity → Navigation F) (l : List Entity)
  | updatePath (contacts : Entity → SortedSet Entity) (l : List Entity)
  | updateMove (dt : F) (found : Entity → SortedSet Entity) (l : List Entity)

variable [Field F] [LinearOrder F]

/-- `NpcSystem::CreateNpc`, with the `WanderComponent` of the new entity. -/
def createNpc (s : WanderRegion F U) (eid : Entity) (tf : Transform F)
    (contacts : SortedSet Entity) : WanderRegion F U :=
  match s.toRegion.createNpc eid tf contacts with
  | (r, some eid) => ⟨r, Function.update s.wandering eid (some ⟨(5 : ℕ), (20 : ℕ), tf.v⟩)⟩
  | (r, none) => { s with toRegion := r }

/-- `Region::Leave`. -/
def leave (s : WanderRegion F U) (eid : Entity) : WanderRegion F U :=
  ⟨s.toRegion.leave eid, Function.update s.wandering eid none⟩

/-- One step.  A created entity was not live before. -/
def next (g : Geometry F) (s : WanderRegion F U) : Action F U → Option (WanderRegion F U)
  | .createNpc eid tf contacts =>
    if s.valid eid then none else some (s.createNpc eid tf contacts)
  | .createPc eid user tf contacts =>
    if s.valid eid then none
    else some { s with toRegion := (s.toRegion.createPc eid user tf contacts).1 }
  | .leave eid => some (s.leave eid)
  | .pathTo nav dest eid => some { s with toRegion := (s.toRegion.pathTo nav dest eid).1 }
  | .dashTo nav dest eid z => some { s with toRegion := (s.toRegion.dashTo nav dest eid z).1 }
  | .moveTo nav dest eid z spd =>
    some { s with toRegion := (s.toRegion.moveTo nav dest eid z spd).1 }
  | .wander dt nav l => some (s.wanderAll dt nav l)
  | .updatePath contacts l => some { s with toRegion := s.updatePathAll g contacts l }
  | .updateMove dt found l => some { s with toRegion := s.updateMoveAll dt found l }

end WanderRegion

/-- A region of the server, step after step. -/
def steeringSystem (F U : Type*) [Field F] [LinearOrder F] (g : Geometry F) :
    LTS (WanderRegion F U) (WanderRegion.Action F U) := .ofNext (WanderRegion.next g)

theorem WanderRegion.toRegion_createNpc [Field F] [LinearOrder F] (s : WanderRegion F U)
    (eid : Entity) (tf : Transform F) (contacts : SortedSet Entity) :
    (s.createNpc eid tf contacts).toRegion = (s.toRegion.createNpc eid tf contacts).1 := by
  unfold createNpc
  split
  · rename_i heq
    rw [heq]
  · rename_i heq
    rw [heq]

/-! ### One entity -/

namespace Components

/-- An entity in view of the loops: if its path says that it is moving, it has a `Mover`. -/
structure Steady (c : Components F U) : Prop where
  neighbor : c.neighbor.isSome = true
  moving : ∀ path, c.path = some path → path.flag = .Moving → c.mover.isSome = true

variable {c : Components F U}

theorem steady_motion_iff : c.motion.Steady ↔ c.Steady :=
  ⟨fun ⟨hn, hm⟩ => ⟨by rwa [isSome_neighbor_motion] at hn, hm⟩,
    fun ⟨hn, hm⟩ => ⟨by rwa [isSome_neighbor_motion], hm⟩⟩

variable [Field F] [LinearOrder F] {dt : F} {nav : Navigation F} {w : WanderComponent F}

theorem Steady.followPath (h : c.Steady) (g : Geometry F) : (c.followPath g).1.Steady := by
  refine ⟨by rw [neighbor_followPath]; exact h.neighbor, ?_⟩
  by_cases hdue : c.PathDue
  · -- the path is removed, or the next segment starts
    obtain ⟨hn, path, hpath, hflag⟩ := hdue
    obtain ⟨O, hO⟩ := Option.isSome_iff_exists.1 hn
    unfold Components.followPath
    rw [hpath, hO]
    dsimp only
    rw [if_neg hflag]
    split
    · exact fun _ hnone => nomatch hnone
    · exact fun _ _ _ => rfl
  · rw [followPath_of_not_due hdue]
    exact h.moving

theorem Steady.advance (h : c.Steady) (mover : Mover F) : (Region.advance dt mover c).Steady := by
  have hn := (Prod.mk.inj (Region.visible_advance dt mover c)).1
  refine ⟨by rw [hn]; exact h.neighbor, fun path hpath hflag => ?_⟩
  unfold Region.advance at hpath ⊢
  dsimp only at hpath ⊢
  split_ifs at hpath ⊢
  · -- on arrival the path is not that of an entity that moves
    obtain ⟨path, -, rfl⟩ := Option.map_eq_some_iff.1 hpath
    cases hflag
  · exact h.moving path hpath hflag

theorem Steady.wander (h : c.Steady) : (c.wander dt nav w).1.1.Steady := by
  by_cases hstands : c.Stands
  · rcases wander_of_stands hstands with ⟨heq, -⟩ | ⟨heq, -⟩ | ⟨⟨path, heq⟩, -⟩
    · rwa [heq]
    · rwa [heq]
    · rw [heq]
      refine ⟨h.neighbor, fun path' hpath hflag => ?_⟩
      obtain rfl := Option.some.inj hpath
      cases hflag
  · rwa [wander_of_not_stands hstands]

/-- Without a `Mover` an entity has no path, or one that `UpdatePath` acts on. -/
theorem Steady.path_followPath_ne (h : c.Steady) (hmover : c.mover = none) {path : PathList F}
    (hpath : c.path = some path) (g : Geometry F) : (c.followPath g).1.path ≠ c.path := by
  refine path_followPath_of_due ⟨h.neighbor, path, hpath, fun hflag => ?_⟩
  have hmoving := h.moving path hpath hflag
  rw [hmover] at hmoving
  cases hmoving

end Components

/-! ### One step -/

namespace Region

open Components

/-- No entity is stuck. -/
def Steady (r : Region F U) : Prop := ∀ e c, r.comps e = some c → c.Steady

variable {r r' : Region F U} {e : Entity} {c : Components F U}

theorem Steady.of_motion_eq (h : r.Steady) (hmotion : r'.motion e = r.motion e)
    (hc : r'.comps e = some c) : c.Steady := by
  rw [motion, hc, Option.map_some] at hmotion
  obtain ⟨d, hd, heq⟩ := Option.map_eq_some_iff.1 hmotion.symm
  rw [← steady_motion_iff, ← heq, steady_motion_iff]
  exact h e d hd

theorem Steady.of_motion (h : r.Steady) (hother : ∀ x, x ≠ e → r'.motion x = r.motion x)
    (hself : ∀ c, r'.comps e = some c → c.Steady) : r'.Steady := by
  intro x d hd
  by_cases hx : x = e
  · subst hx
    exact hself d hd
  · exact h.of_motion_eq (hother x hx) hd

theorem Steady.set (h : r.Steady) (hc : c.Steady) : (r.set e (some c)).Steady := by
  refine h.of_motion (e := e) (fun x hx => ?_) fun d hd => ?_
  · rw [motion, comps_set, if_neg hx, motion]
  · rw [comps_set, if_pos rfl] at hd
    exact Option.some.inj hd ▸ hc

theorem Steady.updateNeighbors (h : r.Steady) (N : SortedSet Entity) (c : Entity) :
    (r.updateNeighbors N c).Steady :=
  fun x _ hd => h.of_motion_eq (motion_updateNeighbors r N c x) hd

theorem Steady.destroy (h : r.Steady) (e : Entity) : (r.destroy e).Steady := by
  refine h.of_motion (e := e) (fun x hx => motion_destroy r hx) fun d hd => ?_
  rw [Region.destroy, comps_set, if_pos rfl] at hd
  cases hd

theorem Steady.leave (h : r.Steady) (e : Entity) : (r.leave e).Steady := by
  unfold Region.leave
  split_ifs
  · exact h.destroy e
  · exact h

theorem Steady.created (h : r.Steady) (tf : Transform F) (user : Option U) :
    ((r.set e (some ⟨tf, none, none, none, user⟩)).modify e (setNeighbor ∅)).Steady := by
  refine h.of_motion (e := e) (fun x hx => ?_) fun d hd => ?_
  · rw [motion, comps_created, if_neg hx, motion]
  · rw [comps_created, if_pos rfl] at hd
    obtain rfl := Option.some.inj hd
    exact ⟨rfl, fun _ hpath => absurd hpath.symm (Option.some_ne_none _)⟩

variable [Field F] [LinearOrder F] {dt z : F} {nav : Navigation F} {dest : fbVec F}

theorem Steady.createNpc (h : r.Steady) (he : r.comps e = none) (tf : Transform F)
    (contacts : SortedSet Entity) : (r.createNpc e tf contacts).1.Steady := by
  unfold Region.createNpc
  by_cases hspawn : spawn tf.v b2AABB.npcRadius = true
  · rw [if_pos hspawn]
    exact (h.created tf none).updateNeighbors contacts e
  · rw [if_neg hspawn, destroy_set he rfl]
    exact h

theorem Steady.createPc (h : r.Steady) (he : r.comps e = none) (user : U) (tf : Transform F)
    (contacts : SortedSet Entity) : (r.createPc e user tf contacts).1.Steady := by
  unfold Region.createPc
  by_cases hspawn : spawn tf.v b2AABB.pcRadius = true
  · rw [if_pos hspawn]
    have hsent : (((r.set e (some ⟨tf, none, none, none, some user⟩)).modify e
        (setNeighbor ∅)).sendTo user (enterWorldAck e tf)).Steady := h.created tf (some user)
    exact hsent.updateNeighbors contacts e
  · rw [if_neg hspawn, destroy_set he rfl]
    exact h

theorem Steady.headTo (h : r.Steady) (speed : Transform F → F) :
    (r.headTo nav dest e z speed).1.Steady := by
  unfold Region.headTo
  cases hc : r.comps e with
  | none => exact h
  | some c =>
    dsimp only
    split
    · exact h
    · exact h.set ⟨(h e c hc).neighbor, fun _ _ _ => rfl⟩

theorem Steady.pathTo (h : r.Steady) : (r.pathTo nav dest e).1.Steady := by
  unfold Region.pathTo
  cases hc : r.comps e with
  | none => exact h
  | some c =>
    refine h.set ⟨(h e c hc).neighbor, fun path hpath hflag => ?_⟩
    obtain rfl := Option.some.inj hpath
    cases hflag

theorem Steady.updatePath (h : r.Steady) (g : Geometry F) (contacts : SortedSet Entity) :
    (r.updatePath g e contacts).1.Steady := by
  refine h.of_motion (e := e) (fun x hx => ?_) fun d hd => ?_
  · rw [motion, comps_updatePath, if_neg hx, motion]
  · rw [comps_updatePath, if_pos rfl] at hd
    obtain ⟨c, hc, rfl⟩ := Option.map_eq_some_iff.1 hd
    exact (h e c hc).followPath g

theorem Steady.moveOn (h : r.Steady) (found : SortedSet Entity) : (r.moveOn dt e found).Steady := by
  unfold Region.moveOn
  split
  · rename_i mover hmover
    obtain ⟨c, hc, -⟩ := Option.bind_eq_some_iff.1 hmover
    have hmove : (r.modify e (advance dt mover)).Steady := by
      unfold modify
      rw [hc]
      exact h.set ((h e c hc).advance mover)
    unfold Region.updateMove
    dsimp only
    split_ifs
    · exact hmove.updateNeighbors found e
    · exact hmove
  · exact h

end Region

namespace WanderRegion

variable [Field F] [LinearOrder F] {s s' : WanderRegion F U} {g : Geometry F} {a : Action F U}

theorem steady_wanderOne (h : s.toRegion.Steady) (dt : F) (nav : Navigation F) (e : Entity) :
    (s.wanderOne dt nav e).1.toRegion.Steady := by
  unfold wanderOne
  split
  · rename_i c w hc hw
    exact h.set (h e c hc).wander
  · exact h

theorem steady_next (h : s.toRegion.Steady) (hstep : s.next g a = some s') :
    s'.toRegion.Steady := by
  cases a with
  | createNpc eid tf contacts =>
    obtain ⟨hfresh, hstep⟩ := Option.ite_none_left_eq_some.1 hstep
    obtain rfl := Option.some.inj hstep
    rw [toRegion_createNpc]
    exact h.createNpc (s.valid_eq_false.1 (Bool.eq_false_iff.2 hfresh)) tf contacts
  | createPc eid user tf contacts =>
    obtain ⟨hfresh, hstep⟩ := Option.ite_none_left_eq_some.1 hstep
    obtain rfl := Option.some.inj hstep
    exact h.createPc (s.valid_eq_false.1 (Bool.eq_false_iff.2 hfresh)) user tf contacts
  | leave eid =>
    obtain rfl := Option.some.inj hstep
    exact h.leave eid
  | pathTo nav dest eid =>
    obtain rfl := Option.some.inj hstep
    exact h.pathTo
  | dashTo nav dest eid z =>
    obtain rfl := Option.some.inj hstep
    exact h.headTo _
  | moveTo nav dest eid z spd =>
    obtain rfl := Option.some.inj hstep
    exact h.headTo _
  | wander dt nav l =>
    obtain rfl := Option.some.inj hstep
    exact Loop.invariant (I := fun s : WanderRegion F U => s.toRegion.Steady)
      (fun s e _ hs => steady_wanderOne hs dt (nav e) e) h
  | updatePath contacts l =>
    obtain rfl := Option.some.inj hstep
    exact Loop.invariant (fun r e _ hr => Region.Steady.updatePath hr g (contacts e)) h
  | updateMove dt found l =>
    obtain rfl := Option.some.inj hstep
    exact List.foldlRecOn l _ h fun r hr e _ => Region.Steady.moveOn hr (found e)

/-- **No entity is stuck.**  In every state of a run whoever is said to be moving has a `Mover`, and
whoever has none, or none any more, has no path or one that `UpdatePath` acts on. -/
theorem steady_run {es : List (WanderRegion F U × Action F U)}
    (h : (steeringSystem F U g).Run empty es s) : ∀ e c, s.comps e = some c →
      (∀ path, c.path = some path → path.flag = .Moving → c.mover.isSome = true) ∧
      (c.mover = none → ∀ path, c.path = some path → (c.followPath g).1.path ≠ c.path) := by
  have hsteady : s.toRegion.Steady :=
    h.invariant (I := fun s => s.toRegion.Steady) (fun _ _ hc => nomatch hc)
      fun _ _ _ hs hstep => steady_next hs hstep
  intro e c hc
  exact ⟨(hsteady e c hc).moving, fun hmover path hpath =>
    (hsteady e c hc).path_followPath_ne hmover hpath g⟩

/-- An NPC is sent along a path, starts, and dashes before it arrives. -/
theorem steady_run_dash : ∃ es s c path,
    (steeringSystem ℚ ℕ ⟨id, fun _ _ => 0⟩).Run empty es s ∧ es.length = 4 ∧
      s.comps 0 = some c ∧ c.path = some path ∧ path.flag = .Moving ∧ c.mover.isSome = true := by
  let nav : Navigation ℚ := ⟨Navigation.twoPolys 2, ⟨0, 0, 0⟩, ⟨0, 0, 0⟩⟩
  obtain ⟨s, hrun, hlast⟩ := LTS.exists_run (next ⟨id, fun _ _ => 0⟩) (empty : WanderRegion ℚ ℕ)
    [.createNpc 0 ⟨⟨0, 0, 0⟩, 0, 0, 1⟩ ∅, .pathTo nav ⟨9, 0, 0⟩ 0, .updatePath (fun _ => ∅) [0],
      .dashTo nav ⟨0, 9, 0⟩ 0 0]
    (fun s => (s.comps 0).any fun c => c.path.any fun path => path.flag = .Moving)
    (by decide +kernel)
  obtain ⟨c, hc, hpath⟩ := (Option.any_eq_true _ _).1 hlast
  obtain ⟨path, hpath, hflag⟩ := (Option.any_eq_true _ _).1 hpath
  exact ⟨_, s, c, path, hrun, by decide +kernel, hc, hpath, of_decide_eq_true hflag,
    (steady_run hrun 0 c hc).1 path hpath (of_decide_eq_true hflag)⟩

end WanderRegion

end ClientServer
