import ClientServer.Movement.Direction
import ClientServer.Server.Neighbors

/-!
# Following a path

`MoveSystem::UpdatePath` of the server: an entity that starts, or has arrived, gets a `Mover` to
its next waypoint, and those who see it a `MoveNfy`.  Who sees it is asked of the world tree:
the answer is given from outside, as for the other steps of a region.

* `Components.followPath`, `Region.updatePath` : an iteration of `UpdatePath`.
* `Region.tick` : `UpdatePath` and then `UpdateMove`, as far as one entity goes.
* `Region.comps_updatePath`, `Region.sent_updatePath` : what an iteration does and sends.
* `Region.motion_tick` : **what a tick does to the entity** is a function of its motion alone, and
  nothing of it depends on who is in view.
-/

namespace ClientServer

namespace Components

variable {F U : Type*} [Field F] [LinearOrder F]

/-- An iteration of `MoveSystem::UpdatePath`, less the packet: the components afterwards, and the
`Mover` of the segment that starts, if one does. -/
def followPath (g : Geometry F) (c : Components F U) : Components F U × Option (Mover F) :=
  match c.path, c.neighbor with
  | some path, some _ =>
    if path.flag = .Moving then (c, none)
    else
      match path.paths with
      | [] => ({ c with path := none }, none)
      | dest :: paths =>
        let tf := c.transform
        let mover : Mover F := ⟨dest, g.toward tf.v dest⟩
        let degree := g.unitVectorToDegree mover.dir.x mover.dir.y
        ({ c with
            transform := { tf with degree, speed := tf.base_spd }
            mover := some mover
            path := some ⟨paths, .Moving⟩ }, some mover)
  | _, _ => (c, none) -- not in the view

/-- What an iteration of `MoveSystem::UpdateMove` does to the entity itself. -/
def move (dt : F) (c : Components F U) : Components F U :=
  match c.mover with
  | some mover => Region.advance dt mover c
  | none => c

/-- `UpdatePath` and `UpdateMove`, as far as the entity itself goes. -/
def tick (g : Geometry F) (dt : F) (c : Components F U) : Components F U :=
  move dt (c.followPath g).1

end Components

open Components

namespace Region

variable {F U : Type*} [Field F] [LinearOrder F]

/-- The broadcast of `MoveSystem::UpdatePath` for a segment that starts, and whether the loop goes
on after it: where nobody is in view the function returns. -/
def broadcastMove (r : Region F U) (eid : Entity) (spd : F) (contacts : SortedSet Entity) :
    Option (Mover F) → Region F U × Bool
  | none => (r, true)
  | some mover =>
    if contacts.toList.length = 0 then (r, false)
    else
      let sync := Message.MoveNfy mover.dest spd eid
      (contacts.toList.foldl (fun r proxy => r.send proxy sync) r, true)

/-- An iteration of `MoveSystem::UpdatePath`, and whether the loop goes on after it.  `contacts` is
the answer of the world tree. -/
def updatePath (g : Geometry F) (r : Region F U) (eid : Entity) (contacts : SortedSet Entity) :
    Region F U × Bool :=
  match r.comps eid with
  | none => (r, true)
  | some c =>
    let (c', started) := c.followPath g
    (r.set eid (some c')).broadcastMove eid c'.transform.speed contacts started

/-- `MoveSystem::UpdatePath` and then `MoveSystem::UpdateMove` come to `eid`; the world tree
answers `contacts` and `found`. -/
def tick (g : Geometry F) (dt : F) (r : Region F U) (eid : Entity)
    (contacts found : SortedSet Entity) : Region F U :=
  let r := (r.updatePath g eid contacts).1
  match (r.comps eid).bind Components.mover with
  | some mover => r.updateMove eid dt mover found
  | none => r

end Region

/-! ### The motion of an entity -/

namespace Components

variable {F U : Type*}

/-- The components that movement reads or writes: of the neighbours only that there are any. -/
def motion (c : Components F U) : Components F U :=
  { c with neighbor := c.neighbor.map fun _ => ∅, user := none }

variable (c : Components F U)

@[simp] theorem transform_motion : c.motion.transform = c.transform := rfl

@[simp] theorem mover_motion : c.motion.mover = c.mover := rfl

theorem isSome_neighbor_motion : c.motion.neighbor.isSome = c.neighbor.isSome :=
  Option.isSome_map

theorem motion_setNeighbor {s : SortedSet Entity} (h : c.neighbor.isSome) :
    (c.setNeighbor s).motion = c.motion := by
  obtain ⟨t, ht⟩ := Option.isSome_iff_exists.1 h
  simp [motion, setNeighbor, ht]

theorem motion_addNeighbor (e : Entity) : (c.addNeighbor e).motion = c.motion := by
  unfold motion addNeighbor
  rw [Option.map_map]
  rfl

theorem motion_dropNeighbor (e : Entity) : (c.dropNeighbor e).motion = c.motion := by
  unfold motion dropNeighbor
  rw [Option.map_map]
  rfl

variable [Field F] [LinearOrder F]

theorem visible_followPath (g : Geometry F) :
    ((c.followPath g).1.neighbor, (c.followPath g).1.user) = (c.neighbor, c.user) := by
  unfold followPath
  split
  · split_ifs
    · rfl
    · split <;> rfl
  · rfl

theorem neighbor_followPath (g : Geometry F) : (c.followPath g).1.neighbor = c.neighbor :=
  (Prod.mk.inj (c.visible_followPath g)).1

theorem user_followPath (g : Geometry F) : (c.followPath g).1.user = c.user :=
  (Prod.mk.inj (c.visible_followPath g)).2

theorem neighbor_tick (g : Geometry F) (dt : F) : (c.tick g dt).neighbor = c.neighbor := by
  unfold tick move
  split
  · rw [(Prod.mk.inj (Region.visible_advance dt _ _)).1, neighbor_followPath]
  · exact neighbor_followPath c g

theorem motion_followPath (g : Geometry F) :
    (c.followPath g).1.motion = (c.motion.followPath g).1 := by
  obtain ⟨transform, mover, path, neighbor, user⟩ := c
  cases path with
  | none => rfl
  | some path =>
    cases neighbor with
    | none => rfl
    | some neighbor =>
      simp only [followPath, motion, Option.map_some]
      split_ifs with hflag
      · rfl
      · cases path.paths <;> rfl

theorem motion_advance (dt : F) (mover : Mover F) :
    (Region.advance dt mover c).motion = Region.advance dt mover c.motion := by
  unfold Region.advance
  dsimp only [transform_motion]
  rw [apply_ite motion]
  rfl

theorem motion_move (dt : F) : (c.move dt).motion = c.motion.move dt := by
  obtain ⟨transform, mover, path, neighbor, user⟩ := c
  cases mover with
  | none => rfl
  | some mover =>
    unfold move
    dsimp only [motion]
    rw [← motion, motion_advance]
    rfl

theorem motion_tick (g : Geometry F) (dt : F) : (c.tick g dt).motion = c.motion.tick g dt := by
  rw [tick, motion_move, motion_followPath, tick]

end Components

namespace Region

variable {F U : Type*} (r : Region F U) {e : Entity} {c : Components F U}

/-- The motion of `e` as it is in the region. -/
def motion (e : Entity) : Option (Components F U) := (r.comps e).map Components.motion

theorem motion_of_comps_eq {r' : Region F U} (h : r'.comps e = r.comps e) :
    r'.motion e = r.motion e := by rw [motion, h, motion]

theorem motion_send (c : Entity) (m : Message F) (x : Entity) :
    (r.send c m).motion x = r.motion x := motion_of_comps_eq r (by rw [comps_send])

theorem motion_modify {f : Components F U → Components F U}
    (hf : ∀ c, r.comps e = some c → (f c).motion = c.motion) (x : Entity) :
    (r.modify e f).motion x = r.motion x := by
  unfold motion
  rw [comps_modify]
  split_ifs with hx
  · rw [hx, Option.map_map]
    exact Option.map_congr hf
  · rfl

/-! ### The functions of the visibility -/

theorem motion_tell {f : Components F U → Components F U} {m : Message F}
    (hf : ∀ c : Components F U, (f c).motion = c.motion) (l : List Entity) (x : Entity) :
    (r.tell f m l).motion x = r.motion x := by
  induction l generalizing r with
  | nil => rfl
  | cons e l ih =>
    rw [tell, List.foldl_cons, ← tell, ih, motion_send, motion_modify r fun c _ => hf c]

theorem motion_updateNeighbors (N : SortedSet Entity) (c x : Entity) :
    (r.updateNeighbors N c).motion x = r.motion x := by
  unfold updateNeighbors
  cases hn : r.neighbors c with
  | none => rfl
  | some O =>
    obtain ⟨d, hd, hO⟩ := Option.bind_eq_some_iff.1 hn
    have hent : ∀ x, (r.entered c (N.diff O)).motion x = r.motion x := by
      rw [entered_eq_tell r hd]
      exact motion_tell r (motion_addNeighbor · c) _
    have hself : ∀ d', (r.entered c (N.diff O)).comps c = some d' → d'.neighbor.isSome := by
      intro d' hd'
      have hmotion := hent c
      rw [motion, motion, hd', hd, Option.map_some, Option.map_some, Option.some.injEq] at hmotion
      rw [← isSome_neighbor_motion, hmotion, isSome_neighbor_motion, hO]
      rfl
    dsimp only
    split_ifs
    · have hset := motion_modify (r.entered c (N.diff O)) (e := c) (f := setNeighbor N)
        (fun d' hd' => motion_setNeighbor d' (hself d' hd')) x
      rw [motion_send, hset, hent]
    · exact hent x

theorem motion_destroy {c x : Entity} (hx : x ≠ c) : (r.destroy c).motion x = r.motion x := by
  have hupd : (r.updateDestroyed c).motion x = r.motion x := by
    unfold updateDestroyed
    split
    · rfl
    · exact motion_tell r (motion_dropNeighbor · c) _ x
  rw [← hupd]
  exact motion_of_comps_eq _ ((comps_set _).trans (if_neg hx))

/-! ### `UpdatePath` and `UpdateMove` -/

theorem modify_id : r.modify e id = r := by
  unfold modify
  rw [Option.map_id, id, Function.update_eq_self]

theorem foldl_send_eq_tell (m : Message F) (l : List Entity) :
    l.foldl (fun r x => r.send x m) r = r.tell id m l := by
  unfold tell
  simp only [modify_id]

theorem comps_broadcastMove (spd : F) (contacts : SortedSet Entity) (started : Option (Mover F)) :
    (r.broadcastMove e spd contacts started).1.comps = r.comps := by
  cases started with
  | none => rfl
  | some mover =>
    unfold broadcastMove
    split_ifs
    · rfl
    · dsimp only
      rw [foldl_send_eq_tell]
      funext x
      rw [comps_tell r contacts.nodup, Option.map_id, id, ite_self]

/-- Who is told of a segment that starts. -/
def moveNfy (r : Region F U) (e : Entity) (spd : F) (contacts : SortedSet Entity)
    (started : Option (Mover F)) : List (U × Message F) :=
  started.toList.flatMap fun mover => contacts.toList.filterMap fun x =>
    (r.user x).map fun u => (u, .MoveNfy mover.dest spd e)

theorem sent_broadcastMove (spd : F) (contacts : SortedSet Entity) (started : Option (Mover F)) :
    (r.broadcastMove e spd contacts started).1.sent =
      r.sent ++ r.moveNfy e spd contacts started := by
  cases started with
  | none => exact (List.append_nil _).symm
  | some mover =>
    unfold broadcastMove moveNfy
    rw [Option.toList_some, List.flatMap_singleton]
    split_ifs with hlen
    · rw [List.eq_nil_of_length_eq_zero hlen]
      exact (List.append_nil _).symm
    · dsimp only
      rw [foldl_send_eq_tell]
      exact sent_tell r (f := id) (fun _ => rfl) contacts.toList

variable [Field F] [LinearOrder F]

theorem comps_updatePath (g : Geometry F) (contacts : SortedSet Entity) (x : Entity) :
    (r.updatePath g e contacts).1.comps x =
      if x = e then (r.comps e).map fun c => (c.followPath g).1 else r.comps x := by
  unfold updatePath
  cases h : r.comps e with
  | none =>
    split_ifs with hx
    · rw [hx, Option.map_none]
      exact h
    · rfl
  | some c =>
    dsimp only
    rw [comps_broadcastMove, comps_set]
    rfl

/-- `UpdatePath` tells of a segment that starts all players that the tree finds. -/
theorem sent_updatePath (g : Geometry F) (contacts : SortedSet Entity) (h : r.comps e = some c) :
    (r.updatePath g e contacts).1.sent = r.sent ++
      r.moveNfy e (c.followPath g).1.transform.speed contacts (c.followPath g).2 := by
  have huser : ∀ x, (r.set e (some (c.followPath g).1)).user x = r.user x := fun x => by
    rw [user_set]
    split_ifs with hx
    · rw [hx, user_of_comps r h]
      exact user_followPath c g
    · rfl
  unfold updatePath
  rw [h]
  dsimp only
  rw [sent_broadcastMove, sent_set]
  unfold moveNfy
  simp only [huser]

/-- Of the motions an iteration of `UpdateMove` changes that of its entity only: who is found by the
query does not matter. -/
theorem motion_updateMove (dt : F) (mover : Mover F) (found : SortedSet Entity) (x : Entity) :
    (r.updateMove e dt mover found).motion x = (r.modify e (advance dt mover)).motion x := by
  unfold updateMove
  dsimp only
  split_ifs
  · exact motion_updateNeighbors _ found e x
  · rfl

/-- **What a tick does to the entity.** -/
theorem motion_tick (g : Geometry F) (dt : F) {contacts found : SortedSet Entity}
    (h : r.comps e = some c) :
    (r.tick g dt e contacts found).motion e = some (c.motion.tick g dt) := by
  have hcomps : (r.updatePath g e contacts).1.comps e = some (c.followPath g).1 := by
    rw [comps_updatePath, if_pos rfl, h, Option.map_some]
  rw [← Components.motion_tick, Components.tick, move]
  unfold tick
  dsimp only
  rw [hcomps, Option.bind_some]
  cases hmover : (c.followPath g).1.mover with
  | none =>
    dsimp only
    rw [motion, hcomps, Option.map_some]
  | some mover =>
    dsimp only
    rw [motion_updateMove, motion, comps_modify, if_pos rfl, hcomps, Option.map_some,
      Option.map_some]

end Region

end ClientServer
