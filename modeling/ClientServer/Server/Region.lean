import ClientServer.Data.SortedSet
import ClientServer.LTS.Run
import ClientServer.Schema.Handlers
import ClientServer.Server.WorldBox

/-!
# The region of the server

The entities of a region with their components, and what the packets sent to each user say.
Coordinates are in an ordered field `F` (exact arithmetic); `U` are the users.  What the world
tree answers to a query is given to each step from outside: any set of live entities without
the one that asks.

* `Region.updateNeighbors`, `Region.entered`, `Region.updateDestroyed` : `WorldSystem` and the
  hook on the destruction of a `Neighbor`.
* `Region.createNpc`, `Region.createPc`, `Region.leave`, `Region.updateMove` : the steps.
* `Region.next`, `regionSystem` : a region taking step after step.
-/

namespace ClientServer

/-- `entt::entity`. -/
abbrev Entity := UInt32

/-- `Transform`. -/
structure Transform (F : Type*) where
  v : fbVec F
  degree : Int16
  speed : F
  base_spd : F
  deriving DecidableEq

/-- `Mover`. -/
structure Mover (F : Type*) where
  dest : fbVec F
  dir : fbVec F
  deriving DecidableEq

/-- `MoveFlag`. -/
inductive MoveFlag
  | Start | Arrive | Moving
  deriving DecidableEq

/-- `PathList`. -/
structure PathList (F : Type*) where
  paths : List (fbVec F)
  flag : MoveFlag
  deriving DecidableEq

/-- The components of a live entity.  Both factories give it a `Transform` first. -/
structure Components (F U : Type*) where
  transform : Transform F
  mover : Option (Mover F)
  path : Option (PathList F)
  /-- `Neighbor::neighbors`. -/
  neighbor : Option (SortedSet Entity)
  /-- `NetComponent::user`. -/
  user : Option U

namespace Components

variable {F U : Type*}

/-- The components with `s` as the neighbours. -/
def setNeighbor (s : SortedSet Entity) (c : Components F U) : Components F U :=
  { c with neighbor := some s }

/-- `emplace` into the neighbours, where there are any. -/
def addNeighbor (e : Entity) (c : Components F U) : Components F U :=
  { c with neighbor := c.neighbor.map (·.insert e) }

/-- `erase` from the neighbours, where there are any. -/
def dropNeighbor (e : Entity) (c : Components F U) : Components F U :=
  { c with neighbor := c.neighbor.map (·.erase e) }

/-- `WorldSystem::SerializeEntityInfo`. -/
def serializeEntityInfo (eid : Entity) (c : Components F U) : EntityInfo F UInt32 where
  pos := c.transform.v
  endpos := match c.mover with
    | some mover => mover.dest
    | none => c.transform.v
  spd := c.transform.speed
  table_id := 0
  entity_id := eid
  angle := c.transform.degree

end Components

open Components

/-- A region: the components of its live entities, and what was sent to whom so far. -/
structure Region (F U : Type*) where
  comps : Entity → Option (Components F U)
  sent : List (U × Message F)

namespace Region

variable {F U : Type*}

/-- A region without entities. -/
def empty : Region F U := ⟨fun _ => none, []⟩

/-! ### The registry -/

section Registry

variable (r : Region F U) (e : Entity)

/-- `valid`. -/
def valid : Bool := (r.comps e).isSome

/-- The neighbours of `e`, if it has that component. -/
def neighbors : Option (SortedSet Entity) := (r.comps e).bind Components.neighbor

/-- The user `e` is the player of. -/
def user : Option U := (r.comps e).bind Components.user

/-- Rewrite the components of `e`. -/
def modify (f : Components F U → Components F U) : Region F U :=
  { r with comps := Function.update r.comps e ((r.comps e).map f) }

/-- Give `e` these components, or take all from it. -/
def set (c : Option (Components F U)) : Region F U :=
  { r with comps := Function.update r.comps e c }

/-- `user->tcp()->Send`. -/
def sendTo (u : U) (m : Message F) : Region F U := { r with sent := r.sent ++ [(u, m)] }

/-- `Region::Send`: only players get it. -/
def send (m : Message F) : Region F U :=
  match r.user e with
  | some u => r.sendTo u m
  | none => r

end Registry

/-! ### Visibility -/

section Visibility

variable (r : Region F U)

/-- `WorldSystem::Entered`. -/
def entered (caller : Entity) (list : List Entity) : Region F U :=
  match r.comps caller with
  | none => r
  | some c =>
    let sync := Message.EnterNeighborsNfy (c.serializeEntityInfo caller)
    list.foldl (fun r proxy =>
      if r.valid proxy then (r.modify proxy (addNeighbor caller)).send proxy sync else r) r

/-- `WorldSystem::UpdateNeighbors`.  Nothing in it calls `WorldSystem::Leaved`. -/
def updateNeighbors (new_list : SortedSet Entity) (caller : Entity) : Region F U :=
  match r.neighbors caller with
  | none => r
  | some sight =>
    let entered := new_list.diff sight
    let leaved := sight.diff new_list
    let r := r.entered caller entered
    if entered ≠ [] ∨ leaved ≠ [] then
      let r := r.modify caller (setNeighbor new_list)
      let infos := entered.filterMap fun proxy => (r.comps proxy).map (serializeEntityInfo proxy)
      r.send caller (.UpdateNeighborsNfy infos leaved)
    else r

/-- `UpdateDestroyed`, for a neighbour that is gone the tests of both components fail. -/
def updateDestroyed (caller : Entity) : Region F U :=
  match r.neighbors caller with
  | none => r
  | some neighbor =>
    neighbor.toList.foldl (fun r e =>
      (r.modify e (dropNeighbor caller)).send e (.LeaveNeighborsNfy caller)) r

/-- `destroy`, with the hook of `Region::Initialize`. -/
def destroy (e : Entity) : Region F U := (r.updateDestroyed e).set e none

/-- `Region::Leave`, less the proxy of the entity in the world tree. -/
def leave (eid : Entity) : Region F U := if r.valid eid then r.destroy eid else r

end Visibility

/-! ### Factories and movement -/

section Field

variable [Field F] [LinearOrder F] (r : Region F U)

/-- The test of `b2WorldTree::Spawn`: the box of the circle lies in the boundary; that of the
position is always true. -/
def spawn (pos : fbVec F) (radius : F) : Bool := b2AABB.boundary.contains (.around pos radius)

/-- `NpcSystem::CreateNpc`: the region and the new entity, if there is one. -/
def createNpc (eid : Entity) (tf : Transform F) (contacts : SortedSet Entity) :
    Region F U × Option Entity :=
  let r := r.set eid (some ⟨tf, none, none, none, none⟩)
  if spawn tf.v b2AABB.npcRadius then
    let r := r.modify eid (setNeighbor ∅)
    (r.updateNeighbors contacts eid, some eid)
  else (r.destroy eid, none)

/-- `UserSystem::Send_EnterNeighborsAck`. -/
def enterWorldAck (eid : Entity) (tf : Transform F) : Message F :=
  .EnterWorldAck ⟨tf.v, tf.v, tf.speed, 0, eid, tf.degree⟩

/-- `UserSystem::CreatePc`. -/
def createPc (eid : Entity) (user : U) (tf : Transform F) (contacts : SortedSet Entity) :
    Region F U × Option Entity :=
  let r := r.set eid (some ⟨tf, none, none, none, some user⟩)
  if spawn tf.v b2AABB.pcRadius then
    let r := r.modify eid (setNeighbor ∅)
    let r := r.sendTo user (enterWorldAck eid tf)
    (r.updateNeighbors contacts eid, some eid)
  else (r.destroy eid, none)

/-- The first half of an iteration of `MoveSystem::UpdateMove`: the entity arrives, or moves on
by `dt`. -/
def advance (dt : F) (mover : Mover F) (c : Components F U) : Components F U :=
  let tf := c.transform
  let x := mover.dest.x - tf.v.x
  let y := mover.dest.y - tf.v.y
  let move_sqr := dt * tf.speed
  if x * x + y * y < move_sqr * move_sqr then
    { c with
      transform := { tf with v := mover.dest }
      mover := none
      path := c.path.map fun path => { path with flag := .Arrive } }
  else
    let v := { tf.v with
      x := tf.v.x + move_sqr * mover.dir.x
      y := tf.v.y + move_sqr * mover.dir.y }
    { c with transform := { tf with v } }

/-- An iteration of `MoveSystem::UpdateMove`, for an entity with a `Mover`. -/
def updateMove (eid : Entity) (dt : F) (mover : Mover F) (contacts : SortedSet Entity) :
    Region F U :=
  let r := r.modify eid (advance dt mover)
  if contacts.toList.length > 0 then r.updateNeighbors contacts eid else r

end Field

/-! ### Steps -/

/-- What happens in a region.  `contacts` is the answer of the world tree. -/
inductive Action (F U : Type*)
  | createNpc (eid : Entity) (tf : Transform F) (contacts : SortedSet Entity)
  | createPc (eid : Entity) (user : U) (tf : Transform F) (contacts : SortedSet Entity)
  | updateMove (eid : Entity) (dt : F) (contacts : SortedSet Entity)
  | leave (eid : Entity)
  /-- What requests, `Wander` and `MoveSystem::UpdatePath` store in an entity. -/
  | steer (eid : Entity) (degree : Int16) (speed : F) (mover : Option (Mover F))
      (path : Option (PathList F))

/-- The tree answers with live entities other than the one that asks. -/
def Answers (r : Region F U) (eid : Entity) (contacts : SortedSet Entity) : Prop :=
  ∀ x ∈ contacts.toList, r.valid x = true ∧ x ≠ eid

instance (r : Region F U) (eid : Entity) (contacts : SortedSet Entity) :
    Decidable (r.Answers eid contacts) :=
  -- over the list: `Entity` is finite as well, and a search of it would not end
  List.decidableBAll _ _

variable [Field F] [LinearOrder F] [DecidableEq U]

/-- One step.  A created entity was not live before, and its user, new from `HandleAccept`, had no
packet yet. -/
def next (r : Region F U) : Action F U → Option (Region F U)
  | .createNpc eid tf contacts =>
    if r.valid eid = false ∧ r.Answers eid contacts then some (r.createNpc eid tf contacts).1
    else none
  | .createPc eid user tf contacts =>
    if r.valid eid = false ∧ r.Answers eid contacts ∧ ∀ p ∈ r.sent, p.1 ≠ user then
      some (r.createPc eid user tf contacts).1
    else none
  | .updateMove eid dt contacts =>
    match (r.comps eid).bind Components.mover with
    | none => none
    | some mover =>
      if r.Answers eid contacts then some (r.updateMove eid dt mover contacts) else none
  | .leave eid => some (r.leave eid)
  | .steer eid degree speed mover path =>
    some (r.modify eid fun c =>
      { c with transform := { c.transform with degree, speed }, mover, path })

end Region

/-- A region taking step after step. -/
def regionSystem (F U : Type*) [Field F] [LinearOrder F] [DecidableEq U] :
    LTS (Region F U) (Region.Action F U) := .ofNext Region.next

end ClientServer
