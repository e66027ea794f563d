import ClientServer.Client.Region
import ClientServer.Movement.Direction

/-!
# Movement on the client

The client moves the entities it was told of by itself: a `MoveNfy` gives an entity a `Mover`, and
every frame takes the entities with a `Mover` a step on.  The ray cast of the navigation mesh is
a parameter.

* `ClientScene.moveTo`, `ClientScene.recvMoveNfy` : `MoveSystem::MoveTo` and its packet.
* `ClientScene.update` : `MoveSystem::Update`.
* `ClientScene.body_moveTo`, `ClientScene.body_update` : what they do to each entity.
-/

namespace ClientServer

variable {F : Type*}

/-- The components of an entity that the movement of the client reads or writes. -/
structure Body (F : Type*) where
  transform : Transform F
  mover : Option (Mover F)
  path : Option (PathList F)

/-- The region of a client, with the `Mover`s of its entities. -/
structure ClientScene (F : Type*) extends ClientRegion F where
  movers : ℕ → Option (Mover F)

/-- `Raycast` of the client's `NavMesh`: `hit.t`, if it answers at all. -/
abbrev Raycast (F : Type*) := fbVec F → fbVec F → Option F

namespace ClientScene

/-- The body of the entity `k`. -/
def body (s : ClientScene F) (k : ℕ) : Option (Body F) :=
  (s.entities.lookup k).map fun x => ⟨x.transform, s.movers k, x.path⟩

/-- Rewrite the body of every entity. -/
def mapBodies (s : ClientScene F) (f : ℕ → Body F → Body F) : ClientScene F where
  entities := s.entities.map fun p =>
    let b := f p.1 ⟨p.2.transform, s.movers p.1, p.2.path⟩
    (p.1, { p.2 with transform := b.transform, path := b.path })
  next := s.next
  mapped_eid := s.mapped_eid
  movers k := ((s.body k).map (f k)).elim (s.movers k) Body.mover

/-- Give the entity `k` this body. -/
def setBody (s : ClientScene F) (k : ℕ) (b : Body F) : ClientScene F :=
  s.mapBodies fun j => if j = k then fun _ => b else id

end ClientScene

/-! ### `MoveSystem` -/

section Defs

variable [Field F] [LinearOrder F]

/-- `MoveSystem::MoveTo`, for a ray cast that answers `t`. -/
def Body.moveTo (g : Geometry F) (t : F) (dest : fbVec F) (spd : F) (b : Body F) : Body F :=
  let tf := b.transform
  let dest : fbVec F :=
    if t < 1 then
      -- the ray hits; the third coordinate comes second
      { x := tf.v.x + (dest.x - tf.v.x) * t
        y := tf.v.z + (dest.z - tf.v.z) * t
        z := tf.v.y + (dest.y - tf.v.y) * t }
    else dest
  let mover : Mover F := ⟨dest, g.toward tf.v dest⟩
  let degree := g.unitVectorToDegree mover.dir.x mover.dir.y
  { b with transform := { tf with degree, speed := spd }, mover := some mover }

/-- An iteration of `MoveSystem::Update`. -/
def Body.update (dt : F) (b : Body F) : Body F :=
  match b.mover with
  | none => b -- not in the view
  | some mover =>
    let tf := b.transform
    let x := mover.dest.x - tf.v.x
    let y := mover.dest.y - tf.v.y
    let movelen := dt * tf.speed
    if x * x + y * y < movelen * movelen then
      { transform := { tf with v := mover.dest }
        mover := none
        path := b.path.map fun path => { path with flag := .Arrive } }
    else
      let v := { tf.v with
        x := tf.v.x + movelen * mover.dir.x
        y := tf.v.y + movelen * mover.dir.y }
      { b with transform := { tf with v } }

namespace ClientScene

/-- `MoveSystem::MoveTo`.  Every entity of the client has a `Transform`. -/
def moveTo (g : Geometry F) (raycast : Raycast F) (s : ClientScene F) (eid : ℕ) (dest : fbVec F)
    (spd : F) : ClientScene F :=
  match s.body eid with
  | none => s
  | some b =>
    match raycast b.transform.v dest with
    | none => s
    | some t => s.setBody eid (b.moveTo g t dest spd)

/-- `Recv_MoveNfy`. -/
def recvMoveNfy (g : Geometry F) (raycast : Raycast F) (s : ClientScene F) :
    Message F → ClientScene F
  | .MoveNfy dest spd eid =>
    match s.mapped_eid eid with
    | none => s
    | some entity => s.moveTo g raycast entity dest spd
  | _ => s -- goes to another handler

/-- `MoveSystem::Update`. -/
def update (dt : F) (s : ClientScene F) : ClientScene F := s.mapBodies fun _ => Body.update dt

end ClientScene

end Defs

/-! ### The bodies afterwards -/

namespace ClientScene

variable (s : ClientScene F) {k : ℕ} {b : Body F}

theorem lookup_mapBodies (f : ℕ → Body F → Body F) (k : ℕ) :
    (s.mapBodies f).entities.lookup k = (s.entities.lookup k).map fun x =>
      let b := f k ⟨x.transform, s.movers k, x.path⟩
      { x with transform := b.transform, path := b.path } := by
  unfold mapBodies
  dsimp only
  induction s.entities with
  | nil => rfl
  | cons p l ih =>
    rw [List.map_cons, List.lookup_cons, List.lookup_cons, ih]
    cases hk : k == p.1 with
    | false => rfl
    | true =>
      obtain rfl := eq_of_beq hk
      rfl

theorem movers_mapBodies {x : ClientEntity F} (h : s.entities.lookup k = some x)
    (f : ℕ → Body F → Body F) :
    (s.mapBodies f).movers k = (f k ⟨x.transform, s.movers k, x.path⟩).mover := by
  unfold mapBodies body
  dsimp only
  rw [h]
  rfl

theorem body_mapBodies (f : ℕ → Body F → Body F) (k : ℕ) :
    (s.mapBodies f).body k = (s.body k).map (f k) := by
  rw [body, lookup_mapBodies, body]
  cases hx : s.entities.lookup k with
  | none => rfl
  | some x =>
    rw [Option.map_some, Option.map_some, s.movers_mapBodies hx]
    rfl

theorem body_setBody (h : (s.body k).isSome) : (s.setBody k b).body k = some b := by
  obtain ⟨b', hb'⟩ := Option.isSome_iff_exists.1 h
  rw [setBody, body_mapBodies, hb', if_pos rfl, Option.map_some]

variable [Field F] [LinearOrder F]

theorem body_update (dt : F) (k : ℕ) : (s.update dt).body k = (s.body k).map (Body.update dt) :=
  s.body_mapBodies _ k

/-- The entity a `MoveNfy` is about gets a `Mover`, if the ray cast answers. -/
theorem body_recvMoveNfy (g : Geometry F) {raycast : Raycast F} {e : Entity} {dest : fbVec F}
    {spd t : F} (hmap : s.mapped_eid e = some k) (hb : s.body k = some b)
    (ht : raycast b.transform.v dest = some t) :
    (s.recvMoveNfy g raycast (.MoveNfy dest spd e)).body k = some (b.moveTo g t dest spd) := by
  simp only [recvMoveNfy, hmap, moveTo, hb, ht]
  exact s.body_setBody (by rw [hb]; rfl)

end ClientScene

end ClientServer
