import ClientServer.Movement.Navigation
import ClientServer.Server.Movement
import ClientServer.Server.Users

/-!
# Requests of the players

`DashTo`, `MoveTo` and `PathTo` of the server, which ask the navigation mesh before they change an
entity, and the handlers of the packets that call them.  What the mesh answers is given by
`Navigation`, for every query.

* `Region.dashTo`, `Region.moveTo`, `Region.pathTo` : `MoveSystem`.
* `Region.recvMoveReq`, `Region.recvDashReq`, `Region.recvDebugColliderReq` : the handlers.
* `Region.refuses_iff` : **when a refused request changes nothing and is reported**: `FindPath` has
  to succeed, for `PathTo` does not look at its result.
-/

namespace ClientServer

/-- `ErrorCode`. -/
inductive ErrorCode
  | None | PacketError | InValidSession | InValidPos
  deriving DecidableEq

/-- The value of an `ErrorCode`. -/
def ErrorCode.toUInt16 : ErrorCode → UInt16
  | None => 0
  | PacketError => 1
  | InValidSession => 2
  | InValidPos => 101

variable {F U : Type*} [Field F] [LinearOrder F]

/-- The destination that `DashTo` and `MoveTo` adopt if the ray cast answers `t`.  A point made of
the two coordinates of the plane leaves the third unset, here `z`. -/
def fbVec.clip (v dest : fbVec F) (t z : F) : fbVec F :=
  if t < 1 then
    { x := v.x + t * (dest.x - v.x)
      y := v.y + t * (dest.y - v.y)
      z }
  else dest

/-- What `DashTo` and `MoveTo` make of an entity: the `Mover` is a new one, without direction. -/
def Components.headTo (dest : fbVec F) (spd : F) (c : Components F U) : Components F U :=
  { c with
    transform := { c.transform with speed := spd }
    mover := some ⟨dest, ⟨0, 0, 0⟩⟩ }

namespace Region

variable (nav : Navigation F) (r : Region F U) (dest : fbVec F) (eid : Entity)

/-! ### `MoveSystem` -/

/-- `DashTo` and `MoveTo`, at the speed that they set: the region, and what they return. -/
def headTo (z : F) (speed : Transform F → F) : Region F U × Bool :=
  match r.comps eid with
  | none => (r, false)
  | some c =>
    match nav.raycast c.transform.v dest with
    | none => (r, false)
    | some t =>
      (r.set eid (some (c.headTo (c.transform.v.clip dest t z) (speed c.transform))), true)

/-- `DashTo`. -/
def dashTo (z : F) : Region F U × Bool := r.headTo nav dest eid z fun tf => tf.base_spd * (3 : ℕ)

/-- `MoveTo`. -/
def moveTo (z spd : F) : Region F U × Bool := r.headTo nav dest eid z fun _ => spd

/-- `PathTo`.  `FindPath` fails before it appends anything. -/
def pathTo : Region F U × Bool :=
  match r.comps eid with
  | none => (r, false)
  | some c =>
    let tf := c.transform
    let paths := (nav.findPath tf.v dest).getD [] -- what it returns is ignored
    (r.set eid (some { c with
      transform := { tf with speed := tf.base_spd }
      path := some ⟨paths, .Start⟩ }), true)

/-! ### The handlers -/

/-- `Recv_MoveReq` and `Recv_DashReq`, less the packet they read: `move` is what they call for an
entity, and `ack` their answer.  A user without entity has a null id, which is not valid. -/
def recvReq (move : Entity → Region F U × Bool) (ack : UInt16 → Message F) (u : U) (user : User) :
    Region F U :=
  if user.world then
    let (r, ok) := match user.eid with
      | some eid => move eid
      | none => (r, false)
    r.sendTo u (ack (if ok then ErrorCode.None else ErrorCode.InValidPos).toUInt16)
  else r.sendTo u (ack ErrorCode.InValidSession.toUInt16)

/-- `Recv_MoveReq`. -/
def recvMoveReq (u : U) (user : User) : Region F U :=
  r.recvReq (fun eid => r.pathTo nav dest eid) .MoveAck u user

/-- `Recv_DashReq`, which reads a destination. -/
def recvDashReq (z : F) (u : U) (user : User) : Region F U :=
  r.recvReq (fun eid => r.dashTo nav dest eid z) .DashAck u user

/-- `CreateDebugColliderObject`, with `Region::BroadcastInRange`.  `serialize` is
`SerializeDebugCollider`, and `list` what the tree finds, the entity itself included. -/
def createDebugColliderObject (serialize : fbVec F → UInt8 → Int16 → UInt8 × fbVec F × List UInt8)
    (dir : Int16) (type : UInt8) (list : SortedSet Entity) : Region F U :=
  match r.comps eid with
  | none => r
  | some c =>
    let (type, center, data) := serialize c.transform.v type dir
    list.toList.foldl (fun r e => r.send e (.DebugColliderNfy type center data)) r

/-- `Recv_DebugColliderReq`. -/
def recvDebugColliderReq
    (serialize : fbVec F → UInt8 → Int16 → UInt8 × fbVec F × List UInt8)
    (dir : Int16) (type : UInt8) (list : SortedSet Entity) (user : User) : Region F U :=
  match user.world, user.eid with
  | true, some eid => r.createDebugColliderObject eid serialize dir type list
  | _, _ => r

/-! ### Refusals -/

/-- What the navigation mesh refuses is reported and changes nothing of the entity, and what is
reported as done it has allowed. -/
structure Refuses : Prop where
  pathTo : ∀ c, r.comps eid = some c → nav.findPath c.transform.v dest = none →
    (r.pathTo nav dest eid).2 = false ∧ (r.pathTo nav dest eid).1.comps eid = some c ∧
      ∀ u, (r.recvMoveReq nav dest u ⟨some eid, true⟩).sent =
        r.sent ++ [(u, .MoveAck ErrorCode.InValidPos.toUInt16)]
  dashTo : ∀ c z, r.comps eid = some c → nav.raycast c.transform.v dest = none →
    (r.dashTo nav dest eid z).2 = false ∧ (r.dashTo nav dest eid z).1.comps eid = some c
  moveTo : ∀ c z spd, r.comps eid = some c → nav.raycast c.transform.v dest = none →
    (r.moveTo nav dest eid z spd).2 = false ∧ (r.moveTo nav dest eid z spd).1.comps eid = some c
  of_pathTo : (r.pathTo nav dest eid).2 = true →
    ∃ c, r.comps eid = some c ∧ (nav.findPath c.transform.v dest).isSome = true
  of_dashTo : ∀ z, (r.dashTo nav dest eid z).2 = true →
    ∃ c, r.comps eid = some c ∧ (nav.raycast c.transform.v dest).isSome = true
  of_moveTo : ∀ z spd, (r.moveTo nav dest eid z spd).2 = true →
    ∃ c, r.comps eid = some c ∧ (nav.raycast c.transform.v dest).isSome = true

variable {nav r dest eid} {c : Components F U} {z : F} {speed : Transform F → F}

theorem headTo_of_raycast {t : F} (h : r.comps eid = some c)
    (ht : nav.raycast c.transform.v dest = some t) : r.headTo nav dest eid z speed =
      (r.set eid (some (c.headTo (c.transform.v.clip dest t z) (speed c.transform))), true) := by
  simp only [headTo, h, ht]

theorem headTo_of_fails (h : r.comps eid = some c)
    (hfail : nav.raycast c.transform.v dest = none) :
    r.headTo nav dest eid z speed = (r, false) := by
  simp only [headTo, h, hfail]

theorem headTo_eq_true_iff : (r.headTo nav dest eid z speed).2 = true ↔
    ∃ c, r.comps eid = some c ∧ (nav.raycast c.transform.v dest).isSome = true := by
  cases h : r.comps eid with
  | none => simp [headTo, h]
  | some c =>
    cases hray : nav.raycast c.transform.v dest with
    | none => simp [headTo_of_fails h hray, hray]
    | some t => simp [headTo_of_raycast h hray, hray]

/-- `PathTo` refuses nothing but an entity that is not valid. -/
theorem pathTo_eq_true_iff : (r.pathTo nav dest eid).2 = true ↔ ∃ c, r.comps eid = some c := by
  unfold pathTo
  cases r.comps eid <;> simp

/-- **Refusals.**  A refused request changes nothing and is reported, for this region, entity and
destination, iff `FindPath` succeeds or the entity is not valid. -/
theorem refuses_iff : Refuses nav r dest eid ↔
    ∀ c, r.comps eid = some c → (nav.findPath c.transform.v dest).isSome = true := by
  constructor
  · intro h c hc
    by_contra hfail
    -- it is reported as done all the same
    obtain ⟨hfalse, -⟩ := h.pathTo c hc (Option.not_isSome_iff_eq_none.1 hfail)
    rw [pathTo_eq_true_iff.2 ⟨c, hc⟩] at hfalse
    cases hfalse
  · intro h
    refine ⟨fun c hc hfail => ?_, fun c z hc hfail => ?_, fun c z spd hc hfail => ?_,
      fun htrue => ?_, fun z => headTo_eq_true_iff.1, fun z spd => headTo_eq_true_iff.1⟩
    · exact absurd (h c hc) (by simp [hfail])
    · rw [dashTo, headTo_of_fails hc hfail]
      exact ⟨rfl, hc⟩
    · rw [moveTo, headTo_of_fails hc hfail]
      exact ⟨rfl, hc⟩
    · obtain ⟨c, hc⟩ := pathTo_eq_true_iff.1 htrue
      exact ⟨c, hc, h c hc⟩

/-- The way is blocked and no path is found: `PathTo` gives the entity an empty one. -/
theorem pathTo_not_refuses : ¬∀ (nav : Navigation ℚ) (r : Region ℚ ℕ) (dest : fbVec ℚ)
    (eid : Entity), Refuses nav r dest eid := by
  intro h
  let c : Components ℚ ℕ := ⟨⟨⟨-1, 0, 0⟩, 0, 0, 1⟩, none, none, some ∅, some 7⟩
  obtain ⟨hfalse, -⟩ := (h ⟨Navigation.twoPolys (1 / 2), ⟨0, 0, 0⟩, ⟨0, 0, 0⟩⟩
    (Region.empty.set 0 (some c)) ⟨1, 0, 0⟩ 0).pathTo c rfl (by decide +kernel)
  cases hfalse

end Region

end ClientServer
