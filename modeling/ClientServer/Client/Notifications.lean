import ClientServer.Client.Ids
import ClientServer.Client.Movement

/-!
# What a notification touches

The packets about an entity that is there already name it by its id on the server.  The handlers
look up the client's own id, but for that of `DashNfy`, which takes the one for the other.

* `ClientScene.enter`, `ClientScene.leave` : `Region::Enter` and `Region::Leave`, with the `Mover`s.
* `ClientScene.notify` : the handlers.
* `ClientScene.touches_iff` : **when a notification touches only the entity it names**: a `DashNfy`
  has to be about an entity whose two ids are equal, unless it moves nothing.
-/

namespace ClientServer

variable {F : Type*}

/-- A packet, or an entry of one, about an entity of the server. -/
inductive Notification (F : Type*)
  | MoveNfy (dest : fbVec F) (spd : F) (eid : Entity)
  | DashNfy (dest : fbVec F) (spd : F) (eid : Entity)
  | LeaveNeighborsNfy (leave_entity : Entity)
  /-- One of the `leave_entity` of an `UpdateNeighborsNfy`. -/
  | UpdateNeighborsNfy (leave_entity : Entity)

/-- The id on the server of the entity it is about. -/
def Notification.eid : Notification F → Entity
  | MoveNfy _ _ eid | DashNfy _ _ eid => eid
  | LeaveNeighborsNfy leave_entity | UpdateNeighborsNfy leave_entity => leave_entity

namespace ClientScene

/-- A client that got no packet yet. -/
def init : ClientScene F := ⟨.init, fun _ => none⟩

/-- The entity `k` with its components. -/
def entity (s : ClientScene F) (k : ℕ) : Option (ClientEntity F × Option (Mover F)) :=
  (s.entities.lookup k).map fun x => (x, s.movers k)

/-- `Region::Leave` of an id of the server. -/
def leave (s : ClientScene F) (server_eid : Entity) : ClientScene F :=
  match s.mapped_eid server_eid with
  | none => s
  | some client_eid =>
    { toClientRegion := s.toClientRegion.leave server_eid
      movers := Function.update s.movers client_eid none }

section Field

variable [Field F] [LinearOrder F]

/-- `Region::EnterPlayer`. -/
def enterPlayer (s : ClientScene F) (info : EntityInfo F UInt32) : ClientScene F where
  toClientRegion := s.toClientRegion.enterPlayer info
  movers := Function.update s.movers s.next none

/-- `Region::Enter`. -/
def enter (s : ClientScene F) (info : EntityInfo F UInt32) : ClientScene F where
  toClientRegion := s.toClientRegion.enter info
  movers := Function.update s.movers s.next none

variable (g : Geometry F) (raycast : Raycast F) (toEntity : Entity → ℕ)

/-- `Recv_DashNfy`.  `toEntity` is the entity of the client whose own id has that value. -/
def recvDashNfy (s : ClientScene F) (dest : fbVec F) (spd : F) (eid : Entity) : ClientScene F :=
  s.moveTo g raycast (toEntity eid) dest spd

/-- The handlers of the notifications. -/
def notify (s : ClientScene F) : Notification F → ClientScene F
  | .MoveNfy dest spd eid => s.recvMoveNfy g raycast (.MoveNfy dest spd eid)
  | .DashNfy dest spd eid => s.recvDashNfy g raycast toEntity dest spd eid
  | .LeaveNeighborsNfy leave_entity | .UpdateNeighborsNfy leave_entity => s.leave leave_entity

end Field

/-- From `s` to `s'` only the entity that `eid` is mapped to changes, if that is a live one, and of
the map at most the entry of `eid` goes. -/
structure Touches (s s' : ClientScene F) (eid : Entity) : Prop where
  others : ∀ k, s.mapped_eid eid ≠ some k → s'.entity k = s.entity k
  dead : (∀ k, s.mapped_eid eid = some k → s.entity k = none) → ∀ k, s'.entity k = s.entity k
  mapped : ∀ e, s'.mapped_eid e = s.mapped_eid e ∨ e = eid ∧ s'.mapped_eid e = none
  next : s'.next = s.next

end ClientScene

section Condition

variable [Field F] [LinearOrder F] (g : Geometry F)

/-- The body is on its way to `dest` already, as `MoveTo` would send it there. -/
def Body.HeadsTo (t : F) (dest : fbVec F) (spd : F) (b : Body F) : Prop :=
  let tf := b.transform
  let dest : fbVec F :=
    if t < 1 then
      { x := tf.v.x + (dest.x - tf.v.x) * t
        y := tf.v.z + (dest.z - tf.v.z) * t
        z := tf.v.y + (dest.y - tf.v.y) * t }
    else dest
  let dir := g.toward tf.v dest
  b.mover = some ⟨dest, dir⟩ ∧ tf.degree = g.unitVectorToDegree dir.x dir.y ∧ tf.speed = spd

/-- A `DashNfy` finds the entity it is about under the id it looks for, or moves nothing there. -/
def Notification.Proper (raycast : Raycast F) (toEntity : Entity → ℕ) (s : ClientScene F) :
    Notification F → Prop
  | .DashNfy dest spd eid => s.mapped_eid eid = some (toEntity eid) ∨
      ∀ b t, s.body (toEntity eid) = some b → raycast b.transform.v dest = some t →
        b.HeadsTo g t dest spd
  | _ => True

end Condition

/-! ### The entities afterwards -/

namespace ClientScene

variable {s s' : ClientScene F} {k : ℕ} {e : Entity}

theorem body_eq_map_entity (s : ClientScene F) (k : ℕ) :
    s.body k = (s.entity k).map fun p => ⟨p.1.transform, p.2, p.1.path⟩ := by
  rw [body, entity, Option.map_map]
  rfl

theorem body_eq_none_iff : s.body k = none ↔ s.entity k = none := by
  rw [body_eq_map_entity, Option.map_eq_none_iff]

theorem entity_mapBodies (s : ClientScene F) (f : ℕ → Body F → Body F) (k : ℕ) :
    (s.mapBodies f).entity k = (s.entity k).map fun p =>
      let b := f k ⟨p.1.transform, p.2, p.1.path⟩
      ({ p.1 with transform := b.transform, path := b.path }, b.mover) := by
  rw [entity, lookup_mapBodies, entity]
  cases hx : s.entities.lookup k with
  | none => rfl
  | some x =>
    rw [Option.map_some, Option.map_some, s.movers_mapBodies hx]
    rfl

theorem entity_setBody {b : Body F} (j : ℕ) (h : j = k → s.body k = some b) :
    (s.setBody k b).entity j = s.entity j := by
  rw [setBody, entity_mapBodies]
  by_cases hj : j = k
  · subst hj
    have hb := h rfl
    rw [body_eq_map_entity] at hb
    obtain ⟨p, hp, rfl⟩ := Option.map_eq_some_iff.1 hb
    rw [hp, if_pos rfl]
    rfl
  · rw [if_neg hj]
    cases s.entity j <;> rfl

theorem lookup_filter_ne {α : Type*} (l : List (ℕ × α)) (k j : ℕ) :
    (l.filter fun p => p.1 ≠ k).lookup j = if j = k then none else l.lookup j := by
  induction l with
  | nil => simp
  | cons p l ih =>
    rw [List.filter_cons]
    by_cases hp : p.1 = k
    · rw [if_neg (by simpa using hp), ih, List.lookup_cons]
      split_ifs with hj
      · rfl
      · have hne : (j == p.1) = false := beq_eq_false_iff_ne.2 (hp ▸ hj)
        rw [hne]
    · rw [if_pos (by simpa using hp), List.lookup_cons, List.lookup_cons, ih]
      cases hj : j == p.1 with
      | true =>
        have hjk : j ≠ k := fun hjk => hp (hjk ▸ (eq_of_beq hj).symm)
        rw [if_neg hjk, if_neg hjk]
      | false => rfl

theorem entity_leave (s : ClientScene F) (e : Entity) (j : ℕ) :
    (s.leave e).entity j = if s.mapped_eid e = some j then none else s.entity j := by
  unfold leave
  cases hmap : s.mapped_eid e with
  | none => rfl
  | some k =>
    have hentities : (s.toClientRegion.leave e).entities = s.entities.filter fun p => p.1 ≠ k := by
      rw [ClientRegion.leave, hmap]
    rw [entity, hentities, lookup_filter_ne, entity]
    simp only [Option.some.injEq, @eq_comm _ k j]
    split_ifs with hj
    · rfl
    · rw [Function.update_of_ne hj]

/-! ### What is touched -/

theorem touches_of_entity_eq (h : ∀ k, s'.entity k = s.entity k)
    (hmapped : s'.mapped_eid = s.mapped_eid) (hnext : s'.next = s.next) : Touches s s' e :=
  ⟨fun k _ => h k, fun _ => h, fun e => .inl (congrFun hmapped e), hnext⟩

theorem touches_leave (s : ClientScene F) (e : Entity) : Touches s (s.leave e) e := by
  refine ⟨fun k hk => ?_, fun hdead k => ?_, fun e' => ?_, ?_⟩
  · rw [entity_leave, if_neg hk]
  · rw [entity_leave]
    split_ifs with hk
    · exact (hdead k hk).symm
    · rfl
  · unfold leave ClientRegion.leave
    cases s.mapped_eid e with
    | none => exact .inl rfl
    | some k =>
      dsimp only
      by_cases he : e' = e
      · exact .inr ⟨he, by rw [he, Function.update_self]⟩
      · exact .inl (Function.update_of_ne he ..)
  · unfold leave ClientRegion.leave
    cases s.mapped_eid e <;> rfl

variable [Field F] [LinearOrder F] {g : Geometry F} {raycast : Raycast F} {toEntity : Entity → ℕ}
  {dest : fbVec F} {spd : F}

theorem moveTo_eq_self_iff {b : Body F} {t : F} :
    b.moveTo g t dest spd = b ↔ b.HeadsTo g t dest spd := by
  obtain ⟨⟨v, degree, speed, base_spd⟩, mover, path⟩ := b
  simp only [Body.moveTo, Body.HeadsTo, Body.mk.injEq, Transform.mk.injEq, true_and, and_true]
  constructor
  · rintro ⟨⟨hdegree, hspeed⟩, hmover⟩
    exact ⟨hmover.symm, hdegree.symm, hspeed.symm⟩
  · rintro ⟨hmover, hdegree, hspeed⟩
    exact ⟨⟨hdegree.symm, hspeed.symm⟩, hmover.symm⟩

/-- `MoveTo` leaves an entity as it is that is not its own, or is on its way already. -/
theorem entity_moveTo (j : ℕ) (h : j = k → ∀ b t, s.body k = some b →
      raycast b.transform.v dest = some t → b.HeadsTo g t dest spd) :
    (s.moveTo g raycast k dest spd).entity j = s.entity j := by
  unfold moveTo
  cases hb : s.body k with
  | none => rfl
  | some b =>
    dsimp only
    cases ht : raycast b.transform.v dest with
    | none => rfl
    | some t =>
      refine entity_setBody j fun hj => ?_
      rw [moveTo_eq_self_iff.2 (h hj b t hb ht), hb]

theorem mapped_moveTo : (s.moveTo g raycast k dest spd).mapped_eid = s.mapped_eid ∧
    (s.moveTo g raycast k dest spd).next = s.next := by
  unfold moveTo
  split
  · exact ⟨rfl, rfl⟩
  · split <;> exact ⟨rfl, rfl⟩

theorem touches_moveTo (h : s.mapped_eid e = some k) :
    Touches s (s.moveTo g raycast k dest spd) e := by
  refine ⟨fun j hj => entity_moveTo j fun hjk => absurd (hjk ▸ h) hj, fun hdead j => ?_,
    fun e => .inl (congrFun mapped_moveTo.1 e), mapped_moveTo.2⟩
  refine entity_moveTo j fun _ b t hb => ?_
  rw [body_eq_none_iff.2 (hdead k h)] at hb
  cases hb

/-- **Notifications.**  A notification touches only the entity it names iff it is not a `DashNfy`,
or one whose id is the client's own id of that entity, or one that moves nothing. -/
theorem touches_iff (s : ClientScene F) (n : Notification F) :
    Touches s (s.notify g raycast toEntity n) n.eid ↔ n.Proper g raycast toEntity s := by
  cases n with
  | MoveNfy dest spd eid =>
    refine iff_of_true ?_ trivial
    simp only [notify, recvMoveNfy, Notification.eid]
    cases hmap : s.mapped_eid eid with
    | none => exact touches_of_entity_eq (fun _ => rfl) rfl rfl
    | some k => exact touches_moveTo hmap
  | DashNfy dest spd eid =>
    constructor
    · intro h
      refine or_iff_not_imp_left.2 fun hmap b t hb ht => ?_
      -- the entity with that id is another one, so it stays as it is
      have hsame := congrArg (Option.map fun p : ClientEntity F × Option (Mover F) =>
        (⟨p.1.transform, p.2, p.1.path⟩ : Body F)) (h.others (toEntity eid) hmap)
      rw [← body_eq_map_entity, ← body_eq_map_entity, hb] at hsame
      simp only [notify, recvDashNfy, moveTo, hb, ht] at hsame
      rw [body_setBody _ (by rw [hb]; rfl)] at hsame
      exact moveTo_eq_self_iff.1 (Option.some.inj hsame)
    · rintro (hmap | hheads)
      · exact touches_moveTo hmap
      · exact touches_of_entity_eq (fun j => entity_moveTo j fun _ => hheads) mapped_moveTo.1
          mapped_moveTo.2
  | LeaveNeighborsNfy leave_entity => exact iff_of_true (touches_leave s _) trivial
  | UpdateNeighborsNfy leave_entity => exact iff_of_true (touches_leave s _) trivial

/-- The player has the id `5` on the server, a neighbour has `0`: what is said of the neighbour
moves the player, whose own id is `0`. -/
theorem recvDashNfy_not_touches : ¬∀ (g : Geometry ℚ) (raycast : Raycast ℚ)
    (player neighbour : EntityInfo ℚ UInt32) (n : Notification ℚ),
    Touches ((init.enterPlayer player).enter neighbour)
      (((init.enterPlayer player).enter neighbour).notify g raycast UInt32.toNat n) n.eid := by
  intro h
  have htouches := h ⟨id, fun _ _ => 0⟩ (fun _ _ => some 1) (ClientRegion.standing 5)
    (ClientRegion.standing 0) (.DashNfy ⟨1, 0, 0⟩ 3 0)
  have hmoved := congrArg (Option.map fun p : ClientEntity ℚ × Option (Mover ℚ) =>
    p.1.transform.speed) (htouches.others 0 (by decide +kernel))
  exact absurd hmoved (by decide +kernel)

end ClientScene

end ClientServer
