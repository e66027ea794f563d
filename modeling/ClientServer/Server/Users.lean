import ClientServer.Server.Sight
import Mathlib.Tactic.Linarith

/-!
# Users between the sessions and the region

A connection is accepted on the io thread and its user queued; the game thread takes the queue
and creates an entity for each user; when a read of the session fails, the io thread makes the
user leave the region.  These steps come in any order, and the game thread moves the entities
in between.  `U` are the users (their addresses).

* `Server.next`, `serverSystem` : the steps.
* `Server.always_noGhosts_iff` : **when there are no ghost players in a run**: whenever the
  queue is taken, no user in it has disconnected already.
-/

namespace ClientServer

/-- The fields of a `User`. -/
structure User where
  /-- `eid_`: unset, or `entt::null`, is `none`. -/
  eid : Option Entity
  /-- `world_` points to the region. -/
  world : Bool

/-- What `CreatePc` draws by lot and is given by the registry and the tree. -/
structure Arrival (F : Type*) where
  eid : Entity
  tf : Transform F
  contacts : SortedSet Entity

/-- The state of the server, with what has happened so far. -/
structure Server (F U : Type*) where
  world : Region F U
  enter_queue : List U
  /-- The fields of the users that were accepted. -/
  users : U → Option User
  /-- The users whose session's read has failed. -/
  disconnected : List U
  /-- Every entity ever created for a user. -/
  created : List (U × Entity)
  /-- The users that were connected when `EnterWorld` took them from the queue. -/
  drained : List U
  /-- The users that had disconnected when `EnterWorld` ran last. -/
  settled : List U

namespace Server

variable {F U : Type*}

/-- The server before the first connection. -/
def init : Server F U := ⟨.empty, [], fun _ => none, [], [], [], []⟩

/-- What happens at the server. -/
inductive Action (F U : Type*)
  | handleAccept (user : U)
  | enterWorld (arrivals : List (Arrival F))
  | disconnect (user : U)
  /-- `Region::Update` moves an entity, or an NPC is created. -/
  | update (a : Region.Action F U)

/-- The steps of a region in which no player comes or goes. -/
def keepsPlayers : Region.Action F U → Bool
  | .createPc .. | .leave _ => false
  | .createNpc .. | .updateMove .. | .steer .. => true

section Steps

variable [Field F] [LinearOrder F] [DecidableEq U]

/-- The start position of `CreatePc`: each of `x` and `y` by `RandomGenerator::Real(-50, 50)`. -/
def startPos (v : fbVec F) : Prop :=
  (-50 ≤ v.x ∧ v.x ≤ 50) ∧ (-50 ≤ v.y ∧ v.y ≤ 50) ∧ v.z = 0

instance (v : fbVec F) : Decidable (startPos v) := inferInstanceAs (Decidable (_ ∧ _ ∧ _))

/-- The body of the loop of `Server::EnterWorld`; `CreatePc` also sets the user's `world_`. -/
def enterOne (s : Server F U) (u : U) (n : Arrival F) : Option (Server F U) :=
  if s.world.valid n.eid = false ∧ s.world.Answers n.eid n.contacts ∧ startPos n.tf.v then
    let pc := s.world.createPc n.eid u n.tf n.contacts
    some { s with
      world := pc.1
      users := Function.update s.users u (some ⟨pc.2, true⟩)
      created := s.created ++ (pc.2.map fun e => (u, e)).toList }
  else none

/-- The loop of `Server::EnterWorld`, with an arrival for each user of the queue. -/
def enterAll (s : Server F U) : List U → List (Arrival F) → Option (Server F U)
  | [], [] => some s
  | u :: queue, n :: arrivals => (s.enterOne u n).bind fun s => s.enterAll queue arrivals
  | _, _ => none

/-- `User::Disconnect`. -/
def leaveWorld (world : Region F U) (user : User) : Region F U :=
  match user.world, user.eid with
  | true, some eid => world.leave eid
  | _, _ => world

/-- One step.  A session's read fails once, as it is not read again. -/
def next (s : Server F U) : Action F U → Option (Server F U)
  | .handleAccept u =>
    match s.users u with
    | some _ => none
    | none =>
      some { s with
        users := Function.update s.users u (some ⟨none, false⟩)
        enter_queue := s.enter_queue ++ [u] }
  | .enterWorld arrivals =>
    (s.enterAll s.enter_queue arrivals).map fun s' => { s' with
      enter_queue := []
      drained := s.drained ++ s.enter_queue.filter (· ∉ s.disconnected)
      settled := s.disconnected }
  | .disconnect u =>
    match s.users u with
    | none => none
    | some user =>
      if u ∈ s.disconnected then none
      else some { s with
        world := leaveWorld s.world user
        disconnected := u :: s.disconnected }
  | .update a =>
    if keepsPlayers a then (s.world.next a).map fun world => { s with world } else none

end Steps

/-- How many entities were created for `u` so far. -/
def count [DecidableEq U] (s : Server F U) (u : U) : ℕ := (s.created.map Prod.fst).count u

/-- No user gets two entities, one that is connected when the queue is taken gets one, and one
that had disconnected before has none left. -/
structure NoGhosts [DecidableEq U] (s : Server F U) : Prop where
  once : ∀ u, s.count u ≤ 1
  entered : ∀ u ∈ s.drained, s.count u = 1
  cleared : ∀ u ∈ s.settled, ∀ e, s.world.user e ≠ some u

end Server

/-- The server, step after step. -/
def serverSystem (F U : Type*) [Field F] [LinearOrder F] [DecidableEq U] :
    LTS (Server F U) (Server.Action F U) := .ofNext Server.next

namespace Server

variable {F U : Type*}

/-! ### The players of a region -/

section Players

variable [Field F] [LinearOrder F] {r r' : Region F U} {e : Entity}

theorem spawn_startPos [IsStrictOrderedRing F] {v : fbVec F} (h : startPos v) :
    Region.spawn v b2AABB.pcRadius = true := by
  obtain ⟨⟨hx, hx'⟩, ⟨hy, hy'⟩, -⟩ := h
  have h35 : (0 : F) < 3 / 5 ∧ (3 / 5 : F) < 1 := ⟨by norm_num, by norm_num⟩
  rw [Region.spawn, b2AABB.contains]
  refine decide_eq_true ?_
  simp only [b2AABB.boundary, b2AABB.around, b2AABB.pcRadius]
  exact ⟨by linarith, by linarith, by linarith, by linarith⟩

/-- A new player is the player of its user, and no other entity changes its user. -/
theorem user_createPc {u : U} {tf : Transform F} {N : SortedSet Entity}
    (h : Region.spawn tf.v b2AABB.pcRadius = true) (x : Entity) :
    (r.createPc e u tf N).1.user x = if x = e then some u else r.user x := by
  unfold Region.createPc
  rw [if_pos h]
  dsimp only
  rw [Region.user_updateNeighbors]
  exact (Region.user_modify _ (Components.user_setNeighbor · ∅) x).trans (r.user_set)

theorem user_createNpc {tf : Transform F} {N : SortedSet Entity} (h : r.comps e = none)
    (x : Entity) : (r.createNpc e tf N).1.user x = r.user x := by
  unfold Region.createNpc
  by_cases hspawn : Region.spawn tf.v b2AABB.npcRadius = true
  · rw [if_pos hspawn]
    dsimp only
    rw [Region.user_updateNeighbors, Region.user_modify _ (Components.user_setNeighbor · ∅),
      Region.user_set]
    split_ifs with hx
    · rw [hx, Region.user, h]
      rfl
    · rfl
  · rw [if_neg hspawn, Region.destroy_set h rfl]

theorem user_updateMove {dt : F} {mover : Mover F} {N : SortedSet Entity} (x : Entity) :
    (r.updateMove e dt mover N).user x = r.user x := by
  have hmove := Region.user_modify r (e := e) (f := Region.advance dt mover)
    (fun d => (Prod.mk.inj (Region.visible_advance dt mover d)).2) x
  unfold Region.updateMove
  dsimp only
  split_ifs
  · rw [Region.user_updateNeighbors, hmove]
  · exact hmove

theorem user_update [DecidableEq U] {a : Region.Action F U} (ha : keepsPlayers a = true)
    (h : r.next a = some r') (x : Entity) : r'.user x = r.user x := by
  cases a with
  | createPc => cases ha
  | leave => cases ha
  | createNpc eid tf contacts =>
    obtain ⟨⟨hfresh, -⟩, h⟩ := Option.ite_none_right_eq_some.1 h
    obtain rfl := Option.some.inj h
    exact user_createNpc (r.valid_eq_false.1 hfresh) x
  | updateMove eid dt contacts =>
    simp only [Region.next] at h
    split at h
    · cases h
    · obtain ⟨-, h⟩ := Option.ite_none_right_eq_some.1 h
      obtain rfl := Option.some.inj h
      exact user_updateMove x
  | steer eid degree speed mover path =>
    obtain rfl := Option.some.inj h
    refine Region.user_modify r ?_ x
    intro d
    rfl

end Players

/-! ### The state of one user -/

section Invariant

variable [DecidableEq U]

/-- Where a user can be, if the users in `queue` still wait to enter. -/
inductive Status (s : Server F U) (queue : List U) (u : U) : Prop
  | unknown (user : s.users u = none) (queued : u ∉ queue) (connected : u ∉ s.disconnected)
      (count : s.count u = 0) (entity : ∀ x, s.world.user x ≠ some u)
  | waiting (user : s.users u = some ⟨none, false⟩) (queued : u ∈ queue) (count : s.count u = 0)
      (entity : ∀ x, s.world.user x ≠ some u)
  | inWorld (e : Entity) (user : s.users u = some ⟨some e, true⟩) (queued : u ∉ queue)
      (count : s.count u = 1)
      (entity : ∀ x, s.world.user x = some u ↔ x = e ∧ u ∉ s.disconnected)

/-- Every user is in one of these states, and the history agrees with it. -/
structure Consistent (s : Server F U) (queue : List U) : Prop where
  nodup : queue.Nodup
  status : ∀ u, Status s queue u
  drained : ∀ u ∈ s.drained, s.count u = 1
  settled : s.settled ⊆ s.disconnected

variable {s s' : Server F U} {queue queue' : List U} {u v : U}

theorem consistent_init : Consistent (init : Server F U) [] where
  nodup := .nil
  status _ := .unknown rfl List.not_mem_nil List.not_mem_nil rfl fun _ => nofun
  drained _ h := nomatch h
  settled _ h := nomatch h

theorem Status.congr (h : Status s queue v) (user : s'.users v = s.users v)
    (queued : v ∈ queue' ↔ v ∈ queue) (connected : v ∈ s'.disconnected ↔ v ∈ s.disconnected)
    (count : s'.count v = s.count v)
    (entity : ∀ x, s'.world.user x = some v ↔ s.world.user x = some v) : Status s' queue' v := by
  cases h with
  | unknown hu hq hd hc he =>
    exact .unknown (user.trans hu) (mt queued.1 hq) (mt connected.1 hd) (count.trans hc)
      fun x => mt (entity x).1 (he x)
  | waiting hu hq hc he =>
    exact .waiting (user.trans hu) (queued.2 hq) (count.trans hc) fun x => mt (entity x).1 (he x)
  | inWorld e hu hq hc he =>
    refine .inWorld e (user.trans hu) (mt queued.1 hq) (count.trans hc) fun x => ?_
    rw [entity, he, not_congr connected]

theorem Status.of_mem (h : Status s queue u) (hu : u ∈ queue) :
    s.users u = some ⟨none, false⟩ ∧ s.count u = 0 ∧ ∀ x, s.world.user x ≠ some u := by
  cases h with
  | waiting user queued count entity => exact ⟨user, count, entity⟩
  | unknown user queued => exact absurd hu queued
  | inWorld e user queued => exact absurd hu queued

theorem Consistent.noGhosts (h : Consistent s queue) : s.NoGhosts where
  once u := by
    cases h.status u with
    | unknown _ _ _ count => omega
    | waiting _ _ count => omega
    | inWorld _ _ _ count => omega
  entered := h.drained
  cleared u hu := by
    have hgone : u ∈ s.disconnected := h.settled hu
    cases h.status u with
    | unknown _ _ _ _ entity => exact entity
    | waiting _ _ _ entity => exact entity
    | inWorld e _ _ _ entity => exact fun x hx => ((entity x).1 hx).2 hgone

end Invariant

/-! ### Taking the queue -/

section EnterWorld

variable [Field F] [LinearOrder F] [IsStrictOrderedRing F] [DecidableEq U]
  {s s' : Server F U} {queue : List U} {u v : U}

/-- One turn of the loop: the user gets the entity of the arrival, and the rest stays. -/
theorem enterOne_spec {n : Arrival F} (h : s.enterOne u n = some s') :
    s.world.valid n.eid = false ∧
      s'.users = Function.update s.users u (some ⟨some n.eid, true⟩) ∧
      s'.created = s.created ++ [(u, n.eid)] ∧
      (∀ x, s'.world.user x = if x = n.eid then some u else s.world.user x) ∧
      (s'.disconnected = s.disconnected ∧ s'.drained = s.drained ∧ s'.settled = s.settled) := by
  obtain ⟨⟨hfresh, -, hpos⟩, h⟩ := Option.ite_none_right_eq_some.1 h
  obtain rfl := Option.some.inj h
  have hspawn := spawn_startPos hpos
  have heid : (s.world.createPc n.eid u n.tf n.contacts).2 = some n.eid := by
    rw [Region.createPc, if_pos hspawn]
  refine ⟨hfresh, ?_, ?_, user_createPc hspawn, rfl, rfl, rfl⟩
  · rw [heid]
  · rw [heid]
    rfl

theorem user_enterOne {n : Arrival F} (h : s.enterOne u n = some s') {x : Entity}
    (hx : s.world.user x = some v) : s'.world.user x = some v := by
  obtain ⟨hfresh, -, -, huser, -⟩ := enterOne_spec h
  have hne : x ≠ n.eid := by
    rintro rfl
    rw [Region.user, s.world.valid_eq_false.1 hfresh] at hx
    cases hx
  rw [huser, if_neg hne, hx]

/-- The loop gives every user of the queue an entity, whether it is still connected or not. -/
theorem enterAll_user {arrivals : List (Arrival F)} (h : s.enterAll queue arrivals = some s') :
    (∀ x v, s.world.user x = some v → s'.world.user x = some v) ∧
      ∀ u ∈ queue, ∃ x, s'.world.user x = some u := by
  induction queue generalizing s arrivals with
  | nil =>
    cases arrivals with
    | nil =>
      obtain rfl := Option.some.inj h
      exact ⟨fun _ _ => id, fun _ hu => nomatch hu⟩
    | cons => cases h
  | cons u queue ih =>
    cases arrivals with
    | nil => cases h
    | cons n arrivals =>
      obtain ⟨t, hone, hall⟩ := Option.bind_eq_some_iff.1 h
      obtain ⟨hkeep, hget⟩ := ih hall
      obtain ⟨-, -, -, huser, -⟩ := enterOne_spec hone
      refine ⟨fun x v hx => hkeep x v (user_enterOne hone hx), fun v hv => ?_⟩
      -- the turn of `v`, or a later one
      rcases List.mem_cons.1 hv with rfl | hv
      · exact ⟨n.eid, hkeep _ _ (by rw [huser, if_pos rfl])⟩
      · exact hget v hv

theorem Consistent.enterOne {n : Arrival F} (h : Consistent s (u :: queue))
    (hd : u ∉ s.disconnected) (hone : s.enterOne u n = some s') : Consistent s' queue := by
  obtain ⟨hfresh, husers, hcreated, huser, hdisc, hdrained, hsettled⟩ := enterOne_spec hone
  obtain ⟨hu, hnd⟩ := List.nodup_cons.1 h.nodup
  obtain ⟨-, hcount, hnone⟩ := (h.status u).of_mem List.mem_cons_self
  have hcount' : ∀ v, s'.count v = s.count v + if u = v then 1 else 0 := fun v => by
    rw [Server.count, hcreated, List.map_append, List.count_append]
    simp [Server.count, List.count_singleton]
  refine ⟨hnd, fun v => ?_, fun v hv => ?_, by rw [hsettled, hdisc]; exact h.settled⟩
  · by_cases hvu : v = u
    · subst hvu
      refine .inWorld n.eid (by rw [husers, Function.update_self]) hu (by simp [hcount', hcount])
        fun x => ?_
      rw [huser, hdisc]
      split_ifs with hx
      · simp [hx, hd]
      · simp [hx, hnone x]
    · refine (h.status v).congr (by rw [husers, Function.update_of_ne hvu]) ?_ (by rw [hdisc]) ?_
        fun x => ?_
      · rw [List.mem_cons, or_iff_right hvu]
      · rw [hcount', if_neg (Ne.symm hvu), Nat.add_zero]
      · -- the entity of the arrival was nobody's before
        rw [huser]
        split_ifs with hx
        · have hfree : s.world.user x = none := by
            rw [hx, Region.user, s.world.valid_eq_false.1 hfresh]
            rfl
          rw [hfree]
          exact iff_of_false (fun hu => hvu (Option.some.inj hu).symm) (Option.some_ne_none v).symm
        · rfl
  · rw [hdrained] at hv
    have hone' := h.drained v hv
    have hne : u ≠ v := by
      rintro rfl
      omega
    rw [hcount', if_neg hne, hone']

theorem Consistent.enterAll {arrivals : List (Arrival F)} (h : Consistent s queue)
    (hd : ∀ u ∈ queue, u ∉ s.disconnected) (hall : s.enterAll queue arrivals = some s') :
    Consistent s' [] ∧ s'.disconnected = s.disconnected ∧ s'.drained = s.drained := by
  induction queue generalizing s arrivals with
  | nil =>
    cases arrivals with
    | nil =>
      obtain rfl := Option.some.inj hall
      exact ⟨h, rfl, rfl⟩
    | cons => cases hall
  | cons u queue ih =>
    cases arrivals with
    | nil => cases hall
    | cons n arrivals =>
      obtain ⟨t, hone, hrest⟩ := Option.bind_eq_some_iff.1 hall
      obtain ⟨-, -, -, -, hdisc, hdrained, -⟩ := enterOne_spec hone
      rw [List.forall_mem_cons] at hd
      obtain ⟨hcons, hdisc', hdrained'⟩ :=
        ih (h.enterOne hd.1 hone) (by rw [hdisc]; exact hd.2) hrest
      exact ⟨hcons, hdisc'.trans hdisc, hdrained'.trans hdrained⟩

end EnterWorld

/-! ### Runs -/

/-- When the queue is taken no user in it has disconnected. -/
def TakesConnected (s : Server F U) : Action F U → Prop
  | .enterWorld _ => ∀ u ∈ s.enter_queue, u ∉ s.disconnected
  | _ => True

instance [DecidableEq U] (s : Server F U) : (a : Action F U) → Decidable (s.TakesConnected a)
  | .enterWorld _ => List.decidableBAll _ _
  | .handleAccept _ | .disconnect _ | .update _ => .isTrue trivial

section Runs

variable [Field F] [LinearOrder F] [DecidableEq U]
  {s s' : Server F U} {a : Action F U} {u : U}

/-- A read fails: a user in the world leaves it, one in the queue stays there. -/
theorem Consistent.disconnect (h : Consistent s s.enter_queue)
    (hstep : s.next (.disconnect u) = some s') : Consistent s' s'.enter_queue := by
  simp only [next] at hstep
  split at hstep
  · cases hstep
  · rename_i user huser
    split_ifs at hstep with hd
    obtain rfl := Option.some.inj hstep
    refine ⟨h.nodup, fun v => ?_, h.drained, fun v hv => List.mem_cons_of_mem u (h.settled hv)⟩
    have hstatus := h.status u
    by_cases hvu : v = u
    · subst hvu
      cases hstatus with
      | unknown hnone => rw [hnone] at huser; cases huser
      | waiting hu hq hc he =>
        obtain rfl := Option.some.inj (huser.symm.trans hu)
        exact .waiting hu hq hc he
      | inWorld e hu hq hc he =>
        obtain rfl := Option.some.inj (huser.symm.trans hu)
        refine .inWorld e hu hq hc fun x => ?_
        refine iff_of_false ?_ fun hx => hx.2 List.mem_cons_self
        rw [leaveWorld, Region.user_leave]
        split_ifs with hx
        · exact nofun
        · exact fun hxu => hx ((he x).1 hxu).1
    · refine (h.status v).congr rfl Iff.rfl ?_ rfl fun x => ?_
      · rw [List.mem_cons, or_iff_right hvu]
      · cases hstatus with
        | unknown hnone => rw [hnone] at huser; cases huser
        | waiting hu =>
          obtain rfl := Option.some.inj (huser.symm.trans hu)
          rfl
        | inWorld e hu hq hc he =>
          obtain rfl := Option.some.inj (huser.symm.trans hu)
          rw [leaveWorld, Region.user_leave]
          split_ifs with hx
          · -- the entity that leaves is the one of `u`
            rw [hx, (he e).2 ⟨rfl, hd⟩]
            exact iff_of_false nofun fun huv => hvu (Option.some.inj huv).symm
          · rfl

variable [IsStrictOrderedRing F]

theorem Consistent.step (h : Consistent s s.enter_queue) (hstep : s.next a = some s')
    (hc : s.TakesConnected a) : Consistent s' s'.enter_queue := by
  cases a with
  | handleAccept u =>
    simp only [next] at hstep
    split at hstep
    · cases hstep
    · rename_i hnone
      obtain rfl := Option.some.inj hstep
      have hu : u ∉ s.enter_queue := fun hin => by
        rw [((h.status u).of_mem hin).1] at hnone
        cases hnone
      refine ⟨?_, fun v => ?_, h.drained, h.settled⟩
      · dsimp only
        rw [← List.concat_eq_append]
        exact h.nodup.concat hu
      · by_cases hvu : v = u
        · subst hvu
          have hend : v ∈ s.enter_queue ++ [v] :=
            List.mem_append_right _ (List.mem_singleton_self v)
          cases h.status v with
          | unknown _ _ _ count entity =>
            exact .waiting (Function.update_self ..) hend count entity
          | waiting user => rw [user] at hnone; cases hnone
          | inWorld e user => rw [user] at hnone; cases hnone
        · refine (h.status v).congr (Function.update_of_ne hvu ..) ?_ Iff.rfl rfl fun _ => Iff.rfl
          rw [List.mem_append, List.mem_singleton, or_iff_left hvu]
  | enterWorld arrivals =>
    obtain ⟨t, hall, rfl⟩ := Option.map_eq_some_iff.1 hstep
    obtain ⟨hcons, hdisc, hdrained⟩ := h.enterAll hc hall
    refine ⟨.nil, fun v => (hcons.status v).congr rfl Iff.rfl Iff.rfl rfl fun _ => Iff.rfl,
      fun v hv => ?_, fun v (hv : v ∈ s.disconnected) => hdisc.symm ▸ hv⟩
    rcases List.mem_append.1 hv with hv | hv
    · exact hcons.drained v (hdrained ▸ hv)
    · -- it has an entity now, so it is in the world
      obtain ⟨x, hx⟩ := (enterAll_user hall).2 v (List.mem_filter.1 hv).1
      cases hcons.status v with
      | unknown _ _ _ _ entity => exact absurd hx (entity x)
      | waiting _ queued => exact absurd queued List.not_mem_nil
      | inWorld _ _ _ count => exact count
  | disconnect u => exact h.disconnect hstep
  | update a =>
    obtain ⟨hkeeps, hstep⟩ := Option.ite_none_right_eq_some.1 hstep
    obtain ⟨world, hworld, rfl⟩ := Option.map_eq_some_iff.1 hstep
    refine ⟨h.nodup, fun v => ?_, h.drained, h.settled⟩
    exact (h.status v).congr rfl Iff.rfl Iff.rfl rfl fun x => by rw [user_update hkeeps hworld]

/-- **No ghost players.**  In every state of a run no user has had two entities, each that was
connected when the queue was taken has had one, and none that had disconnected before has one
left, iff no user in the queue had disconnected whenever it was taken. -/
theorem always_noGhosts_iff {es : List (Server F U × Action F U)}
    (h : (serverSystem F U).Run init es s) :
    LTS.Always NoGhosts es s ↔ ∀ e ∈ es, e.1.TakesConnected e.2 := by
  refine h.always_iff (I := fun s => Consistent s s.enter_queue) (C := TakesConnected)
    consistent_init (fun s hs => hs.noGhosts) (fun s a s' hs hstep hc => hs.step hstep hc) ?_
  intro s a s' hs hstep hghosts
  cases a with
  | enterWorld arrivals =>
    -- a user that had disconnected gets an entity like the others
    intro u hu hd
    obtain ⟨t, hall, rfl⟩ := Option.map_eq_some_iff.1 hstep
    obtain ⟨x, hx⟩ := (enterAll_user hall).2 u hu
    exact hghosts.cleared u hd x hx
  | _ => trivial

theorem always_noGhosts_iff_three : ∃ es s, (serverSystem ℚ ℕ).Run init es s ∧ es.length = 6 ∧
    LTS.Always NoGhosts es s := by
  obtain ⟨s, hrun, -⟩ := LTS.exists_run next init
    [.handleAccept 1, .handleAccept 2, .enterWorld [⟨0, Region.origin, ∅⟩,
      ⟨1, Region.origin, .ofList [0]⟩], .disconnect 1, .handleAccept 3,
      .enterWorld [⟨0, Region.origin, .ofList [1]⟩]] (fun _ => true) (by decide +kernel)
  exact ⟨_, s, hrun, by decide +kernel, (always_noGhosts_iff hrun).2 (by decide +kernel)⟩

/-- The user disconnects while it waits in the queue, and gets an entity afterwards. -/
theorem enterWorld_not_noGhosts : ¬∀ (es : List (Server ℚ ℕ × Action ℚ ℕ)) (s : Server ℚ ℕ),
    (serverSystem ℚ ℕ).Run init es s → LTS.Always NoGhosts es s := by
  intro h
  obtain ⟨s, hrun, hs⟩ := LTS.exists_run next init
    [.handleAccept 1, .disconnect 1, .enterWorld [⟨0, Region.origin, ∅⟩]]
    (fun s => 1 ∈ s.settled ∧ s.world.user 0 = some 1) (by decide +kernel)
  obtain ⟨hsettled, huser⟩ := of_decide_eq_true hs
  exact (h _ _ hrun).2.cleared 1 hsettled 0 huser

end Runs

end Server

end ClientServer
