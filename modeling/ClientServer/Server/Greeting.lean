import ClientServer.Server.Broadcast
import ClientServer.Server.Steering

/-!
# The first packet of a player

The game thread of the server: connections are taken from the queue, the packets of the players are
read, NPCs are created, the loops of a tick run, and users disconnect, in any order and number.

* `GameServer.next`, `gameSystem` : the steps.
* `Region.Talks` : what a function other than `CreatePc` does, as far as the players go: nobody
  becomes one, and what it sends goes to players and is no `EnterWorldAck`.
* `GameServer.enterWorldAck_first` : **`EnterWorldAck` comes first**, and once.
-/

namespace ClientServer

variable {F U : Type*}

/-! ### Logs with an opening -/

/-- A log is empty, or its first message, and no other one, is an opening. -/
def Opened {M : Type*} (opening : M → Prop) (l : List M) : Prop :=
  l = [] ∨ ∃ m l', l = m :: l' ∧ opening m ∧ ∀ m' ∈ l', ¬opening m'

section Opened

variable {M : Type*} {opening : M → Prop} {l l' : List M} {m : M}

/-- A log that has begun goes on without an opening. -/
theorem Opened.append (h : Opened opening l) (hl : l ≠ []) (hl' : ∀ m ∈ l', ¬opening m) :
    Opened opening (l ++ l') := by
  rcases h with rfl | ⟨m, l, rfl, hm, hrest⟩
  · exact absurd rfl hl
  · exact .inr ⟨m, l ++ l', List.cons_append, hm, List.forall_mem_append.2 ⟨hrest, hl'⟩⟩

theorem opened_singleton (hm : opening m) : Opened opening [m] :=
  .inr ⟨m, [], rfl, hm, fun _ h => nomatch h⟩

theorem Opened.head_and_count [DecidablePred opening] (h : Opened opening l) :
    l.countP (fun m => opening m) ≤ 1 ∧ ∀ m, l.head? = some m → opening m := by
  rcases h with rfl | ⟨m, l, rfl, hm, hrest⟩
  · exact ⟨Nat.zero_le 1, fun _ h => nomatch h⟩
  · have hnone : l.countP (fun m => opening m) = 0 :=
      List.countP_eq_zero.2 fun m' hm' => by simpa using hrest m' hm'
    refine ⟨?_, fun m' hm' => Option.some.inj hm' ▸ hm⟩
    rw [List.countP_cons, hnone]
    split_ifs <;> omega

end Opened

/-! ### The game thread -/

/-- A packet of a player, with what the mesh and the tree answer to its handler. -/
inductive Request (F : Type*)
  | EnterWorldReq
  | MoveReq (nav : Navigation F) (dest : fbVec F)
  | DashReq (nav : Navigation F) (dest : fbVec F) (z : F)
  | DebugColliderReq (serialize : fbVec F → UInt8 → Int16 → UInt8 × fbVec F × List UInt8)
      (dir : Int16) (type : UInt8) (list : SortedSet Entity)

/-- The server with the `WanderComponent`s of its region. -/
structure GameServer (F U : Type*) extends Server F U where
  wandering : Entity → Option (WanderComponent F)

namespace GameServer

/-- The server before the first connection. -/
def init : GameServer F U := ⟨.init, fun _ => none⟩

/-- What happens at the server. -/
inductive Action (F U : Type*)
  | handleAccept (user : U)
  | enterWorld (arrivals : List (Arrival F))
  | disconnect (user : U)
  | readPackets (eid : Entity) (list : List (Request F))
  | createNpc (eid : Entity) (tf : Transform F) (contacts : SortedSet Entity)
  | wander (dt : F) (nav : Entity → Navigation F) (l : List Entity)
  | updatePath (contacts : Entity → SortedSet Entity) (l : List Entity)
  | updateMove (dt : F) (found : Entity → SortedSet Entity) (l : List Entity)

/-- The region with its `WanderComponent`s. -/
def region (s : GameServer F U) : WanderRegion F U := ⟨s.world, s.wandering⟩

/-- The server with another region. -/
def setRegion (s : GameServer F U) (w : WanderRegion F U) : GameServer F U :=
  { s with world := w.toRegion, wandering := w.wandering }

/-- The server after users have come or gone: an entity that is destroyed loses its components. -/
def setServer (s : GameServer F U) (t : Server F U) : GameServer F U where
  toServer := t
  wandering e := if t.world.valid e then s.wandering e else none

end GameServer

section Steps

variable [Field F] [LinearOrder F]

/-- `PacketHandler::Invoke`. -/
def Region.recv (r : Region F U) (u : U) (user : User) : Request F → Region F U
  | .EnterWorldReq => r
  | .MoveReq nav dest => r.recvMoveReq nav dest u user
  | .DashReq nav dest z => r.recvDashReq nav dest z u user
  | .DebugColliderReq serialize dir type list => r.recvDebugColliderReq serialize dir type list user

/-- `User::ReadPackets`. -/
def Region.readPackets (r : Region F U) (u : U) (user : User) (list : List (Request F)) :
    Region F U :=
  list.foldl (fun r e => r.recv u user e) r

variable [DecidableEq U]

/-- One step.  Packets are read for an entity with a `NetComponent`. -/
def GameServer.next (g : Geometry F) (s : GameServer F U) :
    GameServer.Action F U → Option (GameServer F U)
  | .handleAccept u => (s.toServer.next (.handleAccept u)).map s.setServer
  | .enterWorld arrivals => (s.toServer.next (.enterWorld arrivals)).map s.setServer
  | .disconnect u => (s.toServer.next (.disconnect u)).map s.setServer
  | .readPackets eid list =>
    (s.world.user eid).bind fun u => (s.users u).map fun user =>
      s.setRegion { s.region with toRegion := s.world.readPackets u user list }
  | .createNpc eid tf contacts =>
    if s.world.valid eid then none else some (s.setRegion (s.region.createNpc eid tf contacts))
  | .wander dt nav l => some (s.setRegion (s.region.wanderAll dt nav l))
  | .updatePath contacts l =>
    some (s.setRegion { s.region with toRegion := s.world.updatePathAll g contacts l })
  | .updateMove dt found l =>
    some (s.setRegion { s.region with toRegion := s.world.updateMoveAll dt found l })

/-- The game thread, step after step. -/
def gameSystem (F U : Type*) [Field F] [LinearOrder F] [DecidableEq U] (g : Geometry F) :
    LTS (GameServer F U) (GameServer.Action F U) := .ofNext (GameServer.next g)

end Steps

/-! ### Who is sent what -/

namespace Region

open Components

/-- From `r` to `r'` nobody becomes a player, and what is sent goes to players of `r` and is no
`EnterWorldAck`. -/
structure Talks (r r' : Region F U) : Prop where
  user : ∀ x u, r'.user x = some u → r.user x = some u
  sent : ∃ l, r'.sent = r.sent ++ l ∧
    ∀ q ∈ l, (∃ x, r.user x = some q.1) ∧ q.2.id ≠ .EnterWorldAck

variable {r r' r'' : Region F U} {e c : Entity} {u : U} {m : Message F}

theorem Talks.refl (r : Region F U) : Talks r r :=
  ⟨fun _ _ h => h, [], (List.append_nil _).symm, fun _ h => nomatch h⟩

theorem Talks.trans (h : Talks r r') (h' : Talks r' r'') : Talks r r'' := by
  obtain ⟨l, hl, hq⟩ := h.sent
  obtain ⟨l', hl', hq'⟩ := h'.sent
  refine ⟨fun x u hx => h.user x u (h'.user x u hx), l ++ l', ?_,
    List.forall_mem_append.2 ⟨hq, fun q hin => ?_⟩⟩
  · rw [hl', hl, List.append_assoc]
  · obtain ⟨⟨x, hx⟩, hid⟩ := hq' q hin
    exact ⟨⟨x, h.user x q.1 hx⟩, hid⟩

theorem talks_of_sent_eq (huser : ∀ x u, r'.user x = some u → r.user x = some u)
    (hsent : r'.sent = r.sent) : Talks r r' :=
  ⟨huser, [], hsent.trans (List.append_nil _).symm, fun _ h => nomatch h⟩

theorem Talks.sendTo (h : Talks r r') (hu : r.user e = some u) (hm : m.id ≠ .EnterWorldAck) :
    Talks r (r'.sendTo u m) := by
  obtain ⟨l, hl, hq⟩ := h.sent
  refine ⟨h.user, l ++ [(u, m)], ?_, List.forall_mem_append.2 ⟨hq, ?_⟩⟩
  · rw [Region.sendTo, hl, List.append_assoc]
  · rw [List.forall_mem_singleton]
    exact ⟨⟨e, hu⟩, hm⟩

theorem talks_send (hm : m.id ≠ .EnterWorldAck) (e : Entity) : Talks r (r.send e m) := by
  unfold send
  split
  · rename_i hu
    exact (Talks.refl r).sendTo hu hm
  · exact .refl r

theorem talks_modify {f : Components F U → Components F U} (hf : ∀ d, (f d).user = d.user) :
    Talks r (r.modify e f) :=
  talks_of_sent_eq (fun x _ hx => (user_modify r hf x).symm.trans hx) rfl

theorem talks_set {d : Option (Components F U)}
    (hd : ∀ u, d.bind Components.user = some u → r.user e = some u) : Talks r (r.set e d) := by
  refine talks_of_sent_eq (fun x u hx => ?_) rfl
  rw [user_set] at hx
  split_ifs at hx with hxe
  · exact hxe ▸ hd u hx
  · exact hx

theorem talks_tell {f : Components F U → Components F U} (hf : ∀ d, (f d).user = d.user)
    (hm : m.id ≠ .EnterWorldAck) (l : List Entity) : Talks r (r.tell f m l) := by
  refine ⟨fun x _ hx => (user_tell r hf l x).symm.trans hx, _, sent_tell r hf l, fun q hq => ?_⟩
  obtain ⟨x, -, hx⟩ := List.mem_filterMap.1 hq
  obtain ⟨u, hu, rfl⟩ := Option.map_eq_some_iff.1 hx
  exact ⟨⟨x, hu⟩, hm⟩

theorem talks_updateNeighbors (N : SortedSet Entity) (c : Entity) :
    Talks r (r.updateNeighbors N c) := by
  unfold updateNeighbors
  cases hn : r.neighbors c with
  | none => exact .refl r
  | some O =>
    obtain ⟨d, hd, -⟩ := Option.bind_eq_some_iff.1 hn
    have hent : Talks r (r.entered c (N.diff O)) := by
      rw [entered_eq_tell r hd]
      exact talks_tell (user_addNeighbor · c) PacketId.noConfusion _
    dsimp only
    split_ifs
    · exact (hent.trans (talks_modify (user_setNeighbor · N))).trans
        (talks_send PacketId.noConfusion c)
    · exact hent

theorem talks_destroy (c : Entity) : Talks r (r.destroy c) := by
  have hupd : Talks r (r.updateDestroyed c) := by
    unfold updateDestroyed
    split
    · exact .refl r
    · exact talks_tell (user_dropNeighbor · c) PacketId.noConfusion _
  exact hupd.trans (talks_set fun _ h => nomatch h)

theorem talks_leave (c : Entity) : Talks r (r.leave c) := by
  unfold leave
  split_ifs
  · exact talks_destroy c
  · exact .refl r

variable [Field F] [LinearOrder F] {dt z : F} {nav : Navigation F} {dest : fbVec F}

theorem talks_createNpc (h : r.comps e = none) (tf : Transform F) (N : SortedSet Entity) :
    Talks r (r.createNpc e tf N).1 := by
  unfold createNpc
  by_cases hspawn : spawn tf.v b2AABB.npcRadius = true
  · rw [if_pos hspawn]
    have hnew : Talks r (r.set e (some ⟨tf, none, none, none, none⟩)) :=
      talks_set fun _ h => nomatch h
    exact (hnew.trans (talks_modify (user_setNeighbor · ∅))).trans (talks_updateNeighbors N e)
  · rw [if_neg hspawn, destroy_set h rfl]
    exact .refl r

/-- `CreatePc` sends the `EnterWorldAck` to the new player, and talks after that. -/
theorem createPc_greets {tf : Transform F} (h : spawn tf.v b2AABB.pcRadius = true)
    (N : SortedSet Entity) : ∃ r₁ : Region F U,
      (∀ x, r₁.user x = if x = e then some u else r.user x) ∧
      r₁.sent = r.sent ++ [(u, enterWorldAck e tf)] ∧ Talks r₁ (r.createPc e u tf N).1 := by
  unfold createPc
  rw [if_pos h]
  refine ⟨_, fun x => ?_, rfl, talks_updateNeighbors N e⟩
  exact (user_modify _ (user_setNeighbor · ∅) x).trans (user_set r)

theorem talks_moveOn (found : SortedSet Entity) : Talks r (r.moveOn dt e found) := by
  unfold moveOn
  split
  · rename_i mover _
    have hmove : Talks r (r.modify e (advance dt mover)) :=
      talks_modify fun d => (Prod.mk.inj (visible_advance dt mover d)).2
    unfold updateMove
    dsimp only
    split_ifs
    · exact hmove.trans (talks_updateNeighbors found e)
    · exact hmove
  · exact .refl r

theorem talks_updatePath (g : Geometry F) (contacts : SortedSet Entity) :
    Talks r (r.updatePath g e contacts).1 := by
  obtain ⟨l, hsent, hmove, hmem⟩ := exists_sent_updatePath r g e contacts
  refine ⟨fun x u hx => ?_, l, hsent, fun q hq => ⟨?_, ?_⟩⟩
  · exact ((quiet_visible (quiet_updatePath r g e contacts) x).2.1).symm.trans hx
  · obtain ⟨-, x, -, hx⟩ := (hmem q.1).1 ⟨q.2, hq⟩
    exact ⟨x, hx⟩
  · obtain ⟨dest, spd, hm⟩ := hmove q hq
    rw [hm]
    exact PacketId.noConfusion

/-! ### The handlers -/

theorem talks_headTo (speed : Transform F → F) : Talks r (r.headTo nav dest e z speed).1 := by
  unfold headTo
  cases hc : r.comps e with
  | none => exact .refl r
  | some c =>
    dsimp only
    split
    · exact .refl r
    · exact talks_set fun u hu => (user_of_comps r hc).trans hu

theorem talks_pathTo : Talks r (r.pathTo nav dest e).1 := by
  unfold pathTo
  cases hc : r.comps e with
  | none => exact .refl r
  | some c => exact talks_set fun u hu => (user_of_comps r hc).trans hu

omit [Field F] [LinearOrder F] in
/-- The answer goes to one who was a player before the packets were read. -/
theorem Talks.recvReq {move : Entity → Region F U × Bool} {ack : UInt16 → Message F} {user : User}
    (h : Talks r r') (hu : r.user e = some u) (hmove : ∀ eid, Talks r' (move eid).1)
    (hack : ∀ n, (ack n).id ≠ .EnterWorldAck) : Talks r (r'.recvReq move ack u user) := by
  unfold Region.recvReq
  split_ifs
  · dsimp only
    split
    · exact (h.trans (hmove _)).sendTo hu (hack _)
    · exact h.sendTo hu (hack _)
  · exact h.sendTo hu (hack _)

omit [Field F] [LinearOrder F] in
theorem talks_createDebugColliderObject
    {serialize : fbVec F → UInt8 → Int16 → UInt8 × fbVec F × List UInt8} {dir : Int16}
    {type : UInt8} (list : SortedSet Entity) :
    Talks r (r.createDebugColliderObject e serialize dir type list) := by
  unfold createDebugColliderObject
  split
  · exact .refl r
  · dsimp only
    rw [foldl_send_eq_tell]
    exact talks_tell (fun _ => rfl) PacketId.noConfusion _

theorem Talks.recv (h : Talks r r') (hu : r.user e = some u) (user : User) (req : Request F) :
    Talks r (r'.recv u user req) := by
  cases req with
  | EnterWorldReq => exact h
  | MoveReq nav dest =>
    exact h.recvReq hu (fun _ => talks_pathTo) fun _ => PacketId.noConfusion
  | DashReq nav dest z =>
    exact h.recvReq hu (fun _ => talks_headTo _) fun _ => PacketId.noConfusion
  | DebugColliderReq serialize dir type list =>
    refine h.trans ?_
    simp only [Region.recv, recvDebugColliderReq]
    split
    · exact talks_createDebugColliderObject list
    · exact .refl r'

theorem talks_readPackets (hu : r.user e = some u) (user : User) (list : List (Request F)) :
    Talks r (r.readPackets u user list) :=
  List.foldlRecOn list _ (.refl r) fun _ h req _ => h.recv hu user req

end Region

namespace WanderRegion

variable [Field F] [LinearOrder F] {s : WanderRegion F U}

theorem talks_wanderOne (dt : F) (nav : Navigation F) (e : Entity) :
    s.toRegion.Talks (s.wanderOne dt nav e).1.toRegion := by
  unfold wanderOne
  split
  · rename_i c w hc _
    refine Region.talks_set fun u hu => (Region.user_of_comps _ hc).trans ?_
    rw [← hu, Option.bind_some]
    by_cases hstands : c.Stands
    · rcases Components.wander_of_stands hstands with ⟨heq, -⟩ | ⟨heq, -⟩ | ⟨⟨path, heq⟩, -⟩ <;>
        rw [heq]
    · rw [Components.wander_of_not_stands hstands]
  · exact .refl _

theorem talks_createNpc {eid : Entity} (h : s.comps eid = none) (tf : Transform F)
    (contacts : SortedSet Entity) : s.toRegion.Talks (s.createNpc eid tf contacts).toRegion := by
  rw [toRegion_createNpc]
  exact Region.talks_createNpc h tf contacts

end WanderRegion

/-! ### The packets of each user -/

/-- The packets of every user are opened by its `EnterWorldAck`.  A user in `queue`, or unknown so
far, has got nothing yet and has no entity, and one that has an entity has got something. -/
structure Greeted [DecidableEq U] (world : Region F U) (users : U → Option User) (queue : List U) :
    Prop where
  nodup : queue.Nodup
  known : ∀ u ∈ queue, users u ≠ none
  opened : ∀ u, Opened (fun m : Message F => m.id = .EnterWorldAck) (packetsTo u world.sent)
  silent : ∀ u, u ∈ queue ∨ users u = none →
    packetsTo u world.sent = [] ∧ ∀ x, world.user x ≠ some u
  greeted : ∀ x u, world.user x = some u → packetsTo u world.sent ≠ []

section Greeted

variable [DecidableEq U] {world world' : Region F U} {users users' : U → Option User}
  {queue : List U} {u : U}

theorem greeted_init : Greeted (.empty : Region F U) (fun _ => none) [] where
  nodup := .nil
  known _ h := nomatch h
  opened _ := .inl rfl
  silent _ _ := ⟨rfl, fun _ h => nomatch h⟩
  greeted _ _ h := nomatch h

theorem Greeted.talks (h : Greeted world users queue) (ht : world.Talks world') :
    Greeted world' users queue := by
  obtain ⟨l, hsent, hl⟩ := ht.sent
  have hpackets : ∀ u, packetsTo u world'.sent = packetsTo u world.sent ++ packetsTo u l := by
    intro u
    rw [hsent, packetsTo_append]
  have hplayer : ∀ u, packetsTo u l ≠ [] → ∃ x, world.user x = some u := by
    intro u hne
    obtain ⟨m, hm⟩ := List.exists_mem_of_ne_nil _ hne
    exact (hl _ (mem_packetsTo.1 hm)).1
  refine ⟨h.nodup, h.known, fun u => ?_, fun u hu => ?_, fun x u hx => ?_⟩
  · -- who is sent something is a player, and so has been greeted
    rw [hpackets]
    by_cases hne : packetsTo u l = []
    · rw [hne, List.append_nil]
      exact h.opened u
    · obtain ⟨x, hx⟩ := hplayer u hne
      exact (h.opened u).append (h.greeted x u hx) fun m hm => (hl _ (mem_packetsTo.1 hm)).2
  · -- nobody in the queue is a player yet
    obtain ⟨hnil, hnone⟩ := h.silent u hu
    refine ⟨?_, fun x hx => hnone x (ht.user x u hx)⟩
    rw [hpackets, hnil, List.nil_append]
    by_contra hne
    obtain ⟨x, hx⟩ := hplayer u hne
    exact hnone x hx
  · rw [hpackets]
    exact List.append_ne_nil_of_left_ne_nil (h.greeted x u (ht.user x u hx)) _

theorem Greeted.greet (h : Greeted world users (u :: queue)) {e : Entity} {m : Message F}
    (hm : m.id = .EnterWorldAck)
    (huser : ∀ x, world'.user x = if x = e then some u else world.user x)
    (hsent : world'.sent = world.sent ++ [(u, m)]) (user : User) :
    Greeted world' (Function.update users u (some user)) queue := by
  obtain ⟨hu, hnd⟩ := List.nodup_cons.1 h.nodup
  obtain ⟨hnil, -⟩ := h.silent u (.inl List.mem_cons_self)
  have hself : packetsTo u world'.sent = [m] := by
    rw [hsent, packetsTo_append, hnil]
    simp [packetsTo]
  have hother : ∀ v, v ≠ u → packetsTo v world'.sent = packetsTo v world.sent := by
    intro v hv
    have hnone : packetsTo v [(u, m)] = [] := packetsTo_eq_nil (by simpa using hv.symm)
    rw [hsent, packetsTo_append, hnone, List.append_nil]
  refine ⟨hnd, fun v hv => ?_, fun v => ?_, fun v hv => ?_, fun x v hx => ?_⟩
  · rw [Function.update_of_ne (ne_of_mem_of_not_mem hv hu)]
    exact h.known v (List.mem_cons_of_mem u hv)
  · by_cases hvu : v = u
    · rw [hvu, hself]
      exact opened_singleton hm
    · rw [hother v hvu]
      exact h.opened v
  · have hvu : v ≠ u := by
      rintro rfl
      rw [Function.update_self] at hv
      exact hv.elim hu (Option.some_ne_none user)
    rw [Function.update_of_ne hvu] at hv
    obtain ⟨hnil, hnone⟩ := h.silent v (hv.imp_left (List.mem_cons_of_mem u))
    refine ⟨(hother v hvu).trans hnil, fun x hx => ?_⟩
    rw [huser] at hx
    split_ifs at hx
    · exact hvu (Option.some.inj hx).symm
    · exact hnone x hx
  · by_cases hvu : v = u
    · rw [hvu, hself]
      exact List.cons_ne_nil m []
    · rw [hother v hvu]
      rw [huser] at hx
      split_ifs at hx
      · exact absurd (Option.some.inj hx).symm hvu
      · exact h.greeted x v hx

end Greeted

/-! ### Runs -/

section Runs

variable [Field F] [LinearOrder F] [IsStrictOrderedRing F] [DecidableEq U]

theorem Greeted.enterOne {s s' : Server F U} {u : U} {queue : List U} {n : Arrival F}
    (h : Greeted s.world s.users (u :: queue)) (hone : s.enterOne u n = some s') :
    Greeted s'.world s'.users queue := by
  obtain ⟨⟨-, -, hpos⟩, hone⟩ := Option.ite_none_right_eq_some.1 hone
  obtain rfl := Option.some.inj hone
  obtain ⟨world, huser, hsent, htalks⟩ := Region.createPc_greets (r := s.world) (e := n.eid) (u := u)
    (Server.spawn_startPos hpos) n.contacts
  exact (h.greet rfl huser hsent _).talks htalks

/-- The loop of `EnterWorld` greets one user after the other. -/
theorem Greeted.enterAll {s s' : Server F U} {queue : List U} {arrivals : List (Arrival F)}
    (h : Greeted s.world s.users queue) (hall : s.enterAll queue arrivals = some s') :
    Greeted s'.world s'.users [] := by
  induction queue generalizing s arrivals with
  | nil =>
    cases arrivals with
    | nil =>
      obtain rfl := Option.some.inj hall
      exact h
    | cons => cases hall
  | cons u queue ih =>
    cases arrivals with
    | nil => cases hall
    | cons n arrivals =>
      obtain ⟨t, hone, hrest⟩ := Option.bind_eq_some_iff.1 hall
      exact ih (h.enterOne hone) hrest

omit [Field F] [LinearOrder F] [IsStrictOrderedRing F] in
theorem Greeted.accept {world : Region F U} {users : U → Option User} {queue : List U} {u : U}
    (h : Greeted world users queue) (hu : users u = none) (user : User) :
    Greeted world (Function.update users u (some user)) (queue ++ [u]) := by
  have hfresh : u ∉ queue := fun hin => h.known u hin hu
  refine ⟨?_, fun v hv => ?_, h.opened, fun v hv => ?_, h.greeted⟩
  · rw [← List.concat_eq_append]
    exact h.nodup.concat hfresh
  · rw [Function.update_apply]
    split_ifs with hvu
    · exact Option.some_ne_none user
    · exact h.known v ((List.mem_append.1 hv).resolve_right fun hin => hvu (List.mem_singleton.1 hin))
  · by_cases hvu : v = u
    · exact hvu ▸ h.silent u (.inr hu)
    · rw [Function.update_of_ne hvu, List.mem_append, List.mem_singleton, or_iff_left hvu] at hv
      exact h.silent v hv

namespace GameServer

variable {g : Geometry F} {s s' : GameServer F U} {a : Action F U}

theorem greeted_next (h : Greeted s.world s.users s.enter_queue) (hstep : s.next g a = some s') :
    Greeted s'.world s'.users s'.enter_queue := by
  cases a with
  | handleAccept u =>
    obtain ⟨t, ht, rfl⟩ := Option.map_eq_some_iff.1 hstep
    simp only [Server.next] at ht
    split at ht
    · cases ht
    · rename_i hnone
      obtain rfl := Option.some.inj ht
      exact h.accept hnone _
  | enterWorld arrivals =>
    obtain ⟨t, ht, rfl⟩ := Option.map_eq_some_iff.1 hstep
    obtain ⟨t, hall, rfl⟩ := Option.map_eq_some_iff.1 ht
    have hall := h.enterAll hall
    exact hall
  | disconnect u =>
    obtain ⟨t, ht, rfl⟩ := Option.map_eq_some_iff.1 hstep
    simp only [Server.next] at ht
    split at ht
    · cases ht
    · split_ifs at ht
      obtain rfl := Option.some.inj ht
      refine h.talks ?_
      unfold setServer Server.leaveWorld
      dsimp only
      split
      · exact Region.talks_leave _
      · exact .refl _
  | readPackets eid list =>
    obtain ⟨u, hu, hstep⟩ := Option.bind_eq_some_iff.1 hstep
    obtain ⟨user, -, rfl⟩ := Option.map_eq_some_iff.1 hstep
    exact h.talks (Region.talks_readPackets hu user list)
  | createNpc eid tf contacts =>
    obtain ⟨hfresh, hstep⟩ := Option.ite_none_left_eq_some.1 hstep
    obtain rfl := Option.some.inj hstep
    have hnone := s.world.valid_eq_false.1 (Bool.eq_false_iff.2 hfresh)
    exact h.talks (WanderRegion.talks_createNpc (s := s.region) hnone tf contacts)
  | wander dt nav l =>
    obtain rfl := Option.some.inj hstep
    refine h.talks ?_
    exact Loop.invariant (I := fun w : WanderRegion F U => s.world.Talks w.toRegion)
      (fun w e _ hw => hw.trans (WanderRegion.talks_wanderOne dt (nav e) e)) (.refl _)
  | updatePath contacts l =>
    obtain rfl := Option.some.inj hstep
    refine h.talks ?_
    exact Loop.invariant (I := fun r => s.world.Talks r)
      (fun r e _ hr => hr.trans (Region.talks_updatePath g (contacts e))) (.refl _)
  | updateMove dt found l =>
    obtain rfl := Option.some.inj hstep
    refine h.talks ?_
    exact List.foldlRecOn l _ (.refl _) fun r hr e _ => hr.trans (Region.talks_moveOn (found e))

/-- **`EnterWorldAck` comes first.**  In every state of a run the packets of every user contain one
`EnterWorldAck` at most, and if there are any the first is it. -/
theorem enterWorldAck_first {es : List (GameServer F U × Action F U)}
    (h : (gameSystem F U g).Run init es s) (u : U) :
    (packetsTo u s.world.sent).countP (fun m => m.id = .EnterWorldAck) ≤ 1 ∧
      ∀ m, (packetsTo u s.world.sent).head? = some m → m.id = .EnterWorldAck := by
  have hgreeted : Greeted s.world s.users s.enter_queue :=
    h.invariant (I := fun s => Greeted s.world s.users s.enter_queue) greeted_init
      fun _ _ _ hs hstep => greeted_next hs hstep
  exact (hgreeted.opened u).head_and_count

/-- Two users enter, the first moves off, the second leaves. -/
theorem enterWorldAck_first_two : ∃ es s,
    (gameSystem ℚ ℕ Region.unitGeometry).Run init es s ∧ es.length = 7 ∧
      (packetsTo 7 s.world.sent).map Message.id =
        [.EnterWorldAck, .EnterNeighborsNfy, .MoveAck, .LeaveNeighborsNfy] ∧
      (packetsTo 7 s.world.sent).countP (fun m => m.id = .EnterWorldAck) ≤ 1 := by
  let nav : Navigation ℚ := ⟨Navigation.twoPolys 2, ⟨0, 0, 0⟩, ⟨0, 0, 0⟩⟩
  obtain ⟨s, hrun, hlast⟩ := LTS.exists_run (next Region.unitGeometry) (init : GameServer ℚ ℕ)
    [.handleAccept 7, .handleAccept 8,
      .enterWorld [⟨0, Region.origin, ∅⟩, ⟨1, Region.origin, .ofList [0]⟩],
      .readPackets 0 [.EnterWorldReq, .MoveReq nav ⟨1, 0, 0⟩],
      .updatePath (fun _ => .ofList [1]) [0], .updateMove 1 (fun _ => .ofList [1]) [0],
      .disconnect 8]
    (fun s => (packetsTo 7 s.world.sent).map Message.id =
      [.EnterWorldAck, .EnterNeighborsNfy, .MoveAck, .LeaveNeighborsNfy]) (by decide +kernel)
  exact ⟨_, s, hrun, by decide +kernel, of_decide_eq_true hlast,
    (enterWorldAck_first hrun 7).1⟩

end GameServer

end Runs

end ClientServer
