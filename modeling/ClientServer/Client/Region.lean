import ClientServer.Server.Region

/-!
# The region of the client

The client keeps an entity of its own for each entity of the server it was told of, and
`mapped_eid_` from the server's ids to its own.  `ClientRegion.recv` is what the handlers of
the packets do to it.

* `ClientRegion.Coherent` : `mapped_eid_` is the graph of the live entities.
* `neighbours_enters`, `neighbours_leaves` : the neighbour entities after a list of entities
  enters, or leaves.
-/

namespace ClientServer

/-- A live entity of the client. -/
structure ClientEntity (F : Type*) where
  /-- The id on the server it was created for; the client stores it in `mapped_eid_` only. -/
  server_eid : Entity
  transform : Transform F
  path : Option (PathList F)
  /-- It holds a `PlayerSession`. -/
  session : Bool

/-- The region of a client. -/
structure ClientRegion (F : Type*) where
  /-- The live entities with their ids. -/
  entities : List (ℕ × ClientEntity F)
  /-- The id `create` gives out next. -/
  next : ℕ
  mapped_eid : Entity → Option ℕ

namespace ClientRegion

variable {F : Type*}

/-- A client that got no packet yet. -/
def init : ClientRegion F := ⟨[], 0, fun _ => none⟩

/-- `ECS::Create`, and the components of the new entity. -/
def create (c : ClientRegion F) (x : ClientEntity F) : ClientRegion F where
  entities := c.entities ++ [(c.next, x)]
  next := c.next + 1
  mapped_eid := Function.update c.mapped_eid x.server_eid (some c.next)

/-- `Region::Leave` of an id of the server. -/
def leave (c : ClientRegion F) (server_eid : Entity) : ClientRegion F :=
  match c.mapped_eid server_eid with
  | none => c
  | some client_eid =>
    { c with
      entities := c.entities.filter fun p => p.1 ≠ client_eid
      mapped_eid := Function.update c.mapped_eid server_eid none }

/-- The server ids of the entities, the player's among them. -/
def ids (c : ClientRegion F) : List Entity := c.entities.map fun p => p.2.server_eid

/-- The server ids of the neighbour entities. -/
def neighbours (c : ClientRegion F) : List Entity :=
  (c.entities.filter fun p => !p.2.session).map fun p => p.2.server_eid

/-- The server ids of the entities with a `PlayerSession`. -/
def players (c : ClientRegion F) : List Entity :=
  (c.entities.filter fun p => p.2.session).map fun p => p.2.server_eid

section Packets

variable [Field F] [LinearOrder F]

/-- `Region::EnterPlayer` with `CreatePc`. -/
def enterPlayer (c : ClientRegion F) (info : EntityInfo F UInt32) : ClientRegion F :=
  c.create ⟨info.entity_id, ⟨info.pos, info.angle, 0, 10⟩, none, true⟩

/-- `Region::Enter` with `CreateNpc`. -/
def enter (c : ClientRegion F) (info : EntityInfo F UInt32) : ClientRegion F :=
  c.create ⟨info.entity_id, ⟨info.pos, info.angle, 0, 0⟩,
    if 0 < info.spd then some ⟨[info.endpos], .Start⟩ else none, false⟩

/-- What the handlers of `region_system.cc` do; the other packets create and destroy nothing. -/
def recv (c : ClientRegion F) : Message F → ClientRegion F
  | .EnterWorldAck entity => c.enterPlayer entity
  | .EnterNeighborsNfy enter_entity => c.enter enter_entity
  | .LeaveNeighborsNfy leave_entity => c.leave leave_entity
  | .UpdateNeighborsNfy enter_entity leave_entity =>
    leave_entity.foldl leave (enter_entity.foldl enter c)
  | _ => c

end Packets

/-! ### The map of the ids -/

/-- `mapped_eid_` is the graph of the live entities, one for each id of the server. -/
structure Coherent (c : ClientRegion F) : Prop where
  lt_next : ∀ p ∈ c.entities, p.1 < c.next
  keys : (c.entities.map Prod.fst).Nodup
  ids : c.ids.Nodup
  mapped : ∀ e k, c.mapped_eid e = some k ↔ ∃ x, (k, x) ∈ c.entities ∧ x.server_eid = e

variable {c : ClientRegion F} {e : Entity}

theorem coherent_init : (init : ClientRegion F).Coherent where
  lt_next := by simp [init]
  keys := by simp [init]
  ids := by simp [init, ids]
  mapped := by simp [init]

theorem mem_ids_iff : e ∈ c.ids ↔ e ∈ c.neighbours ∨ e ∈ c.players := by
  simp only [ids, neighbours, players, List.mem_map, List.mem_filter]
  constructor
  · rintro ⟨p, hp, rfl⟩
    cases hs : p.2.session with
    | false => exact .inl ⟨p, ⟨hp, by simp [hs]⟩, rfl⟩
    | true => exact .inr ⟨p, ⟨hp, hs⟩, rfl⟩
  · rintro (⟨p, ⟨hp, -⟩, rfl⟩ | ⟨p, ⟨hp, -⟩, rfl⟩) <;> exact ⟨p, hp, rfl⟩

/-- The entity an id is mapped to is the one created for it. -/
theorem Coherent.key_iff (h : c.Coherent) {k : ℕ} (hk : c.mapped_eid e = some k)
    {p : ℕ × ClientEntity F} (hp : p ∈ c.entities) : p.1 = k ↔ p.2.server_eid = e := by
  constructor
  · intro hpk
    obtain ⟨x, hx, hxe⟩ := (h.mapped e k).1 hk
    obtain rfl : p = (k, x) := List.inj_on_of_nodup_map h.keys hp hx hpk
    exact hxe
  · intro hpe
    have hmap : c.mapped_eid e = some p.1 := (h.mapped e p.1).2 ⟨p.2, hp, hpe⟩
    exact Option.some.inj (hmap.symm.trans hk)

theorem Coherent.disjoint (h : c.Coherent) (he : e ∈ c.neighbours) : e ∉ c.players := by
  intro hin
  simp only [neighbours, players, List.mem_map, List.mem_filter] at he hin
  obtain ⟨p, ⟨hp, hps⟩, hpe⟩ := he
  obtain ⟨q, ⟨hq, hqs⟩, hqe⟩ := hin
  have hmap : c.mapped_eid e = some q.1 := (h.mapped e q.1).2 ⟨q.2, hq, hqe⟩
  obtain rfl : p = q := List.inj_on_of_nodup_map h.keys hp hq ((h.key_iff hmap hp).2 hpe)
  rw [hqs] at hps
  cases hps

/-! ### Entering -/

theorem Coherent.create {x : ClientEntity F} (h : c.Coherent) (hx : x.server_eid ∉ c.ids) :
    (c.create x).Coherent where
  lt_next := by
    intro p hp
    rcases List.mem_append.1 hp with hp | hp
    · exact Nat.lt_succ_of_lt (h.lt_next p hp)
    · obtain rfl := List.mem_singleton.1 hp
      exact Nat.lt_succ_self _
  keys := by
    have hnext : c.next ∉ c.entities.map Prod.fst := fun hin => by
      obtain ⟨p, hp, hpn⟩ := List.mem_map.1 hin
      exact absurd (h.lt_next p hp) (hpn ▸ lt_irrefl _)
    simpa [ClientRegion.create] using List.nodup_append.2
      ⟨h.keys, List.nodup_singleton c.next, fun a ha b hb hab =>
        hnext (List.mem_singleton.1 hb ▸ hab ▸ ha)⟩
  ids := by
    simpa [ClientRegion.create, ClientRegion.ids] using List.nodup_append.2
      ⟨h.ids, List.nodup_singleton x.server_eid, fun a ha b hb hab =>
        hx (List.mem_singleton.1 hb ▸ hab ▸ ha)⟩
  mapped := by
    intro e k
    by_cases he : e = x.server_eid
    · subst he
      -- no older entity has the id of the new one
      have hold : ∀ y, (k, y) ∈ c.entities → y.server_eid ≠ x.server_eid := fun y hy hyx =>
        hx (List.mem_map.2 ⟨(k, y), hy, hyx⟩)
      simp only [ClientRegion.create, Function.update_self, Option.some.injEq, List.mem_append,
        List.mem_singleton, Prod.mk.injEq]
      constructor
      · rintro rfl
        exact ⟨x, .inr ⟨rfl, rfl⟩, rfl⟩
      · rintro ⟨y, hy | ⟨hk, -⟩, hyx⟩
        · exact absurd hyx (hold y hy)
        · exact hk.symm
    · simp only [ClientRegion.create, Function.update_of_ne he, h.mapped, List.mem_append,
        List.mem_singleton, Prod.mk.injEq]
      constructor
      · rintro ⟨y, hy, hye⟩
        exact ⟨y, .inl hy, hye⟩
      · rintro ⟨y, hy | ⟨-, rfl⟩, hye⟩
        · exact ⟨y, hy, hye⟩
        · exact absurd hye.symm he

theorem enterPlayer_init [Field F] (info : EntityInfo F UInt32) :
    (init.enterPlayer info).Coherent ∧ (init.enterPlayer info).players = [info.entity_id] ∧
      (init.enterPlayer info).neighbours = [] := by
  refine ⟨coherent_init.create (by simp [init, ids]), ?_, ?_⟩
  · simp [enterPlayer, create, players, init]
  · simp [enterPlayer, create, neighbours, init]

section Packets

variable [Field F] [LinearOrder F]

theorem neighbours_enter (info : EntityInfo F UInt32) :
    (c.enter info).neighbours = c.neighbours ++ [info.entity_id] := by
  simp [enter, create, neighbours, List.filter_append]

theorem players_enter (info : EntityInfo F UInt32) : (c.enter info).players = c.players := by
  simp [enter, create, players, List.filter_append]

theorem Coherent.enters (h : c.Coherent) {infos : List (EntityInfo F UInt32)}
    (hnd : (infos.map EntityInfo.entity_id).Nodup)
    (hnew : ∀ e ∈ infos.map EntityInfo.entity_id, e ∉ c.ids) :
    (infos.foldl enter c).Coherent ∧ (infos.foldl enter c).players = c.players ∧
      (infos.foldl enter c).neighbours = c.neighbours ++ infos.map EntityInfo.entity_id := by
  induction infos generalizing c with
  | nil => exact ⟨h, rfl, by simp⟩
  | cons info infos ih =>
    rw [List.map_cons, List.nodup_cons] at hnd
    rw [List.map_cons, List.forall_mem_cons] at hnew
    have hids : ∀ e ∈ infos.map EntityInfo.entity_id, e ∉ (c.enter info).ids := by
      intro e he hin
      rw [mem_ids_iff, neighbours_enter, players_enter, List.mem_append, List.mem_singleton] at hin
      rcases hin with (hin | rfl) | hin
      · exact hnew.2 e he (mem_ids_iff.2 (.inl hin))
      · exact hnd.1 he
      · exact hnew.2 e he (mem_ids_iff.2 (.inr hin))
    obtain ⟨hcoh, hplayers, hneighbours⟩ := ih (h.create hnew.1) hnd.2 hids
    refine ⟨hcoh, hplayers.trans (players_enter info), ?_⟩
    rw [List.foldl_cons]
    refine hneighbours.trans ?_
    rw [← enter, neighbours_enter, List.map_cons, List.append_assoc, List.singleton_append]

end Packets

/-! ### Leaving -/

theorem Coherent.entities_leave (h : c.Coherent) (e : Entity) :
    (c.leave e).entities = c.entities.filter fun p => p.2.server_eid ≠ e := by
  unfold leave
  split
  · rename_i hnone
    refine (List.filter_eq_self.2 fun p hp => ?_).symm
    have hne : p.2.server_eid ≠ e := fun hpe => by
      rw [(h.mapped e p.1).2 ⟨p.2, hp, hpe⟩] at hnone
      cases hnone
    simpa using hne
  · rename_i k hk
    refine List.filter_congr fun p hp => ?_
    rw [decide_eq_decide, not_iff_not]
    exact h.key_iff hk hp

theorem Coherent.leave (h : c.Coherent) (e : Entity) : (c.leave e).Coherent where
  lt_next := by
    intro p hp
    rw [h.entities_leave] at hp
    have hnext : (c.leave e).next = c.next := by
      unfold ClientRegion.leave
      split <;> rfl
    rw [hnext]
    exact h.lt_next p (List.mem_filter.1 hp).1
  keys := by
    rw [h.entities_leave]
    exact h.keys.sublist (List.filter_sublist.map _)
  ids := by
    rw [ClientRegion.ids, h.entities_leave]
    exact h.ids.sublist (List.filter_sublist.map _)
  mapped := by
    intro e' k'
    rw [h.entities_leave]
    have hmapped : (c.leave e).mapped_eid e' = if e' = e then none else c.mapped_eid e' := by
      unfold ClientRegion.leave
      split
      · rename_i hnone
        split_ifs with he
        · rw [he, hnone]
        · rfl
      · exact Function.update_apply ..
    simp only [hmapped, List.mem_filter, decide_eq_true_eq]
    split_ifs with he
    · exact iff_of_false (nomatch ·) fun ⟨x, hx, hxe⟩ => hx.2 (hxe.trans he)
    · rw [h.mapped]
      exact ⟨fun ⟨x, hx, hxe⟩ => ⟨x, ⟨hx, fun hxe' => he (hxe ▸ hxe')⟩, hxe⟩,
        fun ⟨x, hx, hxe⟩ => ⟨x, hx.1, hxe⟩⟩

theorem Coherent.neighbours_leave (h : c.Coherent) (e : Entity) :
    (c.leave e).neighbours = c.neighbours.filter (· ≠ e) := by
  rw [neighbours, h.entities_leave, neighbours, List.filter_map, List.filter_filter,
    List.filter_filter]
  exact congrArg _ (List.filter_congr fun p _ => Bool.and_comm ..)

theorem Coherent.players_leave (h : c.Coherent) (e : Entity) :
    (c.leave e).players = c.players.filter (· ≠ e) := by
  rw [players, h.entities_leave, players, List.filter_map, List.filter_filter,
    List.filter_filter]
  exact congrArg _ (List.filter_congr fun p _ => Bool.and_comm ..)

/-- A list of entities leaves, the player's not among them. -/
theorem Coherent.leaves (h : c.Coherent) {l : List Entity} (hl : ∀ e ∈ l, e ∉ c.players) :
    (l.foldl ClientRegion.leave c).Coherent ∧
      (l.foldl ClientRegion.leave c).players = c.players ∧
      (l.foldl ClientRegion.leave c).neighbours = c.neighbours.filter (· ∉ l) := by
  induction l generalizing c with
  | nil => exact ⟨h, rfl, by simp⟩
  | cons e l ih =>
    rw [List.forall_mem_cons] at hl
    have hplayers : (c.leave e).players = c.players := by
      rw [h.players_leave]
      refine List.filter_eq_self.2 fun p hp => ?_
      have hne : p ≠ e := fun hpe => hl.1 (hpe ▸ hp)
      simpa using hne
    obtain ⟨hcoh, hp, hn⟩ := ih (h.leave e) (hplayers.symm ▸ hl.2)
    refine ⟨hcoh, hp.trans hplayers, hn.trans ?_⟩
    rw [h.neighbours_leave, List.filter_filter]
    refine List.filter_congr fun x _ => ?_
    simp only [List.mem_cons, not_or, Bool.decide_and, Bool.and_comm]

end ClientRegion

end ClientServer
