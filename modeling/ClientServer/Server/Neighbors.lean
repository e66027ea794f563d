import ClientServer.Data.Sight
import ClientServer.Server.Visibility

/-!
# Neighbours over a run

Each step of a region is one of three events: nothing of the neighbours changes, an entity
looks around, or an entity vanishes.  `Effect` says once what a step does; what comes after it
does not look inside the steps.

* `Region.next_effect` : every step has the effect of its event.
* `Region.view_look`, `Region.view_destroy` : the neighbours of every entity after each event.
-/

namespace ClientServer

open Components

namespace Region

variable {F U : Type*}

/-- The neighbours of `e`, none if it has no such component. -/
def view (r : Region F U) (e : Entity) : SortedSet Entity := (r.neighbors e).getD ∅

/-- `x` has `y` as a neighbour. -/
def Sees (r : Region F U) (x y : Entity) : Prop := y ∈ r.view x

/-- The live entities. -/
def live (r : Region F U) : Set Entity := {x | r.valid x = true}

/-- Every live entity holds a `Neighbor` component. -/
def Total (r : Region F U) : Prop := ∀ x d, r.comps x = some d → ∃ s, d.neighbor = some s

theorem mem_live {r : Region F U} {x : Entity} : x ∈ r.live ↔ r.valid x = true := Iff.rfl

theorem view_of_neighbors {r : Region F U} {x : Entity} {s : SortedSet Entity}
    (h : r.neighbors x = some s) : r.view x = s := by rw [view, h, Option.getD_some]

theorem view_of_comps {r : Region F U} {x : Entity} {d : Components F U} {s : SortedSet Entity}
    (h : r.comps x = some d) (hs : d.neighbor = some s) : r.view x = s :=
  view_of_neighbors ((neighbors_of_comps r h).trans hs)

theorem view_of_none {r : Region F U} {x : Entity} (h : r.comps x = none) : r.view x = ∅ := by
  rw [view, neighbors, h]
  rfl

theorem Total.exists_neighbors {r : Region F U} (hT : r.Total) {x : Entity}
    (hx : r.valid x = true) : ∃ s, r.neighbors x = some s := by
  obtain ⟨d, hd⟩ := (valid_iff r).1 hx
  obtain ⟨s, hs⟩ := hT x d hd
  exact ⟨s, (neighbors_of_comps r hd).trans hs⟩

/-! ### What a step does -/

/-- A step, as far as the neighbours go. -/
inductive Event
  | quiet
  | look (caller : Entity) (found : SortedSet Entity)
  | vanish (e : Entity)

/-- The region in which the caller of `UpdateNeighbors` is ready for it: it is an entity of
`r`, or one created just now. -/
structure Ready (r r₁ : Region F U) (c : Entity) : Prop where
  /-- The caller holds the neighbours it had, a new one none. -/
  caller : ∃ d, r₁.comps c = some d ∧ d.neighbor = some (r.view c)
  others : ∀ x, x ≠ c → r₁.comps x = r.comps x
  /-- Only a new player was sent something, and it had no packet before. -/
  sent : (r₁.user c = r.user c ∧ r₁.sent = r.sent) ∨
    (r.comps c = none ∧ ∃ u tf, r₁.user c = some u ∧ (∀ p ∈ r.sent, p.1 ≠ u) ∧
      r₁.sent = r.sent ++ [(u, enterWorldAck c tf)])

/-- What a step does, by event. -/
inductive Effect (r : Region F U) : Event → Region F U → Prop
  | quiet {r' : Region F U}
      (comps : ∀ x, (r'.comps x).map (fun d => (d.neighbor, d.user)) =
        (r.comps x).map fun d => (d.neighbor, d.user))
      (sent : r'.sent = r.sent) : Effect r .quiet r'
  | look {r₁ : Region F U} {c : Entity} {N : SortedSet Entity} (ready : Ready r r₁ c)
      (answers : r.Answers c N) : Effect r (.look c N) (r₁.updateNeighbors N c)
  | vanish {c : Entity} (valid : r.valid c = true) : Effect r (.vanish c) (r.destroy c)

section Registry

variable {r : Region F U} {c : Entity}

theorem effect_modify {f : Components F U → Components F U}
    (hf : ∀ d, ((f d).neighbor, (f d).user) = (d.neighbor, d.user)) :
    Effect r .quiet (r.modify c f) := by
  refine .quiet (fun x => ?_) rfl
  rw [comps_modify]
  split_ifs with hx
  · rw [hx, Option.map_map]
    exact congrArg (fun g => (r.comps c).map g) (funext hf)
  · rfl

/-- An entity that is created and destroyed again leaves no trace. -/
theorem destroy_set {d : Components F U} (h : r.comps c = none) (hd : d.neighbor = none) :
    (r.set c (some d)).destroy c = r := by
  have hupd : (r.set c (some d)).updateDestroyed c = r.set c (some d) := by
    rw [updateDestroyed, neighbors_of_comps _ ((comps_set r).trans (if_pos rfl)), hd]
  rw [destroy, hupd, set, set, Function.update_idem, ← h, Function.update_eq_self]

theorem comps_created {d : Components F U} (x : Entity) :
    ((r.set c (some d)).modify c (setNeighbor ∅)).comps x =
      if x = c then some (d.setNeighbor ∅) else r.comps x := by
  rw [comps_modify, comps_set, comps_set, if_pos rfl, Option.map_some]
  split_ifs <;> rfl

end Registry

section Field

variable [Field F] [LinearOrder F]

/-- The event of a step. -/
def event (r : Region F U) : Action F U → Event
  | .createNpc eid tf contacts => if spawn tf.v b2AABB.npcRadius then .look eid contacts else .quiet
  | .createPc eid _ tf contacts => if spawn tf.v b2AABB.pcRadius then .look eid contacts else .quiet
  | .updateMove eid _ contacts =>
    if contacts.toList.length > 0 then .look eid contacts else .quiet
  | .leave eid => if r.valid eid then .vanish eid else .quiet
  | .steer .. => .quiet

variable {r r' : Region F U} {a : Action F U} {c : Entity}

/-- `NpcSystem::CreateNpc` ends with a call of `UpdateNeighbors`. -/
theorem effect_createNpc {tf : Transform F} {N : SortedSet Entity} (h : r.comps c = none)
    (hN : r.Answers c N) :
    Effect r (if spawn tf.v b2AABB.npcRadius then .look c N else .quiet)
      (r.createNpc c tf N).1 := by
  unfold createNpc
  by_cases hspawn : spawn tf.v b2AABB.npcRadius = true
  · rw [if_pos hspawn, if_pos hspawn]
    refine .look ⟨⟨_, (comps_created c).trans (if_pos rfl), ?_⟩, fun x hx => ?_, .inl ⟨?_, rfl⟩⟩ hN
    · rw [view_of_none h]
      rfl
    · rw [comps_created, if_neg hx]
    · rw [user_of_comps _ ((comps_created c).trans (if_pos rfl)), user, h]
      rfl
  · -- out of the boundary: the entity is destroyed again
    rw [if_neg hspawn, if_neg hspawn, destroy_set h rfl]
    exact .quiet (fun _ => rfl) rfl

/-- `UserSystem::CreatePc` sends the answer, then ends with a call of `UpdateNeighbors`. -/
theorem effect_createPc {u : U} {tf : Transform F} {N : SortedSet Entity} (h : r.comps c = none)
    (hN : r.Answers c N) (hu : ∀ p ∈ r.sent, p.1 ≠ u) :
    Effect r (if spawn tf.v b2AABB.pcRadius then .look c N else .quiet)
      (r.createPc c u tf N).1 := by
  unfold createPc
  by_cases hspawn : spawn tf.v b2AABB.pcRadius = true
  · rw [if_pos hspawn, if_pos hspawn]
    refine .look ⟨⟨_, (comps_created c).trans (if_pos rfl), ?_⟩, fun x hx => ?_,
      .inr ⟨h, u, tf, ?_, hu, rfl⟩⟩ hN
    · rw [view_of_none h]
      rfl
    · rw [comps_sendTo, comps_created, if_neg hx]
    · exact user_of_comps _ ((comps_created c).trans (if_pos rfl))
  · rw [if_neg hspawn, if_neg hspawn, destroy_set h rfl]
    exact .quiet (fun _ => rfl) rfl

theorem visible_advance (dt : F) (mover : Mover F) (d : Components F U) :
    ((advance dt mover d).neighbor, (advance dt mover d).user) = (d.neighbor, d.user) := by
  unfold advance
  dsimp only
  split_ifs <;> rfl

/-- An iteration of `MoveSystem::UpdateMove` looks around if the tree finds somebody. -/
theorem effect_updateMove {dt : F} {mover : Mover F} {N : SortedSet Entity} {d : Components F U}
    (hT : r.Total) (h : r.comps c = some d) (hN : r.Answers c N) :
    Effect r (if N.toList.length > 0 then .look c N else .quiet) (r.updateMove c dt mover N) := by
  unfold updateMove
  dsimp only
  split_ifs with hlen
  · obtain ⟨s, hs⟩ := hT c d h
    have hmove := visible_advance dt mover d
    have hcomps : (r.modify c (advance dt mover)).comps c = some (advance dt mover d) := by
      rw [comps_modify, if_pos rfl, h, Option.map_some]
    refine .look ⟨⟨_, hcomps, ?_⟩, fun x hx => ?_, .inl ⟨?_, rfl⟩⟩ hN
    · rw [(Prod.mk.inj hmove).1, hs, view_of_comps h hs]
    · rw [comps_modify, if_neg hx]
    · rw [user_of_comps _ hcomps, user_of_comps r h, (Prod.mk.inj hmove).2]
  · exact effect_modify (visible_advance dt mover)

/-- **What a step does.**  Every step has the effect of its event. -/
theorem next_effect [DecidableEq U] (hT : r.Total) (h : r.next a = some r') :
    Effect r (r.event a) r' := by
  cases a with
  | createNpc eid tf contacts =>
    obtain ⟨⟨hfresh, hN⟩, h⟩ := Option.ite_none_right_eq_some.1 h
    obtain rfl := Option.some.inj h
    exact effect_createNpc (r.valid_eq_false.1 hfresh) hN
  | createPc eid user tf contacts =>
    obtain ⟨⟨hfresh, hN, hu⟩, h⟩ := Option.ite_none_right_eq_some.1 h
    obtain rfl := Option.some.inj h
    exact effect_createPc (r.valid_eq_false.1 hfresh) hN hu
  | updateMove eid dt contacts =>
    simp only [next] at h
    split at h
    · cases h
    · rename_i mover hmover
      obtain ⟨hN, h⟩ := Option.ite_none_right_eq_some.1 h
      obtain rfl := Option.some.inj h
      obtain ⟨d, hd, -⟩ := Option.bind_eq_some_iff.1 hmover
      exact effect_updateMove hT hd hN
  | leave eid =>
    obtain rfl := Option.some.inj h
    simp only [event, leave]
    split_ifs with hvalid
    · exact .vanish hvalid
    · exact .quiet (fun _ => rfl) rfl
  | steer eid degree speed mover path =>
    obtain rfl := Option.some.inj h
    exact effect_modify fun _ => rfl

end Field

/-! ### The neighbours after a step -/

section View

variable {r r₁ r' : Region F U} {c : Entity} {N : SortedSet Entity}

theorem comps_look (ready : Ready r r₁ c) (answers : r.Answers c N) (x : Entity) :
    (x = c → ∃ d : Components F U, (r₁.updateNeighbors N c).comps x = some (d.setNeighbor N)) ∧
    (x ≠ c → (r₁.updateNeighbors N c).comps x =
      if x ∈ N ∧ x ∉ r.view c then (r.comps x).map (addNeighbor c) else r.comps x) := by
  obtain ⟨d, hd, hO⟩ := ready.caller
  have hcN : c ∉ N := fun h => (answers c h).2 rfl
  have hcomps := comps_updateNeighbors r₁ hd hO hcN x
  refine ⟨fun hx => ⟨d, ?_⟩, fun hx => ?_⟩
  · rw [hcomps, if_pos hx]
  · rw [hcomps, if_neg hx, ready.others x hx]

theorem total_look (hT : r.Total) (ready : Ready r r₁ c) (answers : r.Answers c N) :
    (r₁.updateNeighbors N c).Total := by
  intro x d hd
  obtain ⟨hself, hother⟩ := comps_look ready answers x
  by_cases hx : x = c
  · obtain ⟨d₀, hd₀⟩ := hself hx
    obtain rfl : d₀.setNeighbor N = d := Option.some.inj (hd₀.symm.trans hd)
    exact ⟨N, rfl⟩
  · rw [hother hx] at hd
    split_ifs at hd
    · obtain ⟨d₀, hd₀, rfl⟩ := Option.map_eq_some_iff.1 hd
      obtain ⟨s, hs⟩ := hT x d₀ hd₀
      exact ⟨s.insert c, by rw [addNeighbor, hs, Option.map_some]⟩
    · exact hT x d hd

theorem live_look (ready : Ready r r₁ c) (answers : r.Answers c N) :
    (r₁.updateNeighbors N c).live = insert c r.live := by
  ext x
  obtain ⟨hself, hother⟩ := comps_look ready answers x
  by_cases hx : x = c
  · obtain ⟨d₀, hd₀⟩ := hself hx
    exact iff_of_true ((valid_iff _).2 ⟨_, hd₀⟩) (.inl hx)
  · have hvalid : (r₁.updateNeighbors N c).valid x = r.valid x := by
      rw [valid, hother hx]
      split_ifs
      · exact Option.isSome_map
      · rfl
    rw [Set.mem_insert_iff, mem_live, mem_live, hvalid, or_iff_right hx]

theorem view_look (hT : r.Total) (ready : Ready r r₁ c) (answers : r.Answers c N) (x : Entity) :
    (r₁.updateNeighbors N c).view x =
      if x = c then N else if x ∈ N ∧ x ∉ r.view c then (r.view x).insert c else r.view x := by
  obtain ⟨hself, hother⟩ := comps_look ready answers x
  split_ifs with hx hfound
  · obtain ⟨d₀, hd₀⟩ := hself hx
    exact view_of_comps hd₀ rfl
  · obtain ⟨d, hd⟩ := (valid_iff r).1 (answers x hfound.1).1
    obtain ⟨s, hs⟩ := hT x d hd
    have hcomps : (r₁.updateNeighbors N c).comps x = some (d.addNeighbor c) := by
      rw [hother hx, if_pos hfound, hd, Option.map_some]
    rw [view_of_comps hd hs, view_of_comps hcomps (by rw [addNeighbor, hs, Option.map_some])]
  · rw [view, neighbors, hother hx, if_neg hfound]
    rfl

theorem view_destroy (hT : r.Total) (hvalid : r.valid c = true) (x : Entity) :
    (r.destroy c).view x =
      if x = c then ∅ else if x ∈ r.view c then (r.view x).erase c else r.view x := by
  obtain ⟨O, hO⟩ := hT.exists_neighbors hvalid
  have hcomps := comps_destroy r hO x
  rw [view_of_neighbors hO]
  split_ifs with hx hin
  · exact view_of_none (hcomps.trans (if_pos hx))
  · rw [if_neg hx, if_pos hin] at hcomps
    cases hcx : r.comps x with
    | none => rw [view_of_none hcx, view_of_none (hcomps.trans (by rw [hcx]; rfl))]; rfl
    | some dx =>
      obtain ⟨s, hs⟩ := hT x dx hcx
      rw [hcx, Option.map_some] at hcomps
      rw [view_of_comps hcx hs, view_of_comps hcomps (by rw [dropNeighbor, hs, Option.map_some])]
  · rw [view, neighbors, hcomps, if_neg hx, if_neg hin]
    rfl

theorem total_destroy (hT : r.Total) (hvalid : r.valid c = true) : (r.destroy c).Total := by
  obtain ⟨O, hO⟩ := hT.exists_neighbors hvalid
  intro x dx hdx
  rw [comps_destroy r hO] at hdx
  split_ifs at hdx
  · obtain ⟨d₀, hd₀, rfl⟩ := Option.map_eq_some_iff.1 hdx
    obtain ⟨s, hs⟩ := hT x d₀ hd₀
    exact ⟨s.erase c, by rw [dropNeighbor, hs, Option.map_some]⟩
  · exact hT x dx hdx

theorem live_destroy (hT : r.Total) (hvalid : r.valid c = true) :
    (r.destroy c).live = r.live \ {c} := by
  obtain ⟨O, hO⟩ := hT.exists_neighbors hvalid
  ext x
  simp only [mem_live, valid, comps_destroy r hO, Set.mem_sdiff, Set.mem_singleton_iff]
  split_ifs with hx hin
  · simp [hx]
  · simp [hx]
  · simp [hx]

theorem quiet_visible (comps : ∀ x, (r'.comps x).map (fun d => (d.neighbor, d.user)) =
    (r.comps x).map fun d => (d.neighbor, d.user)) (x : Entity) :
    r'.neighbors x = r.neighbors x ∧ r'.user x = r.user x ∧ r'.valid x = r.valid x := by
  have h := comps x
  unfold neighbors user valid
  cases h₁ : r.comps x <;> cases h₂ : r'.comps x <;> simp_all

theorem total_quiet (hT : r.Total) (comps : ∀ x, (r'.comps x).map (fun d => (d.neighbor, d.user)) =
    (r.comps x).map fun d => (d.neighbor, d.user)) : r'.Total := by
  intro x d' hd'
  have hx := comps x
  rw [hd', Option.map_some] at hx
  obtain ⟨d, hd, hdd⟩ := Option.map_eq_some_iff.1 hx.symm
  obtain ⟨s, hs⟩ := hT x d hd
  exact ⟨s, (Prod.mk.inj hdd).1 ▸ hs⟩

theorem Effect.total {e : Event} (hT : r.Total) (h : Effect r e r') : r'.Total := by
  cases h with
  | quiet comps _ => exact total_quiet hT comps
  | look ready answers => exact total_look hT ready answers
  | vanish valid => exact total_destroy hT valid

end View

end Region

end ClientServer
