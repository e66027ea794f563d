import ClientServer.Client.Region
import Mathlib.Algebra.Order.Field.Rat

/-!
# The client's map of the ids

A client's region taking step after step: entities enter and leave, by their id on the server or
by the client's own, and the disconnect button clears the registry.

* `ClientRegion.Bijective` : `mapped_eid_` is one to one between the server's ids and the live
  entities.
* `ClientRegion.always_bijective_iff` : **when it is so all along a run**: no id enters again
  before it has left, and only `Leave` of a server's id takes an entity away.
-/

namespace ClientServer

namespace ClientRegion

variable {F : Type*}

/-- The ids of the live entities. -/
def keys (c : ClientRegion F) : List ℕ := c.entities.map Prod.fst

/-- `Region::Leave` of an entity of the client. -/
def leaveEntity (c : ClientRegion F) (client_eid : ℕ) : ClientRegion F :=
  { c with entities := c.entities.filter fun p => p.1 ≠ client_eid }

/-- `clear` of the registry, as `onClickDisconnect` calls it. -/
def clear (c : ClientRegion F) : ClientRegion F := { c with entities := [] }

/-- What happens to the entities of a client. -/
inductive Action (F : Type*)
  | enterPlayer (info : EntityInfo F UInt32)
  | enter (info : EntityInfo F UInt32)
  | leave (server_eid : Entity)
  | leaveEntity (client_eid : ℕ)
  | clear

/-- One step. -/
def act [Field F] [LinearOrder F] (c : ClientRegion F) : Action F → ClientRegion F
  | .enterPlayer info => c.enterPlayer info
  | .enter info => c.enter info
  | .leave server_eid => c.leave server_eid
  | .leaveEntity client_eid => c.leaveEntity client_eid
  | .clear => c.clear

/-- `mapped_eid_` is one to one between the server's ids and the live entities. -/
structure Bijective (c : ClientRegion F) : Prop where
  live : ∀ e k, c.mapped_eid e = some k → k ∈ c.keys
  injective : ∀ e e' k, c.mapped_eid e = some k → c.mapped_eid e' = some k → e = e'
  image : ∀ k ∈ c.keys, ∃! e, c.mapped_eid e = some k

/-- A step after which the map still is that of the live entities. -/
def Action.Keeps (c : ClientRegion F) : Action F → Prop
  | .enterPlayer info | .enter info => info.entity_id ∉ c.ids
  | .leave _ => True
  | .leaveEntity client_eid => client_eid ∉ c.keys
  | .clear => c.keys = []

instance (c : ClientRegion F) : (a : Action F) → Decidable (a.Keeps c)
  | .enterPlayer info | .enter info => inferInstanceAs (Decidable (info.entity_id ∉ c.ids))
  | .leave _ => .isTrue trivial
  | .leaveEntity client_eid => inferInstanceAs (Decidable (client_eid ∉ c.keys))
  | .clear => inferInstanceAs (Decidable (c.keys = []))

/-! ### One step -/

variable {c : ClientRegion F} {x : ClientEntity F} {e : Entity} {k : ℕ}

theorem mem_keys : k ∈ c.keys ↔ ∃ x, (k, x) ∈ c.entities := by
  simp [keys]

theorem Coherent.exists_mapped (h : c.Coherent) (hk : k ∈ c.keys) :
    ∃ e, c.mapped_eid e = some k := by
  obtain ⟨x, hx⟩ := mem_keys.1 hk
  exact ⟨x.server_eid, (h.mapped _ _).2 ⟨x, hx, rfl⟩⟩

theorem Coherent.bijective (h : c.Coherent) : c.Bijective := by
  have hlive : ∀ e k, c.mapped_eid e = some k → k ∈ c.keys := by
    intro e k hk
    obtain ⟨x, hx, -⟩ := (h.mapped e k).1 hk
    exact mem_keys.2 ⟨x, hx⟩
  have hinj : ∀ e e' k, c.mapped_eid e = some k → c.mapped_eid e' = some k → e = e' := by
    intro e e' k he he'
    obtain ⟨x, hx, rfl⟩ := (h.mapped e k).1 he
    exact (h.key_iff he' hx).1 rfl
  refine ⟨hlive, hinj, fun k hk => ?_⟩
  obtain ⟨e, he⟩ := h.exists_mapped hk
  exact ⟨e, he, fun e' he' => hinj e' e k he' he⟩

/-- An entity that enters with the id of a live one takes that one's place in the map. -/
theorem Coherent.not_mem_ids_of_create (h : c.Coherent) (hx : (c.create x).Bijective) :
    x.server_eid ∉ c.ids := by
  intro hin
  obtain ⟨⟨k, y⟩, hy, hyx⟩ := List.mem_map.1 hin
  have hk : k ∈ (c.create x).keys := mem_keys.2 ⟨y, List.mem_append_left _ hy⟩
  obtain ⟨e, he, -⟩ := hx.image k hk
  by_cases hex : e = x.server_eid
  · -- the id now belongs to the new entity
    have hnext : c.next = k := by
      simpa [ClientRegion.create, hex] using he
    exact absurd (h.lt_next _ hy) (hnext ▸ lt_irrefl _)
  · have hold : c.mapped_eid e = some k := by
      simpa [ClientRegion.create, Function.update_of_ne hex] using he
    exact hex (((h.key_iff hold hy).1 rfl).symm.trans hyx)

theorem Coherent.not_mem_keys_of_leaveEntity (h : c.Coherent) (hk : (c.leaveEntity k).Bijective) :
    k ∉ c.keys := by
  intro hin
  obtain ⟨e, he⟩ := h.exists_mapped hin
  obtain ⟨x, hx⟩ := mem_keys.1 (hk.live e k he)
  simpa [leaveEntity] using (List.mem_filter.1 hx).2

theorem Coherent.keys_eq_nil_of_clear (h : c.Coherent) (hc : c.clear.Bijective) :
    c.keys = [] := by
  refine List.eq_nil_iff_forall_not_mem.2 fun k hk => ?_
  obtain ⟨e, he⟩ := h.exists_mapped hk
  exact List.not_mem_nil (hc.live e k he)

theorem leaveEntity_of_not_mem (hk : k ∉ c.keys) : c.leaveEntity k = c := by
  have hfilter : c.entities.filter (fun p => p.1 ≠ k) = c.entities :=
    List.filter_eq_self.2 fun p hp => by
      have hne : p.1 ≠ k := fun hpk => hk (hpk ▸ List.mem_map_of_mem hp)
      simpa using hne
  unfold leaveEntity
  rw [hfilter]

theorem clear_of_keys_eq_nil (h : c.keys = []) : c.clear = c := by
  unfold clear
  rw [← List.map_eq_nil_iff.1 h]

theorem Coherent.not_mem_ids_leave (h : c.Coherent) (e : Entity) : e ∉ (c.leave e).ids := by
  intro hin
  rw [ClientRegion.ids, h.entities_leave] at hin
  obtain ⟨p, hp, hpe⟩ := List.mem_map.1 hin
  exact of_decide_eq_true (List.mem_filter.1 hp).2 hpe

section Steps

variable [Field F] [LinearOrder F] {a : Action F}

theorem Coherent.act (h : c.Coherent) (ha : a.Keeps c) : (c.act a).Coherent := by
  cases a with
  | enterPlayer info => exact h.create ha
  | enter info => exact h.create ha
  | leave server_eid => exact h.leave server_eid
  | leaveEntity client_eid =>
    change (c.leaveEntity client_eid).Coherent
    rwa [leaveEntity_of_not_mem ha]
  | clear =>
    change c.clear.Coherent
    rwa [clear_of_keys_eq_nil ha]

theorem Coherent.keeps (h : c.Coherent) (ha : (c.act a).Bijective) : a.Keeps c := by
  cases a with
  | enterPlayer info => exact h.not_mem_ids_of_create ha
  | enter info => exact h.not_mem_ids_of_create ha
  | leave server_eid => trivial
  | leaveEntity client_eid => exact h.not_mem_keys_of_leaveEntity ha
  | clear => exact h.keys_eq_nil_of_clear ha

end Steps

end ClientRegion

/-! ### Runs -/

/-- The region of a client taking step after step. -/
def clientSystem (F : Type*) [Field F] [LinearOrder F] :
    LTS (ClientRegion F) (ClientRegion.Action F) := .ofNext fun c a => some (c.act a)

namespace ClientRegion

variable {F : Type*} [Field F] [LinearOrder F] {c : ClientRegion F}

/-- **The map of the ids over a run.**  In every state it is one to one between the server's ids
and the live entities, and no `Leave` of an id leaves an entity of it, iff no step lets an id in
that is there already or takes entities away behind the map. -/
theorem always_bijective_iff {es : List (ClientRegion F × Action F)}
    (h : (clientSystem F).Run init es c) :
    (LTS.Always Bijective es c ∧ ∀ s ∈ es, ∀ e, s.2 = .leave e → e ∉ (s.1.leave e).ids) ↔
      ∀ s ∈ es, s.2.Keeps s.1 := by
  have hkeep : ∀ c a c', Coherent c → (clientSystem F).step c a c' → a.Keeps c → Coherent c' := by
    intro c a c' hc hstep ha
    obtain rfl := Option.some.inj hstep
    exact hc.act ha
  have hiff : LTS.Always Bijective es c ↔ ∀ s ∈ es, s.2.Keeps s.1 := by
    refine h.always_iff (C := fun c a => a.Keeps c) coherent_init (fun _ hc => hc.bijective)
      hkeep ?_
    intro c a c' hc hstep hbij
    obtain rfl := Option.some.inj hstep
    exact hc.keeps hbij
  constructor
  · rintro ⟨halways, -⟩
    exact hiff.1 halways
  · intro hall
    have hcoh := h.always_of (C := fun c a => a.Keeps c) coherent_init hkeep hall
    exact ⟨hiff.2 hall, fun s hs e _ => (hcoh.1 s hs).not_mem_ids_leave e⟩

/-- What the server says of an entity that stands at the origin. -/
def standing (e : Entity) : EntityInfo ℚ UInt32 := ⟨⟨0, 0, 0⟩, ⟨0, 0, 0⟩, 0, 0, e, 0⟩

theorem always_bijective_iff_reenter : ∃ es c, (clientSystem ℚ).Run init es c ∧ es.length = 4 ∧
    LTS.Always Bijective es c ∧ ∀ s ∈ es, ∀ e, s.2 = .leave e → e ∉ (s.1.leave e).ids := by
  obtain ⟨c, hrun, -⟩ := LTS.exists_run (fun c a => some (c.act a)) init
    [.enterPlayer (standing 1), .enter (standing 2), .leave 2, .enter (standing 2)] (fun _ => true)
    (by decide +kernel)
  exact ⟨_, c, hrun, by decide +kernel, (always_bijective_iff hrun).2 (by decide +kernel)⟩

/-- The player enters and disconnects: its id still is mapped to the entity that is gone. -/
theorem clear_not_bijective : ¬∀ (es : List (ClientRegion ℚ × Action ℚ)) (c : ClientRegion ℚ),
    (clientSystem ℚ).Run init es c → LTS.Always Bijective es c ∧
      ∀ s ∈ es, ∀ e, s.2 = .leave e → e ∉ (s.1.leave e).ids := by
  intro h
  obtain ⟨c, hrun, hmapped⟩ := LTS.exists_run (fun c a => some (c.act a)) init
    [.enterPlayer (standing 1), .clear] (fun c => c.mapped_eid 1 = some 0 ∧ c.keys = [])
    (by decide +kernel)
  obtain ⟨hmap, hkeys⟩ := of_decide_eq_true hmapped
  have hlive := (h _ _ hrun).1.2.live 1 0 hmap
  rw [hkeys] at hlive
  exact List.not_mem_nil hlive

end ClientRegion

end ClientServer
