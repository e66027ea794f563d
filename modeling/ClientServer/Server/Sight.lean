import ClientServer.Server.Neighbors
import Mathlib.Algebra.Order.Field.Rat

/-!
# Mutual and live neighbours

The relation "has as a neighbour" of a region refines `Sight`, so what keeps sight mutual, and
closed under the live entities, is read off the events of the steps.

* `Region.Effect.refines` : the live entities and the relation after a step are those of its
  event.
* `Region.always_mutual_iff` : **when neighbours are mutual in every state of a run**: no entity
  that looks around drops a neighbour, as the one it drops is not told.
* `Region.always_noDangling_iff` : **when every neighbour is live in every state of a run**: whoever
  has an entity that leaves as a neighbour is a neighbour of it.
-/

namespace ClientServer

open Components

namespace Region

variable {F U : Type*}

/-- What an event does to the live entities and to who sees whom. -/
def Event.onSight : Event → Set Entity × (Entity → Entity → Prop) →
    Set Entity × (Entity → Entity → Prop)
  | .quiet, s => s
  | .look c N, (V, R) => (insert c V, Sight.look R c {x | x ∈ N})
  | .vanish c, (V, R) => (V \ {c}, Sight.vanish R c)

/-- The abstraction: the live entities, and who sees whom. -/
def sight (r : Region F U) : Set Entity × (Entity → Entity → Prop) := (r.live, r.Sees)

section Refinement

variable {r r' : Region F U} {e : Event}

/-- **Refinement.**  On the live entities and who sees whom a step is its event. -/
theorem Effect.refines (hT : r.Total) (h : Effect r e r') : r'.sight = e.onSight r.sight := by
  cases h with
  | quiet comps _ =>
    have hvis := quiet_visible comps
    have hlive : r'.live = r.live := Set.ext fun x => by rw [mem_live, mem_live, (hvis x).2.2]
    have hsees : r'.Sees = r.Sees := by
      funext x y
      rw [Sees, view, (hvis x).1]
      rfl
    rw [sight, hlive, hsees]
    rfl
  | @look r₁ c N ready answers =>
    have hsees : (r₁.updateNeighbors N c).Sees = Sight.look r.Sees c {x | x ∈ N} := by
      funext x y
      refine propext ?_
      rw [Sees, view_look hT ready answers]
      split_ifs with hx hfound
      · subst hx
        exact Sight.look_self.symm
      · rw [SortedSet.mem_insert, Sight.look_of_ne hx, or_comm]
        exact or_congr Iff.rfl ⟨fun h => ⟨h, hfound.1, hfound.2⟩, And.left⟩
      · -- one that was found before does not hear of the caller again
        have hseen : x ∈ N → r.Sees c x := fun hN => by_contra fun hno => hfound ⟨hN, hno⟩
        exact (Sight.look_of_seen hx hseen).symm
    rw [sight, live_look ready answers, hsees]
    rfl
  | @vanish c valid =>
    have hsees : (r.destroy c).Sees = Sight.vanish r.Sees c := by
      funext x y
      refine propext ?_
      rw [Sees, view_destroy hT valid]
      split_ifs with hx hin
      · exact iff_of_false SortedSet.not_mem_empty fun h => h.1 hx
      · rw [SortedSet.mem_erase]
        exact ⟨fun h => ⟨hx, h.2, fun h' => h.1 h'.1⟩, fun h => ⟨fun hy => h.2.2 ⟨hy, hin⟩, h.2.1⟩⟩
      · exact ⟨fun h => ⟨hx, h, fun h' => hin h'.2⟩, fun h => h.2.1⟩
    rw [sight, live_destroy hT valid, hsees]
    rfl

end Refinement

/-! ### Properties and invariants -/

section Properties

variable (r : Region F U)

/-- Of two entities that hold a `Neighbor`, each has the other or neither has. -/
def Mutual : Prop := ∀ a b s t, r.neighbors a = some s → r.neighbors b = some t → (b ∈ s ↔ a ∈ t)

/-- Every stored neighbour is a live entity. -/
def NoDangling : Prop := ∀ a s, r.neighbors a = some s → ∀ b ∈ s, r.valid b = true

/-- What is kept as long as nobody keeps an entity that left. -/
structure Sound : Prop where
  total : r.Total
  closed : Sight.Closed r.Sees r.live
  irrefl : ∀ x, ¬r.Sees x x

variable {r}

theorem sees_of_neighbors {a b : Entity} {s : SortedSet Entity} (h : r.neighbors a = some s) :
    r.Sees a b ↔ b ∈ s := by rw [Sees, view_of_neighbors h]

theorem valid_of_sees {a b : Entity} (h : r.Sees a b) : r.valid a = true := by
  by_contra hno
  rw [Sees, view_of_none (r.valid_eq_false.1 (Bool.eq_false_of_not_eq_true hno))] at h
  exact SortedSet.not_mem_empty h

theorem closed_iff (hT : r.Total) : Sight.Closed r.Sees r.live ↔ r.NoDangling := by
  constructor
  · intro h a s hs b hb
    have hsees : r.Sees a b := (sees_of_neighbors hs).2 hb
    exact h a (valid_of_sees hsees) b hsees
  · intro h a ha b hb
    obtain ⟨s, hs⟩ := hT.exists_neighbors ha
    exact h a s hs b ((sees_of_neighbors hs).1 hb)

theorem Sound.mutual_iff (h : r.Sound) : Sight.Mutual r.Sees ↔ r.Mutual := by
  constructor
  · intro hm a b s t hs ht
    rw [← sees_of_neighbors hs, ← sees_of_neighbors ht]
    exact ⟨fun hab => hm hab, fun hba => hm hba⟩
  · intro hm a b hab
    have ha : r.valid a = true := valid_of_sees hab
    obtain ⟨s, hs⟩ := h.total.exists_neighbors ha
    obtain ⟨t, ht⟩ := h.total.exists_neighbors (h.closed a ha b hab)
    exact (sees_of_neighbors ht).2 ((hm a b s t hs ht).1 ((sees_of_neighbors hs).1 hab))

theorem sound_empty : (empty : Region F U).Sound where
  total _ _ h := nomatch h
  closed _ h := nomatch h
  irrefl _ h := SortedSet.not_mem_empty h

theorem mutual_empty : Sight.Mutual (empty : Region F U).Sees := fun _ _ hxy =>
  absurd hxy SortedSet.not_mem_empty

/-- An entity looks around and drops none of its neighbours. -/
def Event.KeepsView (r : Region F U) : Event → Prop
  | .look c N => ∀ x ∈ (r.view c).toList, x ∈ N
  | _ => True

/-- An entity vanishes that has all that have it. -/
def Event.SeesBack (r : Region F U) : Event → Prop
  | .vanish c => ∀ x, r.valid x = true → x ≠ c → r.Sees x c → r.Sees c x
  | _ => True

instance (r : Region F U) : (e : Event) → Decidable (e.KeepsView r)
  | .look _ _ => List.decidableBAll _ _
  | .quiet => .isTrue trivial
  | .vanish _ => .isTrue trivial

/-- Where neighbours are mutual, all that have an entity hear that it vanishes. -/
theorem Event.seesBack (hm : Sight.Mutual r.Sees) (e : Event) : e.SeesBack r := by
  cases e with
  | vanish c => exact fun x _ _ hsee => hm hsee
  | _ => trivial

variable {r' : Region F U} {e : Event}

theorem Effect.live_and_sees (hT : r.Total) (h : Effect r e r') :
    r'.live = (e.onSight r.sight).1 ∧ r'.Sees = (e.onSight r.sight).2 :=
  Prod.mk.inj (h.refines hT)

theorem Effect.sound_iff (hr : r.Sound) (h : Effect r e r') :
    (r'.Sound ↔ e.SeesBack r) ∧ (r'.NoDangling ↔ e.SeesBack r) := by
  obtain ⟨hlive, hsees⟩ := h.live_and_sees hr.total
  have htotal := h.total hr.total
  have hirr : ∀ x, ¬r'.Sees x x := by
    rw [hsees]
    cases h with
    | quiet => exact hr.irrefl
    | look _ answers => exact Sight.look_irrefl hr.irrefl fun hc => (answers _ hc).2 rfl
    | vanish => exact Sight.vanish_irrefl hr.irrefl
  have hclosed : Sight.Closed r'.Sees r'.live ↔ e.SeesBack r := by
    rw [hlive, hsees]
    cases h with
    | quiet => exact iff_of_true hr.closed trivial
    | look _ answers =>
      exact iff_of_true (Sight.closed_look hr.closed fun x hx => (answers x hx).1) trivial
    | vanish => exact Sight.closed_vanish_iff hr.closed
  refine ⟨⟨fun h' => hclosed.1 h'.closed, fun h' => ⟨htotal, hclosed.2 h', hirr⟩⟩, ?_⟩
  rw [← closed_iff htotal, hclosed]

/-- In a region with mutual neighbours a step keeps them mutual iff it drops nobody. -/
theorem Effect.mutual_iff (hr : r.Sound) (hm : Sight.Mutual r.Sees) (h : Effect r e r') :
    r'.Sound ∧ (Sight.Mutual r'.Sees ↔ e.KeepsView r) := by
  refine ⟨(h.sound_iff hr).1.2 (e.seesBack hm), ?_⟩
  rw [(h.live_and_sees hr.total).2]
  cases h with
  | quiet => exact iff_of_true hm trivial
  | look _ answers => exact Sight.mutual_look_iff hm hr.irrefl fun hc => (answers _ hc).2 rfl
  | vanish => exact iff_of_true (Sight.mutual_vanish hm) trivial

end Properties

/-! ### Runs -/

/-- Where the entities of the sample runs are created. -/
def origin : Transform ℚ := ⟨⟨0, 0, 0⟩, 0, 0, 1⟩

/-- Three entities that see each other, and the first one starts to move. -/
def gathering : List (Action ℚ ℕ) :=
  [.createNpc 0 origin ∅, .createNpc 1 origin (.ofList [0]), .createPc 2 7 origin (.ofList [0, 1]),
    .steer 0 0 1 (some ⟨⟨1, 0, 0⟩, ⟨1, 0, 0⟩⟩) none]

section Runs

variable [Field F] [LinearOrder F] [DecidableEq U]
  {es : List (Region F U × Action F U)} {r : Region F U}

theorem keep_mutual {r' : Region F U} {a : Action F U} (hr : r.Sound ∧ Sight.Mutual r.Sees)
    (hstep : r.next a = some r') (hc : (r.event a).KeepsView r) :
    r'.Sound ∧ Sight.Mutual r'.Sees := by
  obtain ⟨hsound, hiff⟩ := (next_effect hr.1.total hstep).mutual_iff hr.1 hr.2
  exact ⟨hsound, hiff.2 hc⟩

/-- **Mutual neighbours.**  Neighbours are mutual in every state of a run iff no entity that
looks around in it drops a neighbour. -/
theorem always_mutual_iff (h : (regionSystem F U).Run empty es r) :
    LTS.Always Mutual es r ↔ ∀ e ∈ es, (e.1.event e.2).KeepsView e.1 := by
  refine h.always_iff (I := fun r => r.Sound ∧ Sight.Mutual r.Sees)
    (C := fun r a => (r.event a).KeepsView r) ⟨sound_empty, mutual_empty⟩
    (fun r hr => hr.1.mutual_iff.1 hr.2) (fun r a r' => keep_mutual) fun r a r' hr hstep hm => ?_
  obtain ⟨hsound, hiff⟩ := (next_effect hr.1.total hstep).mutual_iff hr.1 hr.2
  exact hiff.1 (hsound.mutual_iff.2 hm)

theorem always_mutual_iff_gathering : ∃ es r, (regionSystem ℚ ℕ).Run empty es r ∧
    es.length = 5 ∧ LTS.Always Mutual es r := by
  obtain ⟨r, hrun, -⟩ := LTS.exists_run next empty
    (gathering ++ [.updateMove 0 1 (.ofList [1, 2])]) (fun _ => true) (by decide +kernel)
  exact ⟨_, r, hrun, by decide +kernel, (always_mutual_iff hrun).2 (by decide +kernel)⟩

/-- The first entity finds the third only: the second still has it as a neighbour. -/
theorem updateNeighbors_not_mutual : ¬∀ (es : List (Region ℚ ℕ × Action ℚ ℕ)) (r : Region ℚ ℕ),
    (regionSystem ℚ ℕ).Run empty es r → LTS.Always Mutual es r := by
  intro h
  obtain ⟨r, hrun, hview⟩ := LTS.exists_run next empty
    (gathering ++ [.updateMove 0 1 (.ofList [2])])
    (fun r => r.neighbors 0 = some (.ofList [2]) ∧ r.neighbors 1 = some (.ofList [0, 2]))
    (by decide +kernel)
  obtain ⟨h₀, h₁⟩ := of_decide_eq_true hview
  exact absurd (((h _ _ hrun).2 0 1 _ _ h₀ h₁).2 (by decide)) (by decide)

/-- In a run in which nobody is dropped, whoever has an entity that leaves is seen by it. -/
theorem seesBack_of_keepsView (h : (regionSystem F U).Run empty es r)
    (hkeep : ∀ e ∈ es, (e.1.event e.2).KeepsView e.1) :
    ∀ e ∈ es, (e.1.event e.2).SeesBack e.1 := by
  intro e he
  have hall := h.always_of (I := fun r => r.Sound ∧ Sight.Mutual r.Sees)
    (C := fun r a => (r.event a).KeepsView r) ⟨sound_empty, mutual_empty⟩
    (fun r a r' => keep_mutual) hkeep
  exact Event.seesBack (hall.1 e he).2 _

/-- **No dangling neighbour.**  Every stored neighbour is live in every state of a run iff each
entity that leaves in it has all that have it. -/
theorem always_noDangling_iff (h : (regionSystem F U).Run empty es r) :
    LTS.Always NoDangling es r ↔ ∀ e ∈ es, (e.1.event e.2).SeesBack e.1 := by
  refine h.always_iff (I := Sound) (C := fun r a => (r.event a).SeesBack r) sound_empty
    (fun r hr => (closed_iff hr.total).1 hr.closed) (fun r a r' hr hstep hc => ?_)
    fun r a r' hr hstep hd => ?_
  · exact ((next_effect hr.total hstep).sound_iff hr).1.2 hc
  · exact ((next_effect hr.total hstep).sound_iff hr).2.1 hd

theorem always_noDangling_iff_gathering : ∃ es r, (regionSystem ℚ ℕ).Run empty es r ∧
    es.length = 5 ∧ LTS.Always NoDangling es r := by
  obtain ⟨r, hrun, -⟩ := LTS.exists_run next empty (gathering ++ [.leave 0]) (fun _ => true)
    (by decide +kernel)
  exact ⟨_, r, hrun, by decide +kernel,
    (always_noDangling_iff hrun).2 (seesBack_of_keepsView hrun (by decide +kernel))⟩

/-- The first entity finds the third only and leaves: the second keeps it as a neighbour. -/
theorem updateDestroyed_not_noDangling :
    ¬∀ (es : List (Region ℚ ℕ × Action ℚ ℕ)) (r : Region ℚ ℕ),
      (regionSystem ℚ ℕ).Run empty es r → LTS.Always NoDangling es r := by
  intro h
  obtain ⟨r, hrun, hview⟩ := LTS.exists_run next empty
    (gathering ++ [.updateMove 0 1 (.ofList [2]), .leave 0])
    (fun r => r.valid 0 = false ∧ r.neighbors 1 = some (.ofList [0, 2])) (by decide +kernel)
  obtain ⟨h₀, h₁⟩ := of_decide_eq_true hview
  have hvalid := (h _ _ hrun).2 1 _ h₁ 0 (by decide)
  rw [h₀] at hvalid
  cases hvalid

end Runs

end Region

end ClientServer
