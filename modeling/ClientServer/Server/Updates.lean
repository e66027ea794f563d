import ClientServer.Server.Players
import Mathlib.Algebra.Order.Field.Rat

/-!
# What an update of the neighbours does and tells

One call of `UpdateNeighbors`, and one iteration of `UpdateMove` that may make it, from any region
at all.

* `Region.updateNeighbors_updated` : **the exact effect of `UpdateNeighbors`** on all entities and
  on what is sent.
* `Region.updateMove_fresh_iff` : **when a move leaves the mover with a fresh view**: unless the
  tree finds nobody and somebody was in view.
-/

namespace ClientServer

open Components

namespace Region

variable {F U : Type*} {r r' : Region F U} {c e : Entity} {d : Components F U}
  {O N : SortedSet Entity}

/-! ### `UpdateNeighbors` -/

/-- From `r` to `r'` the neighbours of the caller `c`, of which `d` are the components, go from `O`
to `N`. -/
structure Updated [DecidableEq U] (r r' : Region F U) (c : Entity) (d : Components F U)
    (O N : SortedSet Entity) : Prop where
  caller : r'.comps c = some (d.setNeighbor N)
  /-- Each that is newly found gets the caller as a neighbour too. -/
  found : ∀ x, x ∈ N → x ∉ O → r'.comps x = (r.comps x).map (addNeighbor c)
  others : ∀ x, x ≠ c → ¬(x ∈ N ∧ x ∉ O) → r'.comps x = r.comps x
  /-- One packet about the caller to each player newly found, then, if anything has changed and
  the caller is a player, one about the change. -/
  sent : r'.sent = r.sent ++
    ((N.diff O).filterMap fun x =>
      (r.user x).map fun u => (u, .EnterNeighborsNfy (d.serializeEntityInfo c))) ++
    if N = O then [] else (d.user.map fun u => (u, r.updateNfy O N)).toList
  /-- The packet about the change lists those newly found and those not found again. -/
  change : (r.updateNfy O N).entered = N.diff O ∧ (r.updateNfy O N).left = O.diff N
  /-- The same for each player, where no two have one user. -/
  packets : ∀ p u, (∀ x, r.user x = some u ↔ x = p) →
    packetsTo u r'.sent = packetsTo u r.sent ++
      if p = c then if N = O then [] else [r.updateNfy O N]
      else if p ∈ N ∧ p ∉ O then [.EnterNeighborsNfy (d.serializeEntityInfo c)] else []

/-- **`UpdateNeighbors`**, whatever the old and the new neighbours are. -/
theorem updateNeighbors_updated [DecidableEq U] (h : r.comps c = some d)
    (hO : d.neighbor = some O) (hN : r.Answers c N) :
    Updated r (r.updateNeighbors N c) c d O N := by
  have hcN : c ∉ N := fun hc => (hN c hc).2 rfl
  have hcomps := comps_updateNeighbors r h hO hcN
  constructor
  · rw [hcomps, if_pos rfl]
  · intro x hxN hxO
    rw [hcomps, if_neg (hN x hxN).2, if_pos ⟨hxN, hxO⟩]
  · intro x hxc hx
    rw [hcomps, if_neg hxc, if_neg hx]
  · exact sent_updateNeighbors r h hO hcN
  · exact ⟨entered_updateNfy fun x hx => (hN x hx).1, rfl⟩
  · intro p u hp
    exact packetsTo_updateNeighbors h hO hcN hp

/-- A player loses one of its two neighbours and finds another player. -/
theorem updateNeighbors_updated_meeting : ∃ r : Region ℚ ℕ, ∃ d : Components ℚ ℕ,
    Updated r (r.updateNeighbors (.ofList [1, 3]) 0) 0 d (.ofList [1, 2]) (.ofList [1, 3]) := by
  let d : ℕ → SortedSet Entity → Components ℚ ℕ := fun u s =>
    ⟨⟨⟨0, 0, 0⟩, 0, 0, 1⟩, none, none, some s, some u⟩
  let r : Region ℚ ℕ :=
    (((empty.set 0 (some (d 7 (.ofList [1, 2])))).set 1 (some (d 8 (.ofList [0])))).set 2
      (some (d 9 (.ofList [0])))).set 3 (some (d 10 ∅))
  have hN : r.Answers 0 (.ofList [1, 3]) := by decide +kernel
  exact ⟨r, d 7 (.ofList [1, 2]), updateNeighbors_updated rfl rfl hN⟩

/-! ### `UpdateMove` -/

/-- The neighbours of `e`, which were `O`, are those found, and a player has been told of the
difference. -/
structure Fresh (r r' : Region F U) (e : Entity) (O N : SortedSet Entity) : Prop where
  neighbors : r'.neighbors e = some N
  told : ∀ u, r.user e = some u → ∃ l, r'.sent = r.sent ++ l ∧
    (∀ x ∈ N.diff O, ∃ m, (u, m) ∈ l ∧ x ∈ m.entered) ∧
    ∀ x ∈ O.diff N, ∃ m, (u, m) ∈ l ∧ x ∈ m.left

theorem Fresh.of_eq (hneighbors : r'.neighbors e = some N) {l : List (U × Message F)}
    (hsent : r'.sent = r.sent ++ l) : Fresh r r' e N N := by
  refine ⟨hneighbors, fun u _ => ⟨l, hsent, ?_⟩⟩
  rw [SortedSet.diff_self]
  exact ⟨fun _ hx => absurd hx List.not_mem_nil, fun _ hx => absurd hx List.not_mem_nil⟩

/-- A call of `UpdateNeighbors` tells a caller that is a player of every difference. -/
theorem fresh_updateNeighbors (h : r.comps c = some d) (hO : d.neighbor = some O)
    (hN : r.Answers c N) : Fresh r (r.updateNeighbors N c) c O N := by
  have hcN : c ∉ N := fun hc => (hN c hc).2 rfl
  have hneighbors : (r.updateNeighbors N c).neighbors c = some N := by
    rw [neighbors_of_comps _ ((comps_updateNeighbors r h hO hcN c).trans (if_pos rfl))]
    rfl
  have hsent := (sent_updateNeighbors r h hO hcN).trans (List.append_assoc ..)
  by_cases hNO : N = O
  · subst hNO
    exact .of_eq hneighbors hsent
  · refine ⟨hneighbors, fun u hu => ⟨_, hsent, ?_⟩⟩
    rw [if_neg hNO, ← user_of_comps r h, hu]
    have hmem : ∀ l : List (U × Message F),
        (u, r.updateNfy O N) ∈ l ++ ((some u).map fun u => (u, r.updateNfy O N)).toList :=
      fun l => List.mem_append_right l (List.mem_singleton_self _)
    refine ⟨fun x hx => ⟨_, hmem _, ?_⟩, fun x hx => ⟨_, hmem _, hx⟩⟩
    rw [entered_updateNfy fun x hx => (hN x hx).1]
    exact hx

/-- What the entity that asks does to itself does not make an answer wrong. -/
theorem Answers.modify (hN : r.Answers e N) (f : Components F U → Components F U) :
    (r.modify e f).Answers e N := by
  intro x hx
  refine ⟨?_, (hN x hx).2⟩
  rw [valid, comps_modify, if_neg (hN x hx).2]
  exact (hN x hx).1

variable [Field F] [LinearOrder F] {dt : F} {mover : Mover F}

/-- **Fresh views.**  A move leaves the mover with those found as its neighbours, and a player
knowing it, iff somebody is found or nobody was in view. -/
theorem updateMove_fresh_iff (h : r.comps e = some d) (hO : d.neighbor = some O)
    (hN : r.Answers e N) : Fresh r (r.updateMove e dt mover N) e O N ↔ N ≠ ∅ ∨ O = ∅ := by
  have hmove := visible_advance dt mover d
  have hcomps : (r.modify e (advance dt mover)).comps e = some (advance dt mover d) := by
    rw [comps_modify, if_pos rfl, h, Option.map_some]
  have hO' : (advance dt mover d).neighbor = some O := (Prod.mk.inj hmove).1.trans hO
  have hneighbors : (r.modify e (advance dt mover)).neighbors e = some O :=
    (neighbors_of_comps _ hcomps).trans hO'
  unfold updateMove
  by_cases hfound : N = ∅
  · -- `UpdateNeighbors` is not called
    subst hfound
    rw [if_neg (by simp [SortedSet.length_pos_iff])]
    constructor
    · intro hfresh
      exact .inr (Option.some.inj (hneighbors.symm.trans hfresh.neighbors))
    · rintro (hne | rfl)
      · exact absurd rfl hne
      · exact .of_eq hneighbors (List.append_nil _).symm
  · rw [if_pos (SortedSet.length_pos_iff.2 hfound)]
    refine iff_of_true ?_ (.inl hfound)
    have huser : (r.modify e (advance dt mover)).user e = r.user e := by
      rw [user_of_comps _ hcomps, user_of_comps r h, (Prod.mk.inj hmove).2]
    obtain ⟨hnew, htold⟩ := fresh_updateNeighbors hcomps hO' (hN.modify _)
    exact ⟨hnew, fun u hu => htold u (huser.trans hu)⟩

/-- A player that moves towards another entity finds it. -/
theorem updateMove_fresh_iff_found : ∃ (r : Region ℚ ℕ) (mover : Mover ℚ),
    r.user 0 = some 7 ∧ Fresh r (r.updateMove 0 1 mover (.ofList [1])) 0 ∅ (.ofList [1]) := by
  let mover : Mover ℚ := ⟨⟨9, 0, 0⟩, ⟨1, 0, 0⟩⟩
  let r : Region ℚ ℕ :=
    (empty.set 1 (some ⟨⟨⟨9, 0, 0⟩, 0, 0, 1⟩, none, none, some ∅, none⟩)).set 0
      (some ⟨⟨⟨0, 0, 0⟩, 0, 1, 1⟩, some mover, none, some ∅, some 7⟩)
  have hN : r.Answers 0 (.ofList [1]) := by decide +kernel
  exact ⟨r, mover, rfl, (updateMove_fresh_iff rfl rfl hN).2 (.inr rfl)⟩

/-- Nobody is found any more: the mover keeps the neighbour it had. -/
theorem updateMove_not_fresh : ¬∀ (r : Region ℚ ℕ) (e : Entity) (d : Components ℚ ℕ)
    (mover : Mover ℚ) (O N : SortedSet Entity) (dt : ℚ), r.comps e = some d →
      d.mover = some mover → d.neighbor = some O → r.Answers e N →
      Fresh r (r.updateMove e dt mover N) e O N := by
  intro h
  let mover : Mover ℚ := ⟨⟨9, 0, 0⟩, ⟨1, 0, 0⟩⟩
  let d : Components ℚ ℕ := ⟨⟨⟨0, 0, 0⟩, 0, 1, 1⟩, some mover, none, some (.ofList [1]), some 7⟩
  let r : Region ℚ ℕ :=
    (empty.set 1 (some ⟨⟨⟨-1, 0, 0⟩, 0, 0, 1⟩, none, none, some (.ofList [0]), none⟩)).set 0
      (some d)
  have hfresh := h r 0 d mover (.ofList [1]) ∅ 1 rfl rfl rfl fun x hx => absurd hx List.not_mem_nil
  have hkept : (r.updateMove 0 1 mover ∅).neighbors 0 = some (.ofList [1]) := by decide +kernel
  rw [hfresh.neighbors] at hkept
  exact absurd hkept (by decide)

end Region

end ClientServer
