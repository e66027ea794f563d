import ClientServer.AABBTree.Rotation

/-!
# The stack of the query

The loop of `Query` by itself, from any node and without its assertion: the system `querySystem`
takes one turn after the other and writes down what it pushes where.  The entries of the stack are
disjoint subtrees, and an entry is as much lower than the start as there are entries beneath it.

* `Traversal.step` : what one turn keeps.
* `query_stack` : **the stack stays small**: at most one entry more than the start is high, and
  no node is pushed twice.
-/

namespace ClientServer

open BinTree BoxTree

namespace DynamicAABBTree

variable {K : Type*} [LinearOrder K]

/-- One turn of the loop of `Query`, the top of the stack first: the entries of the array that are
written, and the stack at the next loop head.  `none` leaves the loop, with a leaf or with an
empty stack. -/
def queryTurn (t : DynamicAABBTree K) (aabb : AABB2 K) : List ℤ → Option (List (ℕ × ℤ) × List ℤ)
  | [] => none
  | id :: stack =>
    let n := t.node id
    if aabb.testOverlap n.aabb then
      if n.IsLeaf then none
      else some ([(stack.length, n.left), (stack.length + 1, n.right)], n.right :: n.left :: stack)
    else some ([], stack)

/-- The loop of `Query`, turn after turn. -/
def querySystem (t : DynamicAABBTree K) (aabb : AABB2 K) : LTS (List ℤ) (List (ℕ × ℤ)) where
  step stack writes stack' := t.queryTurn aabb stack = some (writes, stack')

/-- The nodes that are pushed by the steps of a run. -/
def pushed (es : List (List ℤ × List (ℕ × ℤ))) : List ℤ := es.flatMap fun e => e.2.map Prod.snd

/-- What the loop of `Query` does with its stack, started with `s` alone on it. -/
structure StackBounded (t : DynamicAABBTree K) (aabb : AABB2 K) (s : ℤ) : Prop where
  sp_le : ∀ es stack, (t.querySystem aabb).Run [s] es stack →
    (stack.length : ℤ) ≤ (t.node s).height + 1
  once : ∀ es stack, (t.querySystem aabb).Run [s] es stack → (s :: pushed es).Nodup
  turns : ∃ n, ∀ es stack, (t.querySystem aabb).Run [s] es stack → es.length ≤ n
  ends : ∃ es stack, (t.querySystem aabb).Run [s] es stack ∧ t.queryTurn aabb stack = none
  /-- The assertion. -/
  fits : (t.node s).height ≤ 254 → ∀ es stack, (t.querySystem aabb).Run [s] es stack →
    stack.length < KStackCapacity
  writes : (t.node s).height ≤ 254 → ∀ es stack, (t.querySystem aabb).Run [s] es stack →
    ∀ e ∈ es, ∀ w ∈ e.2, w.1 < KStackCapacity
  result : (t.node s).height ≤ 254 →
    ∃ n, ∀ fuel, n ≤ fuel → (t.queryLoop aabb fuel [s]).isSome

variable {t : DynamicAABBTree K} {aabb : AABB2 K}

/-! ### One turn -/

theorem queryTurn_cases {stack stack' : List ℤ} {writes : List (ℕ × ℤ)}
    (h : t.queryTurn aabb stack = some (writes, stack')) :
    ∃ id rest, stack = id :: rest ∧
      ((writes = [] ∧ stack' = rest) ∨
        ¬(t.node id).IsLeaf ∧
          writes = [(rest.length, (t.node id).left), (rest.length + 1, (t.node id).right)] ∧
          stack' = (t.node id).right :: (t.node id).left :: rest) := by
  cases stack with
  | nil => cases h
  | cons id rest =>
    refine ⟨id, rest, rfl, ?_⟩
    simp only [queryTurn] at h
    split_ifs at h with ho hleaf
    · obtain ⟨rfl, rfl⟩ := Prod.mk.inj (Option.some.inj h)
      exact .inr ⟨hleaf, rfl, rfl⟩
    · obtain ⟨rfl, rfl⟩ := Prod.mk.inj (Option.some.inj h)
      exact .inl ⟨rfl, rfl⟩

theorem lt_length_of_queryTurn {stack stack' : List ℤ} {writes : List (ℕ × ℤ)}
    (h : t.queryTurn aabb stack = some (writes, stack')) : ∀ w ∈ writes, w.1 < stack'.length := by
  obtain ⟨id, rest, rfl, ⟨rfl, rfl⟩ | ⟨-, rfl, rfl⟩⟩ := queryTurn_cases h
  · simp
  · simp only [List.forall_mem_cons, List.length_cons]
    exact ⟨by omega, by omega, by simp⟩

/-! ### Runs -/

/-- Every entry is as high as `h` at most, less the number of entries beneath it. -/
def Fits (h : ℤ) : List (BoxTree K) → Prop
  | [] => True
  | σ :: σs => BoxTree.height σ + σs.length ≤ h ∧ Fits h σs

/-- The stack is `σs` after the steps `es` from the subtree `σ`. -/
structure Traversal (t : DynamicAABBTree K) (σ : BoxTree K)
    (es : List (List ℤ × List (ℕ × ℤ))) (σs : List (BoxTree K)) : Prop where
  subtrees : ∀ ρ ∈ σs, t.Subtree ρ
  fits : Fits (BoxTree.height σ) σs
  /-- What was pushed, and what is still below an entry, are different nodes of `σ`. -/
  once : ((σ.name :: pushed es) ++ σs.flatMap namesBelow).Subperm σ.names
  turns : es.length + (σs.flatMap names).length ≤ σ.names.length

variable {σ : BoxTree K} {σs : List (BoxTree K)} {es : List (List ℤ × List (ℕ × ℤ))}

theorem traversal_start (h : t.Subtree σ) : Traversal t σ [] [σ] where
  subtrees := List.forall_mem_singleton.2 h
  fits := ⟨by simp, trivial⟩
  once := by
    rw [List.flatMap_singleton, names_eq_cons]
    exact .refl _
  turns := by simp

/-- The subtrees on the stack are small enough. -/
theorem Traversal.length_le (h : Traversal t σ es σs) (hσ : Exact σ) :
    (σs.length : ℤ) ≤ BoxTree.height σ + 1 := by
  cases σs with
  | nil =>
    -- the loop is over
    have := hσ.height_nonneg
    simp only [List.length_nil, Nat.cast_zero]
    omega
  | cons ρ ρs =>
    have hρ := (h.subtrees ρ List.mem_cons_self).exact.height_nonneg
    have hfits := h.fits.1
    simp only [List.length_cons, Nat.cast_add, Nat.cast_one]
    omega

theorem pushed_append (es : List (List ℤ × List (ℕ × ℤ))) (stack : List ℤ)
    (writes : List (ℕ × ℤ)) :
    pushed (es ++ [(stack, writes)]) = pushed es ++ writes.map Prod.snd := by
  simp [pushed]

theorem Traversal.drop {ρ : BoxTree K} (h : Traversal t σ es (ρ :: σs)) (stack : List ℤ) :
    Traversal t σ (es ++ [(stack, [])]) σs where
  subtrees := (List.forall_mem_cons.1 h.subtrees).2
  fits := h.fits.2
  once := by
    have honce := h.once
    rw [List.flatMap_cons] at honce
    rw [pushed_append, List.map_nil, List.append_nil]
    exact ((List.sublist_append_right _ _).append_left _).subperm.trans honce
  turns := by
    have hpos : 0 < ρ.names.length := List.length_pos_of_mem ρ.name_mem_names
    have hturns := h.turns
    simp only [List.flatMap_cons, List.length_append, List.length_singleton] at hturns ⊢
    omega

/-- The children of the top entry take its place: they leave what is below it, and are lower. -/
theorem Traversal.branch {i : ℤ} {b : BranchData K} {l r : BoxTree K}
    (h : Traversal t σ es (.node i b l r :: σs)) (stack : List ℤ) {writes : List (ℕ × ℤ)}
    (hwrites : writes.map Prod.snd = [l.name, r.name]) :
    Traversal t σ (es ++ [(stack, writes)]) (r :: l :: σs) := by
  obtain ⟨hρ, hσs⟩ := List.forall_mem_cons.1 h.subtrees
  obtain ⟨hfit, hfits⟩ := h.fits
  change b.height + _ ≤ _ at hfit
  have hb := hρ.exact.height_node
  refine ⟨List.forall_mem_cons.2 ⟨hρ.right, List.forall_mem_cons.2 ⟨hρ.left, hσs⟩⟩,
    ⟨?_, ?_, hfits⟩, ?_, ?_⟩
  · -- the right child has one entry more beneath it, and is lower than the node was
    simp only [List.length_cons, Nat.cast_add, Nat.cast_one]
    omega
  · omega
  · -- the nodes below the entry are the two that are pushed, and those below them
    have honce := h.once
    have hbelow : (BinTree.node i b l r).namesBelow =
        (l.name :: l.namesBelow) ++ (r.name :: r.namesBelow) := by
      rw [← names_eq_cons, ← names_eq_cons]
      rfl
    rw [List.flatMap_cons, hbelow] at honce
    refine List.Subperm.trans (List.Perm.subperm ?_) honce
    rw [pushed_append, hwrites, List.perm_iff_count]
    intro j
    simp only [List.flatMap_cons, List.count_cons, List.count_append, List.count_nil]
    omega
  · have hturns := h.turns
    simp only [names, List.flatMap_cons, List.length_append, List.length_cons,
      List.length_nil] at hturns ⊢
    omega

/-- **One turn** keeps what is said of the stack. -/
theorem Traversal.step {stack' : List ℤ} {writes : List (ℕ × ℤ)} (h : Traversal t σ es σs)
    (hst : t.queryTurn aabb (σs.map name) = some (writes, stack')) :
    ∃ σs', stack' = σs'.map name ∧ Traversal t σ (es ++ [(σs.map name, writes)]) σs' := by
  obtain ⟨id, rest, hstack, hcase⟩ := queryTurn_cases hst
  cases σs with
  | nil => cases hstack
  | cons ρ ρs =>
    obtain ⟨rfl, rfl⟩ := List.cons.inj hstack
    rcases hcase with ⟨rfl, rfl⟩ | ⟨hleaf, rfl, rfl⟩
    · exact ⟨ρs, rfl, h.drop _⟩
    · have hρ : t.Subtree ρ := h.subtrees ρ List.mem_cons_self
      cases ρ with
      | leaf i a => exact absurd hρ.isLeaf hleaf
      | node i b l r =>
        obtain ⟨-, hleft, hright⟩ := hρ.node_branch
        rw [name, hleft, hright]
        exact ⟨r :: l :: ρs, rfl, h.branch _ rfl⟩

/-- What holds of the stack in every state of a run. -/
theorem Subtree.traversal {stack : List ℤ} (hσ : t.Subtree σ)
    (h : (t.querySystem aabb).Run [σ.name] es stack) :
    ∃ σs, stack = σs.map name ∧ Traversal t σ es σs := by
  induction h with
  | start => exact ⟨[σ], rfl, traversal_start hσ⟩
  | snoc _ hst ih =>
    obtain ⟨σs, rfl, htrav⟩ := ih
    exact htrav.step hst

/-! ### The assertion -/

section Assertion

variable {fuel : ℕ} {stack stack' : List ℤ} {writes : List (ℕ × ℤ)}

theorem isSome_queryLoop_succ (hst : t.queryTurn aabb stack = some (writes, stack'))
    (hfits : stack.length < KStackCapacity) :
    (t.queryLoop aabb (fuel + 1) stack).isSome = (t.queryLoop aabb fuel stack').isSome := by
  cases stack with
  | nil => cases hst
  | cons id rest =>
    simp only [queryTurn] at hst
    rw [queryLoop, if_pos hfits]
    dsimp only
    -- both loops ask the same questions
    split_ifs at hst ⊢ <;>
    · obtain ⟨-, rfl⟩ := Prod.mk.inj (Option.some.inj hst)
      exact Option.isSome_map

theorem isSome_queryLoop_last (hlast : t.queryTurn aabb stack = none)
    (hfits : stack.length < KStackCapacity) : (t.queryLoop aabb (fuel + 1) stack).isSome := by
  cases stack with
  | nil => rfl
  | cons id rest =>
    simp only [queryTurn] at hlast
    split_ifs at hlast with ho hleaf
    rw [queryLoop, if_pos hfits]
    dsimp only
    rw [if_pos ho, if_pos hleaf]
    rfl

theorem isSome_queryLoop_run {s₀ : List ℤ} (h : (t.querySystem aabb).Run s₀ es stack)
    (hfits : ∀ e ∈ es, e.1.length < KStackCapacity) :
    (t.queryLoop aabb (es.length + fuel) s₀).isSome = (t.queryLoop aabb fuel stack).isSome := by
  induction h generalizing fuel with
  | start => simp
  | @snoc es s s' l hrun hst ih =>
    rw [List.forall_mem_append, List.forall_mem_singleton] at hfits
    rw [List.length_append, List.length_singleton, Nat.add_assoc, ih hfits.1, Nat.add_comm 1,
      isSome_queryLoop_succ hst hfits.2]

end Assertion

/-! ### From any node -/

section Start

variable {stack : List ℤ}

theorem Subtree.sp_le (hσ : t.Subtree σ) (h : (t.querySystem aabb).Run [σ.name] es stack) :
    (stack.length : ℤ) ≤ BoxTree.height σ + 1 := by
  obtain ⟨σs, rfl, htrav⟩ := hσ.traversal h
  simpa using htrav.length_le hσ.exact

theorem Subtree.turns_le (hσ : t.Subtree σ) (h : (t.querySystem aabb).Run [σ.name] es stack) :
    es.length ≤ σ.names.length := by
  obtain ⟨σs, rfl, htrav⟩ := hσ.traversal h
  have hturns := htrav.turns
  omega

theorem Subtree.nodup_pushed (hσ : t.Subtree σ) (hn : σ.names.Nodup)
    (h : (t.querySystem aabb).Run [σ.name] es stack) : (σ.name :: pushed es).Nodup := by
  obtain ⟨σs, rfl, htrav⟩ := hσ.traversal h
  obtain ⟨l, hperm, hsub⟩ := htrav.once
  exact (List.nodup_append.1 (hperm.nodup_iff.1 (hn.sublist hsub))).1

/-- The loop ends: no run is longer than the subtree has nodes. -/
theorem Subtree.exists_last (hσ : t.Subtree σ) (aabb : AABB2 K) : ∃ es stack,
    (t.querySystem aabb).Run [σ.name] es stack ∧ t.queryTurn aabb stack = none := by
  obtain ⟨es, stack, hrun, hstuck⟩ := LTS.Run.exists_stuck (A := t.querySystem aabb)
    fun es stack => hσ.turns_le
  refine ⟨es, stack, hrun, ?_⟩
  cases h : t.queryTurn aabb stack with
  | none => rfl
  | some next => exact absurd h (hstuck next.1 next.2)

/-- At height 254 there is always room for two more. -/
theorem Subtree.sp_lt (hσ : t.Subtree σ) (h254 : BoxTree.height σ ≤ 254)
    (h : (t.querySystem aabb).Run [σ.name] es stack) : stack.length < KStackCapacity := by
  have := hσ.sp_le h
  rw [KStackCapacity]
  omega

theorem Subtree.isSome_queryLoop (hσ : t.Subtree σ) (h254 : BoxTree.height σ ≤ 254)
    (aabb : AABB2 K) : ∃ n, ∀ fuel, n ≤ fuel → (t.queryLoop aabb fuel [σ.name]).isSome := by
  obtain ⟨es, stack, hrun, hlast⟩ := hσ.exists_last aabb
  refine ⟨es.length + 1, fun fuel hfuel => ?_⟩
  obtain ⟨k, rfl⟩ := Nat.exists_eq_add_of_le hfuel
  have hheads : ∀ e ∈ es, e.1.length < KStackCapacity :=
    hrun.forall_steps (P := fun stack _ => stack.length < KStackCapacity)
      fun _ _ _ _ hrun' _ => hσ.sp_lt h254 hrun'
  rw [Nat.add_assoc, isSome_queryLoop_run hrun hheads, Nat.add_comm 1]
  exact isSome_queryLoop_last hlast (hσ.sp_lt h254 hrun)

end Start

/-- **The stack of the query.**  In every linked exact tree, for every box and from every node
`s`: the loop ends, pushes no node twice, and at every loop head has at most one entry more than
`s` is high.  So from a node that is not higher than 254 the assertion holds, and nothing is
written behind the array. -/
theorem query_stack {τ : BoxTree K} (hτ : t.Subtree τ) (hroot : t.root = τ.name)
    (hn : τ.names.Nodup) (aabb : AABB2 K) {s : ℤ} (hs : t.Reaches s) : t.StackBounded aabb s := by
  obtain ⟨σ, hσ, rfl, fs, rfl⟩ := hs.exists_subtree hτ hroot
  have hnσ : σ.names.Nodup := (List.nodup_append.1 ((names_plug_perm fs σ).nodup_iff.1 hn)).1
  have hheight : (t.node σ.name).height = BoxTree.height σ := hσ.links.elim fun _ hp => hp.height
  refine ⟨fun es stack hrun => ?_, fun es stack => hσ.nodup_pushed hnσ,
    ⟨_, fun es stack => hσ.turns_le⟩, hσ.exists_last aabb, fun h254 es stack hrun => ?_,
    fun h254 es stack hrun => ?_, fun h254 => ?_⟩
  · rw [hheight]
    exact hσ.sp_le hrun
  · exact hσ.sp_lt (hheight ▸ h254) hrun
  · -- what a turn writes is below the stack pointer at the next loop head
    refine hrun.forall_steps (P := fun _ writes => ∀ w ∈ writes, w.1 < KStackCapacity)
      fun es s l s' hrun' hst w hw => ?_
    exact (lt_length_of_queryTurn hst w hw).trans (hσ.sp_lt (hheight ▸ h254) (hrun'.snoc hst))
  · exact hσ.isSome_queryLoop (hheight ▸ h254) aabb

/-- The first turn at the root of a tree with four leaves. -/
theorem query_stack_leaning :
    (holding Null (BoxTree.refit leaning)).queryTurn ⟨⟨0, 0⟩, ⟨9, 9⟩⟩ [0] =
        some ([(0, 1), (1, 2)], [2, 1]) ∧
      (holding Null (BoxTree.refit leaning)).StackBounded ⟨⟨0, 0⟩, ⟨9, 9⟩⟩ 0 := by
  have hn : (BoxTree.refit leaning).names.Nodup := by decide
  have hsub : (holding Null (BoxTree.refit leaning)).Subtree (BoxTree.refit leaning) :=
    ⟨⟨Null, links_holding hn⟩, (names_refit leaning).symm ▸ nonNeg_leaning,
      exact_mk.2 exactBelow_leaning⟩
  exact ⟨by decide +kernel, query_stack hsub rfl hn _ (.root (by decide))⟩

end DynamicAABBTree

end ClientServer
