import ClientServer.AABBTree.Query

/-!
# Bounds and heights

What the branches of the pool store about the nodes below them.  Between relinking and repair the
ancestors of a leaf hold stale boxes and heights; here it is said of the states between two calls,
in which `SyncHeirarchy` has gone up to the root.

* `AABB2.Within` : a box lies inside another, touching allowed; `Union` is the least upper bound.
* `Subtree.within_iff` : the box of a node lies inside a box iff those of all leaves below it do.
* `bounded_run` : **boxes and heights**, of every branch and over every run from a fresh tree.
-/

namespace ClientServer

open BinTree BoxTree

namespace AABB2

variable {K : Type*} [LinearOrder K] {a b c : AABB2 K}

/-- `a` lies inside `b`, touching allowed. -/
structure Within (a b : AABB2 K) : Prop where
  left : b.min.x ≤ a.min.x
  right : a.max.x ≤ b.max.x
  bottom : b.min.y ≤ a.min.y
  top : a.max.y ≤ b.max.y

theorem within_refl (a : AABB2 K) : a.Within a := ⟨le_rfl, le_rfl, le_rfl, le_rfl⟩

theorem union_within_iff : (union a b).Within c ↔ a.Within c ∧ b.Within c := by
  constructor
  · rintro ⟨hl, hr, hb, ht⟩
    rw [union, le_min_iff] at hl hb
    rw [union, max_le_iff] at hr ht
    exact ⟨⟨hl.1, hr.1, hb.1, ht.1⟩, ⟨hl.2, hr.2, hb.2, ht.2⟩⟩
  · rintro ⟨⟨hl, hr, hb, ht⟩, ⟨hl', hr', hb', ht'⟩⟩
    exact ⟨le_min hl hl', max_le hr hr', le_min hb hb', max_le ht ht'⟩

end AABB2

namespace DynamicAABBTree

variable {K : Type*} {t : DynamicAABBTree K} {i j : ℤ}

/-- `j` is a leaf at node `i` or below it. -/
def LeafBelow (t : DynamicAABBTree K) (i j : ℤ) : Prop :=
  (∃ p, t.follow i p = some j) ∧ (t.node j).IsLeaf

theorem leafBelow_leaf (h : (t.node i).IsLeaf) : t.LeafBelow i j ↔ j = i := by
  constructor
  · rintro ⟨hp, -⟩
    exact (follows_leaf h).1 hp
  · rintro rfl
    exact ⟨⟨[], rfl⟩, h⟩

theorem leafBelow_branch (h : ¬(t.node i).IsLeaf) :
    t.LeafBelow i j ↔ t.LeafBelow (t.node i).left j ∨ t.LeafBelow (t.node i).right j := by
  constructor
  · rintro ⟨hp, hleaf⟩
    exact ((follows_branch h hleaf).1 hp).imp (⟨·, hleaf⟩) (⟨·, hleaf⟩)
  · rintro (⟨hp, hleaf⟩ | ⟨hp, hleaf⟩)
    · exact ⟨(follows_branch h hleaf).2 (.inl hp), hleaf⟩
    · exact ⟨(follows_branch h hleaf).2 (.inr hp), hleaf⟩

variable [LinearOrder K]

/-- The box and the height that a branch stores. -/
structure Bounded (t : DynamicAABBTree K) (i : ℤ) : Prop where
  aabb : (t.node i).aabb =
    AABB2.union (t.node (t.node i).left).aabb (t.node (t.node i).right).aabb
  height : (t.node i).height =
    1 + max (t.node (t.node i).left).height (t.node (t.node i).right).height
  covers : ∀ j, t.LeafBelow i j → (t.node j).aabb.Within (t.node i).aabb
  tight : ∀ c : AABB2 K, (∀ j, t.LeafBelow i j → (t.node j).aabb.Within c) →
    (t.node i).aabb.Within c

variable {σ : BoxTree K}

/-- **Bounds.**  The box of a node lies inside a box iff those of all leaves below it do. -/
theorem Subtree.within_iff (h : t.Subtree σ) (c : AABB2 K) :
    (t.node σ.name).aabb.Within c ↔
      ∀ j, t.LeafBelow σ.name j → (t.node j).aabb.Within c := by
  induction σ with
  | leaf i a =>
    simp only [name, leafBelow_leaf h.isLeaf, forall_eq]
  | node i b l r ihl ihr =>
    obtain ⟨hbox, hleft, hright⟩ := h.node_branch
    change (t.node i).aabb.Within c ↔ ∀ j, t.LeafBelow i j → (t.node j).aabb.Within c
    simp only [leafBelow_branch h.not_isLeaf, hleft, hright, or_imp, forall_and]
    rw [hbox, AABB2.union_within_iff, ihl h.left, ihr h.right]

theorem Subtree.bounded {i : ℤ} {b : BranchData K} {l r : BoxTree K}
    (h : t.Subtree (.node i b l r)) : t.Bounded i := by
  obtain ⟨hbox, hleft, hright⟩ := h.node_branch
  obtain ⟨p, hi, hl, hr⟩ := h.links
  refine ⟨by rw [hbox, hleft, hright], ?_, ?_, ?_⟩
  · rw [hleft, hright, Links.height hl, Links.height hr, hi]
    exact congrArg BranchData.height h.exact.1
  · exact (h.within_iff (t.node i).aabb).1 (AABB2.within_refl _)
  · exact fun c => (h.within_iff c).2

theorem Reaches.exists_subtree {τ : BoxTree K} (hτ : t.Subtree τ) (hroot : t.root = τ.name)
    (h : t.Reaches i) :
    ∃ σ : BoxTree K, t.Subtree σ ∧ σ.name = i ∧ ∃ fs, plug fs σ = τ := by
  induction h with
  | root hne => exact ⟨τ, hτ, hroot.symm, [], rfl⟩
  | @left i _ hleaf ih =>
    obtain ⟨σ, hσ, rfl, fs, hplug⟩ := ih
    cases σ with
    | leaf i a => exact absurd hσ.isLeaf hleaf
    | node i b l r => exact ⟨l, hσ.left, hσ.node_branch.2.1.symm, .left i b r :: fs, hplug⟩
  | @right i _ hleaf ih =>
    obtain ⟨σ, hσ, rfl, fs, hplug⟩ := ih
    cases σ with
    | leaf i a => exact absurd hσ.isLeaf hleaf
    | node i b l r => exact ⟨r, hσ.right, hσ.node_branch.2.2.symm, .right i b l :: fs, hplug⟩

end DynamicAABBTree

/-! ### Runs -/

open DynamicAABBTree

namespace TrackedTree

variable {K : Type*} [LinearOrder K] {s : TrackedTree K} {T : Option (BoxTree K)} {i : ℤ}

theorem Tracks.bounded (h : s.Tracks T) (hi : s.tree.Reaches i)
    (hleaf : ¬(s.tree.node i).IsLeaf) : s.tree.Bounded i := by
  cases T with
  | none => exact absurd ((reaches_iff h.holds).1 hi) List.not_mem_nil
  | some τ =>
    obtain ⟨σ, hσ, rfl, -⟩ := Reaches.exists_subtree h.subtree h.root_eq hi
    cases σ with
    | leaf i a => exact absurd hσ.isLeaf hleaf
    | node i b l r => exact hσ.bounded

variable [Field K] [IsStrictOrderedRing K]

/-- **Boxes and heights.**  In every state of every run from a fresh tree each branch stores the
`Union` of the boxes of its children, which is the least box around all leaves below it, and a
height one more than the greater of theirs. -/
theorem bounded_run {size : ℤ} (hsize : 1 ≤ size) {es : List (TrackedTree K × TreeCall K)}
    (h : (treeSystem K).Run (freshTree size) es s) :
    ∀ i, s.tree.Reaches i → ¬(s.tree.node i).IsLeaf → s.tree.Bounded i := by
  obtain ⟨T, hT⟩ := tracked_run hsize h
  intro i hi hleaf
  exact hT.bounded hi hleaf

/-- With two leaves the root is a branch. -/
theorem bounded_run_two_inserts : ∃ es s, (treeSystem ℚ).Run (freshTree 1) es s ∧
    es.length = 2 ∧ s.tree.Reaches s.tree.root ∧ ¬(s.tree.node s.tree.root).IsLeaf ∧
      s.tree.Bounded s.tree.root := by
  obtain ⟨s, hrun, hs⟩ := exists_run (freshTree 1 : TrackedTree ℚ)
    [.insert ⟨⟨0, 0⟩, ⟨1, 1⟩⟩ 7 0, .insert ⟨⟨5, 5⟩, ⟨6, 6⟩⟩ 8 1]
    (fun s => s.tree.root ≠ Null ∧ ¬(s.tree.node s.tree.root).IsLeaf) (by decide +kernel)
  obtain ⟨hroot, hleaf⟩ := of_decide_eq_true hs
  have hreach : s.tree.Reaches s.tree.root := .root hroot
  exact ⟨_, s, hrun, by decide +kernel, hreach, hleaf, bounded_run le_rfl hrun _ hreach hleaf⟩

end TrackedTree

end ClientServer
