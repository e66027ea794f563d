import ClientServer.AABBTree.Heights

/-!
# The rotation law

What one call of `Balance` does to the subtree it is called on, wherever that subtree hangs: under
a child link of its parent, or under `root_`.  The box and the height that the root of the subtree
stores may be stale, as they are when `SyncHeirarchy` comes to it.

* `Promotion.levels_eq` : a rotation adds no level, and takes one away if one of the children of
  the promoted child was higher than the other.
* `balance_law` : **the rotation law**, for links, nodes, leaves, boxes, heights and frame.
-/

namespace ClientServer

open BinTree

namespace BoxTree

variable {K : Type*} [LinearOrder K]

/-- The `Union` of the boxes of all leaves. -/
def leafUnion : BoxTree K → AABB2 K
  | .leaf _ a => a.aabb
  | .node _ _ l r => AABB2.union (leafUnion l) (leafUnion r)

theorem Exact.height_eq_levels {t : BoxTree K} (h : Exact t) : height t = t.levels := by
  induction t with
  | leaf i a => rfl
  | node i b l r ihl ihr =>
    have hb := h.height_node
    rw [ihl h.2.1, ihr h.2.2] at hb
    simp [height, hb, levels]

/-! ### What a rotation does to the tree -/

variable {τ σ m τ' : BoxTree K}

theorem Promotion.exact (h : Promotion τ σ m τ') (hτ : ExactBelow τ) : Exact τ' := by
  obtain ⟨-, hkm, -⟩ := h
  obtain ⟨hX, -, hF, hG⟩ := exactBelow_branch.1 hτ
  obtain ⟨rfl, rfl⟩ | ⟨rfl, rfl⟩ := hkm
  · exact exact_mkAt.2 ⟨exact_mkAt.2 ⟨hX, hG⟩, hF⟩
  · exact exact_mkAt.2 ⟨exact_mkAt.2 ⟨hX, hF⟩, hG⟩

theorem leafUnion_branch {s : Side} {i : ℤ} {b : BranchData K} {x y : BoxTree K} :
    leafUnion (branch s i b x y) = AABB2.union (leafUnion x) (leafUnion y) := by
  cases s with
  | left => exact AABB2.union_comm _ _
  | right => rfl

theorem Promotion.leafUnion_eq (h : Promotion τ σ m τ') : leafUnion τ' = leafUnion τ := by
  obtain ⟨-, hkm, -⟩ := h
  simp only [mkAt, leafUnion_branch, AABB2.union_assoc]
  obtain ⟨rfl, rfl⟩ | ⟨rfl, rfl⟩ := hkm
  · rw [AABB2.union_comm (leafUnion m)]
    rfl
  · rfl

/-- Where `σ` is higher by two or more, one of its children is higher too. -/
theorem Exact.levels_lt {B F G : BoxTree K} {c : ℤ} {e : BranchData K} (hB : Exact B)
    (hσ : Exact (.node c e F G)) (h : e.height - height B > 1) :
    B.levels < max F.levels G.levels := by
  have he := hσ.height_node
  rw [hσ.2.1.height_eq_levels, hσ.2.2.height_eq_levels] at he
  rw [hB.height_eq_levels] at h
  omega

/-- The true height after a rotation: the child that stays under the promoted one decides. -/
theorem Promotion.levels_eq (h : Promotion τ σ m τ') (hτ : ExactBelow τ) :
    τ'.levels ≤ τ.levels ∧
      ∀ l r, IsChild l σ → IsChild r σ → l.levels ≠ r.levels → τ'.levels + 1 = τ.levels := by
  -- `σ` has no more than two children
  have children : ∀ {i : ℤ} {b : BranchData K} {x y l r : BoxTree K}, IsChild l (.node i b x y) →
      IsChild r (.node i b x y) → l.levels ≠ r.levels → x.levels ≠ y.levels := by
    rintro i b x y l r (rfl | rfl) (rfl | rfl) hne
    exacts [absurd rfl hne, hne, hne.symm, absurd rfl hne]
  -- two levels go, those of the two roots; one or two come
  obtain ⟨h, hkm, hle⟩ := h
  obtain ⟨hX, hσ⟩ := exactBelow_branch.1 hτ
  have hlt := hX.levels_lt hσ h
  obtain ⟨-, hF, hG⟩ := hσ
  obtain ⟨rfl, rfl⟩ | ⟨rfl, rfl⟩ := hkm <;>
  · rw [hF.height_eq_levels, hG.height_eq_levels] at hle
    simp only [mkAt, levels_branch, levels]
    refine ⟨by omega, fun l r hl hr hne => ?_⟩
    have := children hl hr hne
    omega

end BoxTree

namespace DynamicAABBTree

open BoxTree

variable {K : Type*}

/-- The link from above leads to node `i`: a child link of `p`, or `root_`. -/
def Hangs (t : DynamicAABBTree K) (p i : ℤ) : Prop :=
  if p = Null then t.root = i else (t.node p).left = i ∨ (t.node p).right = i

/-- A rotation at the root of `τ`, under `p`, promotes the node `i`. -/
structure Rotated [LinearOrder K] (t t' : DynamicAABBTree K) (p i : ℤ) (τ τ' σ m : BoxTree K) :
    Prop where
  /-- The promoted child, and its child that moves. -/
  promoted : IsChild σ τ ∧ σ.name = i
  moved : IsChild m σ
  exact : Exact τ'
  levels_eq : ∀ l r, IsChild l σ → IsChild r σ → l.levels ≠ r.levels →
    τ'.levels + 1 = τ.levels
  /-- What moves gets another parent, and is not changed otherwise. -/
  node_moved : t'.node m.name = { t.node m.name with parent := τ.name }
  /-- The former parent changes in the one link. -/
  node_above : p ≠ Null → t'.node p =
    if (t.node p).left = τ.name then { t.node p with left := i } else { t.node p with right := i }
  frame : ∀ j, j ≠ τ.name → j ≠ i → j ≠ m.name → (j = p → p = Null) → t'.node j = t.node j

/-- What a call of `Balance` that returns `i` leaves in the place of `τ`, under `p`. -/
structure RotationLaw [LinearOrder K] (t t' : DynamicAABBTree K) (p i : ℤ) (τ τ' : BoxTree K) :
    Prop where
  name : τ'.name = i
  links : t'.Links p τ'
  parent : (t'.node i).parent = (t.node τ.name).parent
  hangs : t'.Hangs p i
  names : τ'.names.Perm τ.names
  leaves : τ'.leaves.Perm τ.leaves
  leafUnion : leafUnion τ' = leafUnion τ
  levels_le : τ'.levels ≤ τ.levels
  root : p ≠ Null → t'.root = t.root
  shell : SameShell t t'
  same : i = τ.name → t' = t
  rotated : i ≠ τ.name → ∃ σ m, Rotated t t' p i τ τ' σ m

section ReplaceChild

variable (t : DynamicAABBTree K) {p old new : ℤ}

theorem node_replaceChild_self (h : p ≠ Null) : (t.replaceChild p old new).node p =
    if (t.node p).left = old then { t.node p with left := new }
    else { t.node p with right := new } := by
  rw [replaceChild, if_pos h]
  split_ifs <;> exact t.node_modify_self _

theorem hangs_replaceChild : (t.replaceChild p old new).Hangs p new := by
  unfold Hangs
  split_ifs with h
  · rw [root_replaceChild, if_pos h]
  · rw [node_replaceChild_self t h]
    split_ifs
    · exact .inl rfl
    · exact .inr rfl

end ReplaceChild

variable [LinearOrder K] {t : DynamicAABBTree K} {p : ℤ} {τ : BoxTree K}

theorem rotationLaw_same (hlinks : t.Links p τ) (hhangs : t.Hangs p τ.name) :
    RotationLaw t t p τ.name τ τ where
  name := rfl
  links := hlinks
  parent := rfl
  hangs := hhangs
  names := .refl _
  leaves := .refl _
  leafUnion := rfl
  levels_le := le_rfl
  root _ := rfl
  shell := .refl t
  same _ := rfl
  rotated h := absurd rfl h

theorem Promotes.rotationLaw {t' : DynamicAABBTree K} {σ m : BoxTree K}
    (h : Promotes t t' p τ.name σ.name m.name (BoxTree.balance τ)) (hlinks : t.Links p τ)
    (hpro : Promotion τ σ m (BoxTree.balance τ)) (hex : ExactBelow τ) (hn : τ.names.Nodup)
    (hp : p ∉ τ.names) : RotationLaw t t' p σ.name τ (BoxTree.balance τ) := by
  obtain ⟨hσ, hm⟩ := hpro.isChild
  have hσm := hσ.names_subset σ.name_mem_names
  have hmm := hσ.names_subset (hm.names_subset m.name_mem_names)
  have habove : t'.node p = (t.replaceChild p τ.name σ.name).node p :=
    h.rest p (ne_of_mem_of_not_mem τ.name_mem_names hp).symm (ne_of_mem_of_not_mem hσm hp).symm
      (ne_of_mem_of_not_mem hmm hp).symm
  have hparent : (t'.node σ.name).parent = p := hpro.name_eq ▸ h.links.parent
  refine ⟨hpro.name_eq, h.links, by rw [hparent, hlinks.parent], ?_, names_balance_perm τ,
    leaves_balance_perm τ, hpro.leafUnion_eq, (hpro.levels_eq hex).1, fun hne => ?_, h.shell,
    fun heq => absurd heq (hσ.name_ne hn), fun _ => ⟨σ, m, ⟨hσ, rfl⟩, hm, hpro.exact hex,
      (hpro.levels_eq hex).2, h.moved, fun hne => ?_, fun j hj hjσ hjm hjp => ?_⟩⟩
  · -- the link from above is the one that is redirected
    have hhangs : (t.replaceChild p τ.name σ.name).Hangs p σ.name := t.hangs_replaceChild
    rwa [Hangs, ← h.root, ← habove] at hhangs
  · rw [h.root, root_replaceChild, if_neg hne]
  · rw [habove, t.node_replaceChild_self hne]
  · rw [h.rest j hj hjσ hjm]
    by_cases hpnull : p = Null
    · -- at the top `root_` is redirected, and no node
      rw [hpnull, replaceChild, if_neg (not_not_intro rfl)]
      rfl
    · exact t.node_replaceChild_of_ne fun heq => hpnull (hjp heq)

/-- **The rotation law.**  Whatever subtree `Balance` is called on: it returns the index that now
stands in its place, linked from above and back; the nodes, the leaves and the union of their
boxes stay; the true height does not grow, and a rotation lowers it by one if one child of the
promoted child was higher than the other; and no other node changes. -/
theorem balance_law (hlinks : t.Links p τ) (hhangs : t.Hangs p τ.name) (hex : ExactBelow τ)
    (hn : τ.names.Nodup) (h0 : NonNeg τ.names) (hp : p ∉ τ.names) :
    ∃ τ', RotationLaw t (t.balance τ.name).1 p (t.balance τ.name).2 τ τ' := by
  cases τ with
  | leaf i a =>
    -- a leaf is returned at once
    have heq : t.balance i = (t, i) := balance_eq_self (.inl hlinks.isLeaf_leaf)
    refine ⟨.leaf i a, ?_⟩
    rw [name, heq]
    exact rotationLaw_same hlinks hhangs
  | node a d B C =>
    refine ⟨BoxTree.balance (.node a d B C), ?_⟩
    rcases balance_promotes hlinks hex.1 hex.2 hn h0 hp with ⟨h₁, h₂⟩ | ⟨σ, m, hpro, hname, h⟩
    · rw [name, h₁, h₂]
      exact rotationLaw_same hlinks hhangs
    · rw [name, hname]
      exact h.rotationLaw hlinks hpro hex hn hp

/-- A leaf beside a tree with three leaves; what the root stores is stale. -/
def leaning : BoxTree ℚ :=
  .node 0 ⟨⟨⟨0, 0⟩, ⟨0, 0⟩⟩, 0⟩ (.leaf 1 ⟨⟨⟨0, 0⟩, ⟨1, 1⟩⟩, 7⟩)
    (BoxTree.mk 2 (BoxTree.mk 3 (.leaf 4 ⟨⟨⟨2, 0⟩, ⟨3, 1⟩⟩, 8⟩) (.leaf 5 ⟨⟨⟨4, 0⟩, ⟨5, 1⟩⟩, 9⟩))
      (.leaf 6 ⟨⟨⟨6, 0⟩, ⟨7, 1⟩⟩, 10⟩))

theorem exactBelow_leaning : ExactBelow leaning := by
  simp [leaning, ExactBelow, exact_mk, Exact]

theorem nonNeg_leaning : NonNeg leaning.names := by
  have hall : ∀ i ∈ leaning.names, 0 ≤ i := by decide
  exact hall

/-- The right child of the root is promoted. -/
theorem balance_law_leaning : ∃ τ', ((holding Null leaning).balance 0).2 = 2 ∧
    RotationLaw (holding Null leaning) ((holding Null leaning).balance 0).1 Null 2 leaning τ' := by
  have hn : leaning.names.Nodup := by decide
  have hhangs : (holding Null leaning).Hangs Null leaning.name := by
    rw [Hangs, if_pos rfl]
    rfl
  have hindex : ((holding Null leaning).balance leaning.name).2 = 2 := by decide +kernel
  obtain ⟨τ', h⟩ := balance_law (links_holding hn) hhangs exactBelow_leaning hn nonNeg_leaning
    (by decide)
  rw [hindex] at h
  exact ⟨τ', hindex, h⟩

end DynamicAABBTree

end ClientServer
