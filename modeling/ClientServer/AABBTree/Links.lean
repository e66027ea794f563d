import ClientServer.AABBTree.Tree

/-!
# Links in the node pool

The connection between the node pool and the tree it represents: `layout` says which fields a
leaf and a branch have, and `Links t p τ` that the pool of `t` holds `τ` under the parent `p`.
The lemmas here say what the assignments of the source do to it:

* `linksCtx_replaceChild` : redirecting the link to the focus;
* `links_refit` : recomputing the box and the height of a branch.
-/

namespace ClientServer

open BinTree BoxTree

/-- The child on the side `s`. -/
def Node.child {K : Type*} (n : Node K) : Side → ℤ
  | .left => n.left
  | .right => n.right

/-- The node with another child on the side `s`. -/
def Node.setChild {K : Type*} (n : Node K) (s : Side) (j : ℤ) : Node K :=
  match s with
  | .left => { n with left := j }
  | .right => { n with right := j }

namespace DynamicAABBTree

variable {K : Type*}

/-- The fields of a linked node. -/
def layout : Layout ℤ (LeafData K) (BranchData K) (Node K) where
  leaf p a := ⟨a.aabb, p, a.userData, Null, 0⟩
  branch p l r b := ⟨b.aabb, p, l, r, b.height⟩

/-- The pool holds the tree `τ`, under the parent `p`. -/
abbrev Links (t : DynamicAABBTree K) (p : ℤ) (τ : BoxTree K) : Prop := Linked layout t.node p τ

/-- The pool holds a context with `child` in the focus. -/
abbrev LinksCtx (t : DynamicAABBTree K) (child : ℤ)
    (fs : List (Frame ℤ (LeafData K) (BranchData K))) : Prop :=
  LinkedCtx layout t.node Null child fs

/-- The cell of a branch with the child `y` on the side `s`. -/
def branchNode (s : Side) (p x y : ℤ) (b : BranchData K) : Node K :=
  match s with
  | .left => layout.branch p y x b
  | .right => layout.branch p x y b

section BranchNode

variable {s : Side} {p x y : ℤ} {b : BranchData K}

theorem child_branchNode : (branchNode s p x y b).child s = y := by cases s <;> rfl

theorem child_other_branchNode : (branchNode s p x y b).child s.other = x := by cases s <;> rfl

theorem parent_branchNode : (branchNode s p x y b).parent = p := by cases s <;> rfl

theorem height_branchNode : (branchNode s p x y b).height = b.height := by cases s <;> rfl

theorem right_branchNode :
    (branchNode s p x y b).right = x ∨ (branchNode s p x y b).right = y := by
  cases s with
  | left => exact .inl rfl
  | right => exact .inr rfl

end BranchNode

theorem links_branch {t : DynamicAABBTree K} {p i : ℤ} {s : Side} {b : BranchData K}
    {x y : BoxTree K} : t.Links p (branch s i b x y) ↔
      t.node i = branchNode s p x.name y.name b ∧ t.Links i x ∧ t.Links i y := by
  cases s with
  | left => exact and_congr_right fun _ => and_comm
  | right => exact .rfl

/-- `t'` differs from `t` only in its nodes and its root. -/
structure SameShell (t t' : DynamicAABBTree K) : Prop where
  freeList : t'.freeList = t.freeList
  size : t'.size = t.size
  count : t'.count = t.count
  nodesSize : t'.nodes.size = t.nodes.size

theorem SameShell.refl (t : DynamicAABBTree K) : SameShell t t := ⟨rfl, rfl, rfl, rfl⟩

theorem SameShell.trans {t₁ t₂ t₃ : DynamicAABBTree K} (h : SameShell t₁ t₂)
    (h' : SameShell t₂ t₃) : SameShell t₁ t₃ :=
  ⟨h'.1.trans h.1, h'.2.trans h.2, h'.3.trans h.3, h'.4.trans h.4⟩

/-! ### Reading after an assignment -/

section Modify

variable (t : DynamicAABBTree K) {i j : ℤ} (f : Node K → Node K)

theorem node_modify :
    (t.modify i f).node j = if j = i then f (t.node i) else t.node j :=
  t.nodes.cell_modify f

@[simp] theorem node_modify_self : (t.modify i f).node i = f (t.node i) :=
  t.nodes.cell_modify_self f

theorem node_modify_of_ne (h : j ≠ i) : (t.modify i f).node j = t.node j :=
  t.nodes.cell_modify_of_ne f h

@[simp] theorem root_modify : (t.modify i f).root = t.root := rfl

theorem SameShell.modify {t t' : DynamicAABBTree K} {i : ℤ} {f : Node K → Node K}
    (h : SameShell t t') : SameShell t (t'.modify i f) := ⟨h.1, h.2, h.3, h.4⟩

end Modify

section ReplaceChild

variable (t : DynamicAABBTree K) {p old new : ℤ}

theorem node_replaceChild_of_ne {j : ℤ} (h : j ≠ p) :
    (t.replaceChild p old new).node j = t.node j := by
  unfold replaceChild
  split_ifs
  · exact t.node_modify_of_ne _ h
  · exact t.node_modify_of_ne _ h
  · rfl

theorem node_replaceChild_above {fs : List (Frame ℤ (LeafData K) (BranchData K))} {j : ℤ}
    (h : j ∉ ctxNames fs) : (t.replaceChild (above Null fs) old new).node j = t.node j := by
  cases fs with
  | nil => simp [replaceChild, above, node]
  | cons f fs => exact t.node_replaceChild_of_ne fun hj => h (by simp [hj, above, ctxNames])

theorem sameShell_replaceChild : SameShell t (t.replaceChild p old new) := by
  unfold replaceChild
  split_ifs <;> exact ⟨rfl, rfl, rfl, rfl⟩

theorem root_replaceChild :
    (t.replaceChild p old new).root = if p = Null then new else t.root := by
  unfold replaceChild
  split_ifs <;> simp_all

end ReplaceChild

/-! ### Names and the null index -/

/-- Indices of nodes are not negative. -/
def NonNeg (is : List ℤ) : Prop := ∀ i ∈ is, 0 ≤ i

theorem ne_null_of_nonneg {i : ℤ} (h : 0 ≤ i) : i ≠ Null := by
  unfold Null; omega

theorem NonNeg.perm {is js : List ℤ} (h : NonNeg is) (hp : is.Perm js) : NonNeg js :=
  fun i hi => h i (hp.mem_iff.2 hi)

theorem NonNeg.ne_null {is : List ℤ} (h : NonNeg is) {i : ℤ} (hi : i ∈ is) : i ≠ Null :=
  ne_null_of_nonneg (h i hi)

theorem NonNeg.of_append_left {is js : List ℤ} (h : NonNeg (is ++ js)) : NonNeg is :=
  fun i hi => h i (List.mem_append_left _ hi)

theorem NonNeg.of_append_right {is js : List ℤ} (h : NonNeg (is ++ js)) : NonNeg js :=
  fun i hi => h i (List.mem_append_right _ hi)

section Branch

variable {i : ℤ} {b : BranchData K} {l r : BoxTree K}

theorem NonNeg.left (h : NonNeg (BinTree.node i b l r).names) : NonNeg l.names :=
  fun j hj => h j (by simp [names, hj])

theorem NonNeg.right (h : NonNeg (BinTree.node i b l r).names) : NonNeg r.names :=
  fun j hj => h j (by simp [names, hj])

end Branch

variable {t : DynamicAABBTree K} {p : ℤ} {τ : BoxTree K}
  {fs : List (Frame ℤ (LeafData K) (BranchData K))}

theorem Links.left_eq {i : ℤ} {b : BranchData K} {l r : BoxTree K}
    (h : t.Links p (.node i b l r)) : (t.node i).left = l.name := by
  simp [h.1, layout]

theorem Links.right_eq {i : ℤ} {b : BranchData K} {l r : BoxTree K}
    (h : t.Links p (.node i b l r)) : (t.node i).right = r.name := by
  simp [h.1, layout]

theorem Links.aabb (h : t.Links p τ) : (t.node τ.name).aabb = box τ := by
  cases τ with
  | leaf i a => rw [show t.node (name (.leaf i a)) = _ from h]; rfl
  | node i b l r => rw [show t.node (name (.node i b l r)) = _ from h.1]; rfl

theorem Links.height (h : t.Links p τ) : (t.node τ.name).height = BoxTree.height τ := by
  cases τ with
  | leaf i a => rw [show t.node (name (.leaf i a)) = _ from h]; rfl
  | node i b l r => rw [show t.node (name (.node i b l r)) = _ from h.1]; rfl

theorem Links.parent (h : t.Links p τ) : (t.node τ.name).parent = p := by
  cases τ with
  | leaf i a => rw [show t.node (name (.leaf i a)) = _ from h]; rfl
  | node i b l r => rw [show t.node (name (.node i b l r)) = _ from h.1]; rfl

/-- Two pools that hold the same tree differ in its root by the parent only. -/
theorem Links.node_eq {t' : DynamicAABBTree K} {p' : ℤ} (h : t.Links p τ) (h' : t'.Links p' τ) :
    t'.node τ.name = { t.node τ.name with parent := p' } := by
  cases τ with
  | leaf i a =>
    rw [show t.node (name (.leaf i a)) = _ from h, show t'.node (name (.leaf i a)) = _ from h']
    rfl
  | node i b l r =>
    rw [show t.node (name (.node i b l r)) = _ from h.1,
      show t'.node (name (.node i b l r)) = _ from h'.1]
    rfl

theorem Links.reparent {t' : DynamicAABBTree K} {q : ℤ} (h : t.Links p τ) (hn : τ.names.Nodup)
    (ho : ∀ j ∈ τ.names, j ≠ τ.name → t'.node j = t.node j)
    (hroot : t'.node τ.name = { t.node τ.name with parent := q }) : t'.Links q τ := by
  refine Linked.reparent h hn ho (fun x hx => ?_) fun l r b hb => ?_
  · rw [hroot, hx]
    rfl
  · rw [hroot, hb]
    rfl

/-- The focus hangs under `Null` only at the top. -/
theorem above_eq_null (h : NonNeg (ctxNames fs)) : above Null fs = Null ↔ fs = [] := by
  cases fs with
  | nil => simp [above]
  | cons f fs => simp [above, h.ne_null (i := f.name) (by simp [ctxNames])]

theorem above_not_mem {is : List ℤ} (hn : (is ++ ctxNames fs).Nodup) (h0 : NonNeg is) :
    above Null fs ∉ is := by
  intro hmem
  cases fs with
  | nil => exact h0.ne_null hmem rfl
  | cons f fs =>
    exact (List.nodup_append.1 hn).2.2 _ hmem _ (by simp [ctxNames, above]) rfl

theorem linksCtx_replaceChild {a c : ℤ} (h : t.LinksCtx a fs) (hn : (a :: ctxNames fs).Nodup)
    (h0 : NonNeg (ctxNames fs)) : (t.replaceChild (above Null fs) a c).LinksCtx c fs := by
  cases fs with
  | nil => trivial
  | cons f fs =>
    have hf : f.name ≠ Null := h0.ne_null (by simp [ctxNames])
    have ho : ∀ j ∈ f.sibling.names ++ ctxNames fs,
        (t.replaceChild f.name a c).node j = t.node j := fun j hj =>
      t.node_replaceChild_of_ne fun hjf => by simp_all [ctxNames]
    simp only [List.forall_mem_append] at ho
    cases f with
    | left i b r =>
      obtain ⟨hi, hr, hfs⟩ := h
      refine ⟨?_, hr.congr ho.1, hfs.congr ho.2⟩
      change (t.replaceChild i a c).node i = layout.branch (above Null fs) c r.name b
      change i ≠ Null at hf
      simp [replaceChild, hf, hi, layout]
    | right i b l =>
      obtain ⟨hi, hl, hfs⟩ := h
      have hla : l.name ≠ a := by
        rintro rfl
        simp [ctxNames, Frame.sibling] at hn
      refine ⟨?_, hl.congr ho.1, hfs.congr ho.2⟩
      change (t.replaceChild i a c).node i = layout.branch (above Null fs) l.name c b
      change i ≠ Null at hf
      simp [replaceChild, hf, hi, layout, hla]

theorem links_refit [LinearOrder K] {i : ℤ} {d : BranchData K} {l r : BoxTree K}
    (h : t.Links p (.node i d l r)) (hn : (BinTree.node i d l r).names.Nodup) :
    (t.refit i l.name r.name).Links p (BoxTree.mk i l r) := by
  obtain ⟨hi, (hl : t.Links i l), (hr : t.Links i r)⟩ := h
  simp only [names, List.nodup_cons, List.mem_append, not_or] at hn
  refine ⟨?_, hl.congr fun j hj => ?_, hr.congr fun j hj => ?_⟩
  · rw [refit, node_modify_self, hi, hl.aabb, hr.aabb, hl.height, hr.height]
    rfl
  · exact t.node_modify_of_ne _ (ne_of_mem_of_not_mem hj hn.1.1)
  · exact t.node_modify_of_ne _ (ne_of_mem_of_not_mem hj hn.1.2)

/-- A pool that holds the tree and nothing else, under `p`. -/
def holding [Zero K] (p : ℤ) (τ : BoxTree K) : DynamicAABBTree K where
  freeList := Null
  root := τ.name
  size := τ.names.length
  count := τ.names.length
  nodes := ⟨τ.names.length, write layout p τ fun _ => Node.zero⟩

theorem links_holding [Zero K] (hn : τ.names.Nodup) : (holding p τ).Links p τ := linked_write hn

end DynamicAABBTree

end ClientServer
