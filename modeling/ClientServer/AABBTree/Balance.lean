import ClientServer.AABBTree.Links

/-!
# Rotations on the links

`Balance` and `SyncHeirarchy` do on the links of the pool what `BoxTree.balance` and
`BoxTree.climb` do on the tree.

* `promotes_attach` : the rotations;
* `balance_promotes` : `Balance` at a branch, whatever is above it;
* `balance_refines` : `Balance` inside a tree;
* `syncVisits_refines` : `SyncHeirarchy` comes to its start and the branches above it, each once,
  and ends at the root.
-/

namespace ClientServer

open BinTree BoxTree

namespace DynamicAABBTree

variable {K : Type*} {t : DynamicAABBTree K} {τ : BoxTree K}
  {fs : List (Frame ℤ (LeafData K) (BranchData K))}

/-! ### The rotations -/

/-- The nodes a rotation is about: `a` comes under `c`, with `X` and `moved`. -/
def rotated (a c : ℤ) (X kept moved : BoxTree K) : List ℤ :=
  a :: c :: (X.names ++ (kept.names ++ moved.names))

/-- What both rotations have in common.  Only `a`, `c` and the root of `moved` get new contents;
the rest of the three subtrees stays linked as it was. -/
theorem rotate_links {t t' : DynamicAABBTree K} {p a c : ℤ} {X kept moved : BoxTree K}
    (hX : t.Links a X) (hk : t.Links c kept) (hm : t.Links c moved)
    (hn : (rotated a c X kept moved).Nodup) (hp : p ∉ rotated a c X kept moved)
    (hm' : t'.node moved.name = { t.node moved.name with parent := a })
    (ho : ∀ j, j ≠ a → j ≠ c → j ≠ moved.name →
      t'.node j = (t.replaceChild p a c).node j) :
    t'.Links a X ∧ t'.Links a moved ∧ t'.Links c kept := by
  have hmn := moved.name_mem_names
  simp only [rotated, List.nodup_cons, List.mem_cons, List.mem_append, not_or,
    List.nodup_append] at hn hp
  obtain ⟨⟨hac, haX, hak, ham⟩, ⟨hcX, hck, hcm⟩, hnX, ⟨hnk, hnm, hkm⟩, hXkm⟩ := hn
  obtain ⟨-, -, hpX, hpk, hpm⟩ := hp
  have hsame : ∀ j, j ≠ a → j ≠ c → j ≠ moved.name → j ≠ p → t'.node j = t.node j :=
    fun j h₁ h₂ h₃ h₄ => (ho j h₁ h₂ h₃).trans (t.node_replaceChild_of_ne h₄)
  refine ⟨?_, ?_, ?_⟩
  · -- no node of `X` is written
    exact hX.congr fun j hj => hsame j (ne_of_mem_of_not_mem hj haX) (ne_of_mem_of_not_mem hj hcX)
      (hXkm j hj _ (.inr hmn)) (ne_of_mem_of_not_mem hj hpX)
  · -- of `moved` only the root is, and only its parent
    exact hm.reparent hnm (fun j hj hne => hsame j (ne_of_mem_of_not_mem hj ham)
      (ne_of_mem_of_not_mem hj hcm) hne (ne_of_mem_of_not_mem hj hpm)) hm'
  · exact hk.congr fun j hj => hsame j (ne_of_mem_of_not_mem hj hak) (ne_of_mem_of_not_mem hj hck)
      (hkm j hj _ hmn) (ne_of_mem_of_not_mem hj hpk)

theorem rotated_distinct {p a c : ℤ} {X kept moved : BoxTree K}
    (hn : (rotated a c X kept moved).Nodup) (hp : p ∉ rotated a c X kept moved) :
    [p, a, X.name, c, kept.name, moved.name].Nodup := by
  have hXn := X.name_mem_names
  have hkn := kept.name_mem_names
  have hmn := moved.name_mem_names
  simp only [rotated, List.nodup_cons, List.mem_cons, List.mem_append, not_or,
    List.nodup_append] at hn hp
  simp only [List.nodup_cons, List.mem_cons, List.not_mem_nil, or_false, not_or,
    not_false_eq_true, List.nodup_nil, and_true]
  grind

/-- What a rotation at `a`, under `p`, does to the pool: `c` comes to stand where `a` stood, and
the node `m` moves under `a`. -/
structure Promotes (t t' : DynamicAABBTree K) (p a c m : ℤ) (τ' : BoxTree K) : Prop where
  links : t'.Links p τ'
  moved : t'.node m = { t.node m with parent := a }
  rest : ∀ j, j ≠ a → j ≠ c → j ≠ m → t'.node j = (t.replaceChild p a c).node j
  root : t'.root = (t.replaceChild p a c).root
  shell : SameShell t t'

theorem root_replaceChild_above {a c : ℤ} (t : DynamicAABBTree K) (h0 : NonNeg (ctxNames fs)) :
    (t.replaceChild (above Null fs) a c).root = if fs = [] then c else t.root := by
  simp only [root_replaceChild, above_eq_null h0]

/-- What a step inside the pool may change: it leaves `τ'` in the focus of `fs`, and touches no
node outside `is` and the context. -/
structure Replaces (t t' : DynamicAABBTree K) (fs : List (Frame ℤ (LeafData K) (BranchData K)))
    (is : List ℤ) (τ' : BoxTree K) : Prop where
  links : t'.Links (above Null fs) τ'
  ctx : t'.LinksCtx τ'.name fs
  frame : ∀ j, j ∉ is → j ∉ ctxNames fs → t'.node j = t.node j
  root : t'.root = if fs = [] then τ'.name else t.root
  shell : SameShell t t'

theorem Replaces.refl {is : List ℤ} (h : t.Links (above Null fs) τ) (hctx : t.LinksCtx τ.name fs)
    (hroot : fs = [] → t.root = τ.name) : Replaces t t fs is τ where
  links := h
  ctx := hctx
  frame _ _ _ := rfl
  root := by split_ifs with hfs <;> simp [*]
  shell := .refl t

theorem Replaces.root_plug {t' : DynamicAABBTree K} {is : List ℤ} {τ' : BoxTree K}
    (h : Replaces t t' fs is τ') (hroot : t.root = (plug fs τ).name) :
    t'.root = (plug fs τ').name := by
  rw [h.root, hroot]
  split_ifs with hnil
  · simp [hnil, plug]
  · exact name_plug_of_ne_nil hnil

/-- In a context, a rotation replaces the focus: the one link to `a` now leads to `c`. -/
theorem Promotes.replaces {t' : DynamicAABBTree K} {a c m : ℤ} {is : List ℤ}
    (h : Promotes t t' (above Null fs) a c m τ) (hctx : t.LinksCtx a fs) (hname : τ.name = c)
    (ha : a ∈ is) (hc : c ∈ is) (hm : m ∈ is) (hn : (is ++ ctxNames fs).Nodup)
    (h0 : NonNeg (is ++ ctxNames fs)) : Replaces t t' fs is τ := by
  subst hname
  obtain ⟨-, hnfs, hdisj⟩ := List.nodup_append.1 hn
  have h0fs : NonNeg (ctxNames fs) := h0.of_append_right
  have hafs : a ∉ ctxNames fs := fun hi => hdisj a ha a hi rfl
  refine ⟨h.links, ?_, fun j hj hjfs => ?_, ?_, h.shell⟩
  · exact (linksCtx_replaceChild hctx (List.nodup_cons.2 ⟨hafs, hnfs⟩) h0fs).congr fun j hj =>
      h.rest j (hdisj a ha j hj).symm (hdisj _ hc j hj).symm (hdisj m hm j hj).symm
  · exact (h.rest j (ne_of_mem_of_not_mem ha hj).symm (ne_of_mem_of_not_mem hc hj).symm
      (ne_of_mem_of_not_mem hm hj).symm).trans (t.node_replaceChild_above hjfs)
  · rw [h.root, root_replaceChild_above t h0fs]

section Rotate

variable [LinearOrder K]

/-- `Balance`, promoting `C` or, on the left, `B`: the first assignments, up to `A->parent = iC`. -/
def swap (t : DynamicAABBTree K) (s : Side) (p iA iC : ℤ) : DynamicAABBTree K :=
  ((t.replaceChild p iA iC).modify iC fun x => { x.setChild s.other iA with parent := p }).modify iA
    fun x => { x with parent := iC }

/-- `Balance`: the rest of the rotation, for a grandchild that stays under `C` and one that moves
under `A`; `B` is the child of `A` that is not promoted. -/
def attach (t : DynamicAABBTree K) (s : Side) (iA iB iC kept moved : ℤ) : DynamicAABBTree K :=
  let t := t.modify iC fun x => x.setChild s kept
  let t := t.modify iA fun x => x.setChild s moved
  let t := t.modify moved fun x => { x with parent := iA }
  (t.refit iA iB moved).refit iC iA kept

theorem node_promote {s : Side} {p a b c k m : ℤ} (hd : [p, a, b, c, k, m].Nodup)
    (t : DynamicAABBTree K) :
    let t' := (t.swap s p a c).attach s a b c k m
    t'.node a = branchNode s c ((t.node a).child s.other) m
      ⟨AABB2.union (t.node b).aabb (t.node m).aabb,
        1 + max (t.node b).height (t.node m).height⟩ ∧
    t'.node c = branchNode s p a k
      ⟨AABB2.union (t'.node a).aabb (t.node k).aabb,
        1 + max (t'.node a).height (t.node k).height⟩ ∧
    t'.node m = { t.node m with parent := a } ∧
    ∀ j, j ≠ a → j ≠ c → j ≠ m → t'.node j = (t.replaceChild p a c).node j := by
  have hr : ∀ j, j ≠ p → (t.replaceChild p a c).node j = t.node j :=
    fun j hj => t.node_replaceChild_of_ne hj
  simp only [List.nodup_cons, List.mem_cons, List.not_mem_nil, or_false, not_or, not_false_eq_true,
    List.nodup_nil, and_true] at hd
  refine ⟨?_, ?_, ?_, fun j ha hc hm => ?_⟩
  · cases s <;>
    · simp only [attach, swap, refit, node_modify, Node.setChild, branchNode, layout, Node.child,
        Side.other]
      grind
  · cases s <;>
    · simp only [attach, swap, refit, node_modify, Node.setChild, branchNode, layout, Side.other]
      grind
  · simp only [attach, swap, refit, node_modify]
    grind
  · simp only [attach, swap, refit, node_modify, ha, hc, hm, ↓reduceIte]

theorem root_promote {s : Side} {p a b c k m : ℤ} (t : DynamicAABBTree K) :
    ((t.swap s p a c).attach s a b c k m).root = (t.replaceChild p a c).root := by
  simp only [attach, swap, refit, root_modify]

theorem sameShell_promote {s : Side} {p a b c k m : ℤ} (t : DynamicAABBTree K) :
    SameShell t ((t.swap s p a c).attach s a b c k m) :=
  t.sameShell_replaceChild.modify.modify.modify.modify.modify.modify.modify

/-- **A rotation** links the rotated tree. -/
theorem promotes_attach {s : Side} {p a c : ℤ} {X kept moved : BoxTree K}
    (hchild : (t.node a).child s.other = X.name) (hX : t.Links a X) (hk : t.Links c kept)
    (hm : t.Links c moved) (hn : (rotated a c X kept moved).Nodup)
    (hp : p ∉ rotated a c X kept moved) :
    Promotes t ((t.swap s p a c).attach s a X.name c kept.name moved.name) p a c moved.name
      (BoxTree.mkAt s c (BoxTree.mkAt s a X moved) kept) := by
  obtain ⟨ha', hc', hm', ho⟩ := t.node_promote (rotated_distinct hn hp)
  obtain ⟨hX', hmoved, hkept⟩ := rotate_links hX hk hm hn hp hm' ho
  rw [hX.aabb, hm.aabb, hX.height, hm.height, hchild] at ha'
  have hmid : Links _ c (BoxTree.mkAt s a X moved) := links_branch.2 ⟨ha', hX', hmoved⟩
  have hbox := hmid.aabb
  have hheight := hmid.height
  rw [name_mkAt] at hbox hheight
  rw [hbox, hheight, hk.aabb, hk.height] at hc'
  refine ⟨links_branch.2 ⟨?_, hmid, hkept⟩, hm', ho, t.root_promote, t.sameShell_promote⟩
  rwa [name_mkAt]

/-! ### `Balance` -/

theorem balance_eq_self {iA : ℤ} (h : (t.node iA).IsLeaf ∨ (t.node iA).height = 1) :
    t.balance iA = (t, iA) := by
  simp only [balance, if_pos h]

theorem balance_eq_promote {s : Side} {iA : ℤ} (h : ¬((t.node iA).IsLeaf ∨ (t.node iA).height = 1))
    (hhigher : (t.node ((t.node iA).child s)).height -
      (t.node ((t.node iA).child s.other)).height > 1) :
    t.balance iA =
      let A := t.node iA
      let C := t.node (A.child s)
      let t' := t.swap s A.parent iA (A.child s)
      if (t'.node C.left).height > (t'.node C.right).height then
        (t'.attach s iA (A.child s.other) (A.child s) C.left C.right, A.child s)
      else (t'.attach s iA (A.child s.other) (A.child s) C.right C.left, A.child s) := by
  cases s with
  | left =>
    have hB : (t.node (t.node iA).right).height - (t.node (t.node iA).left).height < -1 := by
      change (t.node (t.node iA).left).height - (t.node (t.node iA).right).height > 1 at hhigher
      omega
    have hC : ¬(t.node (t.node iA).right).height - (t.node (t.node iA).left).height > 1 := by omega
    simp only [balance, if_neg h, if_neg hC, if_pos hB, swap, attach]
    rfl
  | right =>
    have hC : (t.node (t.node iA).right).height - (t.node (t.node iA).left).height > 1 := hhigher
    simp only [balance, if_neg h, if_pos hC, swap, attach]
    rfl

theorem balance_eq_self' {iA : ℤ}
    (h₁ : ¬(t.node (t.node iA).right).height - (t.node (t.node iA).left).height > 1)
    (h₂ : ¬(t.node (t.node iA).right).height - (t.node (t.node iA).left).height < -1) :
    t.balance iA = (t, iA) := by
  simp only [balance, if_neg h₁, if_neg h₂, ite_self]

omit [LinearOrder K] in
theorem node_swap_of_ne {s : Side} {p a c j : ℤ} (hp : j ≠ p) (ha : j ≠ a) (hc : j ≠ c) :
    (t.swap s p a c).node j = t.node j := by
  simp only [swap, node_modify, ha, hc, ↓reduceIte, t.node_replaceChild_of_ne hp]

/-- `Balance` where the child on the side `s` is too high. -/
theorem balance_promote {s : Side} {p a c : ℤ} {d e : BranchData K} {X F G : BoxTree K}
    (h : t.Links p (branch s a d X (.node c e F G))) (hn : (rotated a c X F G).Nodup)
    (h0 : NonNeg (rotated a c X F G)) (hp : p ∉ rotated a c X F G) (hd : d.height ≠ 1)
    (hhigher : e.height - BoxTree.height X > 1) :
    ∃ m, Promotion (branch s a d X (.node c e F G)) (.node c e F G) m
        (BoxTree.balance (branch s a d X (.node c e F G))) ∧
      (t.balance a).2 = c ∧ Promotes t (t.balance a).1 p a c m.name
        (BoxTree.balance (branch s a d X (.node c e F G))) := by
  obtain ⟨ha, hX, hlC⟩ := links_branch.1 h
  obtain ⟨-, (hF : t.Links c F), (hG : t.Links c G)⟩ := id hlC
  have hnot : ¬((t.node a).IsLeaf ∨ (t.node a).height = 1) := by
    rw [ha, height_branchNode, or_iff_left hd, Node.IsLeaf]
    rcases right_branchNode with hright | hright
    · rw [hright]
      exact h0.ne_null (by simp [rotated])
    · rw [hright]
      exact h0.ne_null (by simp [rotated, name])
  have hchild : (t.node a).child s = c := by rw [ha, child_branchNode]; rfl
  have hother : (t.node a).child s.other = X.name := by rw [ha, child_other_branchNode]
  have hparent : (t.node a).parent = p := by rw [ha, parent_branchNode]
  have hc : (t.node c).height = e.height := hlC.height
  have hF' := hlC.left_eq
  have hG' := hlC.right_eq
  have hdist := rotated_distinct hn hp
  simp only [List.nodup_cons, List.mem_cons, List.not_mem_nil, or_false, not_or, not_false_eq_true,
    List.nodup_nil, and_true] at hdist
  rw [t.balance_eq_promote (s := s) hnot (by rw [hchild, hother, hc, hX.height]; exact hhigher)]
  simp only [hchild, hother, hparent, hF', hG']
  rw [node_swap_of_ne (by tauto) (by tauto) (by tauto),
    node_swap_of_ne (by tauto) (by tauto) (by tauto), hF.height, hG.height]
  rw [BoxTree.balance_eq_promote hd hhigher]
  -- the higher grandchild stays where it is
  split_ifs with hFG
  · exact ⟨G, .promote hhigher (.inl ⟨rfl, rfl⟩) hFG.le, rfl, promotes_attach hother hX hF hG hn hp⟩
  · have hperm : (rotated a c X F G).Perm (rotated a c X G F) :=
      ((List.perm_append_comm.append_left _).cons _).cons _
    exact ⟨F, .promote hhigher (.inr ⟨rfl, rfl⟩) (not_lt.1 hFG), rfl,
      promotes_attach hother hX hG hF (hperm.nodup_iff.1 hn) (mt hperm.mem_iff.2 hp)⟩

/-- **`Balance` at a branch** changes nothing, or it is one of the four rotations; nothing is
asked of the nodes above. -/
theorem balance_promotes {p a : ℤ} {d : BranchData K} {B C : BoxTree K}
    (h : t.Links p (.node a d B C)) (hB : Exact B) (hC : Exact C)
    (hn : (BinTree.node a d B C).names.Nodup) (h0 : NonNeg (BinTree.node a d B C).names)
    (hp : p ∉ (BinTree.node a d B C).names) :
    (t.balance a = (t, a) ∧ BoxTree.balance (.node a d B C) = .node a d B C) ∨
      ∃ σ m, Promotion (.node a d B C) σ m (BoxTree.balance (.node a d B C)) ∧
        (t.balance a).2 = σ.name ∧
        Promotes t (t.balance a).1 p a σ.name m.name (BoxTree.balance (.node a d B C)) := by
  obtain ⟨-, (hlB : t.Links a B), (hlC : t.Links a C)⟩ := id h
  have hright := h.right_eq
  have hleft := h.left_eq
  have hheight : (t.node a).height = d.height := h.height
  by_cases hd : d.height = 1
  · exact .inl ⟨balance_eq_self (.inr (hheight.trans hd)), BoxTree.balance_eq_self (.inl hd)⟩
  have hB0 := hB.height_nonneg
  have hC0 := hC.height_nonneg
  -- a child that is too high is a branch, as a leaf has height 0
  have rotate : ∀ s X c e F G, .node a d B C = branch s a d X (.node c e F G) →
      e.height - BoxTree.height X > 1 → ∃ σ m,
        Promotion (.node a d B C) σ m (BoxTree.balance (.node a d B C)) ∧
        (t.balance a).2 = σ.name ∧
        Promotes t (t.balance a).1 p a σ.name m.name (BoxTree.balance (.node a d B C)) := by
    intro s X c e F G heq hhigher
    rw [heq] at h hn h0 hp ⊢
    have hperm : (branch s a d X (.node c e F G)).names.Perm (rotated a c X F G) :=
      names_branch_perm.trans (List.perm_middle.cons _)
    obtain ⟨m, hm⟩ := balance_promote h (hperm.nodup_iff.1 hn) (h0.perm hperm)
      (mt hperm.mem_iff.2 hp) hd hhigher
    exact ⟨_, m, hm⟩
  by_cases h₁ : BoxTree.height C - BoxTree.height B > 1
  · cases C with
    | leaf => rw [BoxTree.height] at h₁; omega
    | node c e F G => exact .inr (rotate .right B c e F G rfl h₁)
  by_cases h₂ : BoxTree.height C - BoxTree.height B < -1
  · cases B with
    | leaf => rw [BoxTree.height] at h₂; omega
    | node b e D E =>
      change BoxTree.height C - e.height < -1 at h₂
      exact .inr (rotate .left C b e D E rfl (by omega))
  · refine .inl ⟨balance_eq_self' ?_ ?_, BoxTree.balance_eq_self (.inr ⟨h₁, h₂⟩)⟩
    · rwa [hright, hleft, hlC.height, hlB.height]
    · rwa [hright, hleft, hlC.height, hlB.height]

/-- **`Balance` refines `BoxTree.balance`.** -/
theorem balance_refines {a : ℤ} {d : BranchData K} {B C : BoxTree K}
    (h : t.Links (above Null fs) (.node a d B C)) (hctx : t.LinksCtx a fs)
    (hroot : fs = [] → t.root = a) (hB : Exact B) (hC : Exact C)
    (hn : ((BinTree.node a d B C).names ++ ctxNames fs).Nodup)
    (h0 : NonNeg ((BinTree.node a d B C).names ++ ctxNames fs)) :
    (t.balance a).2 = (BoxTree.balance (.node a d B C)).name ∧
      Replaces t (t.balance a).1 fs (BinTree.node a d B C).names
        (BoxTree.balance (.node a d B C)) := by
  have h0' : NonNeg (BinTree.node a d B C).names := h0.of_append_left
  rcases balance_promotes h hB hC (List.nodup_append.1 hn).1 h0' (above_not_mem hn h0') with
    ⟨h₁, h₂⟩ | ⟨σ, m, hpro, hname, hprom⟩
  · rw [h₁, h₂]
    exact ⟨rfl, .refl h hctx hroot⟩
  · obtain ⟨hσ, hm⟩ := hpro.isChild
    exact ⟨hname.trans hpro.name_eq.symm, hprom.replaces hctx hpro.name_eq (by simp [names])
      (hσ.names_subset σ.name_mem_names) (hσ.names_subset (hm.names_subset m.name_mem_names))
      hn h0⟩

/-! ### `SyncHeirarchy` -/

/-- `SyncHeirarchy(index)`, recording for every turn the node it comes to and the node that
stands there after `Balance`. -/
def syncVisits : ℕ → DynamicAABBTree K → ℤ → Option (DynamicAABBTree K × List (ℤ × ℤ))
  | 0, t, index => if index = Null then some (t, []) else none
  | fuel + 1, t, index =>
    if index = Null then some (t, [])
    else
      let (t, stand) := t.balance index
      let t := t.refit stand (t.node stand).left (t.node stand).right
      (syncVisits fuel t (t.node stand).parent).map fun (t, visits) =>
        (t, (index, stand) :: visits)

theorem syncHeirarchy_eq_map (fuel : ℕ) (t : DynamicAABBTree K) (index : ℤ) :
    syncHeirarchy fuel t index = (syncVisits fuel t index).map Prod.fst := by
  induction fuel generalizing t index with
  | zero =>
    simp only [syncHeirarchy, syncVisits]
    split_ifs <;> rfl
  | succ fuel ih =>
    simp only [syncHeirarchy, syncVisits]
    split_ifs
    · rfl
    · rw [ih, Option.map_map]
      rfl

/-- **One turn of `SyncHeirarchy`** settles the branch and goes on to its parent. -/
theorem settle_refines {a : ℤ} {d : BranchData K} {B C : BoxTree K}
    (h : t.Links (above Null fs) (.node a d B C)) (hctx : t.LinksCtx a fs)
    (hroot : fs = [] → t.root = a) (hB : Exact B) (hC : Exact C)
    (hn : ((BinTree.node a d B C).names ++ ctxNames fs).Nodup)
    (h0 : NonNeg ((BinTree.node a d B C).names ++ ctxNames fs)) :
    ∃ t', Replaces t t' fs (BinTree.node a d B C).names (settle (.node a d B C)) ∧
      ∀ fuel, syncVisits (fuel + 1) t a = (syncVisits fuel t' (above Null fs)).map
        fun (t'', visits) => (t'', (a, (settle (.node a d B C)).name) :: visits) := by
  obtain ⟨hname, hrep⟩ := balance_refines h hctx hroot hB hC hn h0
  have hperm := names_balance_perm (.node a d B C)
  have ha : a ≠ Null := h0.ne_null (by simp [names])
  obtain ⟨i, e, l, r, hi⟩ := exists_balance_eq_node a d B C
  rw [settle, hi]
  rw [hi] at hname hrep hperm
  have hn' := ((hperm.append_right _).nodup_iff.2 hn)
  have hmem : i ∈ (BinTree.node i e l r).names := by simp [names]
  set t₁ := (t.balance a).1 with ht₁
  have hlinks : (t₁.refit i l.name r.name).Links (above Null fs) (BoxTree.mk i l r) :=
    links_refit hrep.links (List.nodup_append.1 hn').1
  have hparent : ((t₁.refit i l.name r.name).node i).parent = above Null fs := hlinks.parent
  refine ⟨t₁.refit i l.name r.name, ⟨hlinks, ?_, fun j hj hjfs => ?_, hrep.root,
    hrep.shell.modify⟩, fun fuel => ?_⟩
  · -- the branch that is refit is not above itself
    refine hrep.ctx.congr fun j hj => t₁.node_modify_of_ne _ ?_
    rintro rfl
    exact (List.nodup_append.1 hn').2.2 _ hmem _ hj rfl
  · have hji : j ≠ i := fun h => hj (h ▸ hperm.mem_iff.1 hmem)
    exact (t₁.node_modify_of_ne _ hji).trans (hrep.frame j hj hjfs)
  · have hstand : (t.balance a).2 = i := hname
    simp only [syncVisits, if_neg ha, hstand, ← ht₁, hrep.links.left_eq, hrep.links.right_eq,
      hparent]
    rfl

/-- A frame over an exact focus: a branch whose children are exact. -/
theorem exists_frame_plug {f : Frame ℤ (LeafData K) (BranchData K)} (hf : Exact f.sibling)
    (hτ : Exact τ) :
    ∃ d B C, f.plug τ = .node f.name d B C ∧ Exact B ∧ Exact C := by
  cases f with
  | left i b r => exact ⟨b, τ, r, rfl, hτ, hf⟩
  | right i b l => exact ⟨b, l, τ, rfl, hf, hτ⟩

/-- **`SyncHeirarchy` refines `BoxTree.climb`**: started at a branch with exact children, it comes
to that branch and to those of the context, each once and from below, and stops at the root. -/
theorem syncVisits_refines {a : ℤ} {d : BranchData K} {B C : BoxTree K}
    (h : t.Links (above Null fs) (.node a d B C)) (hctx : t.LinksCtx a fs)
    (hroot : t.root = (plug fs (.node a d B C)).name) (hB : Exact B) (hC : Exact C)
    (hfs : ExactCtx fs) (hn : ((BinTree.node a d B C).names ++ ctxNames fs).Nodup)
    (h0 : NonNeg ((BinTree.node a d B C).names ++ ctxNames fs)) :
    ∃ t' visits, (∀ fuel, fs.length < fuel → syncVisits fuel t a = some (t', visits)) ∧
      visits.map Prod.fst = a :: fs.map Frame.name ∧
      (visits.map Prod.snd).getLast? = some t'.root ∧
      t'.Links Null (climb fs (settle (.node a d B C))) ∧
      t'.root = (climb fs (settle (.node a d B C))).name ∧
      (∀ j ∉ (BinTree.node a d B C).names ++ ctxNames fs, t'.node j = t.node j) ∧
      SameShell t t' := by
  -- the loop goes up the context, a frame a turn; each turn leaves an exact focus
  induction fs generalizing t a d B C with
  | nil =>
    obtain ⟨t', hrep, hstep⟩ := settle_refines h hctx (fun _ => hroot) hB hC hn h0
    refine ⟨t', [(a, (settle (.node a d B C)).name)], fun fuel hfuel => ?_, rfl, ?_, hrep.links,
      hrep.root, fun j hj => hrep.frame j (by simpa [ctxNames] using hj) List.not_mem_nil,
      hrep.shell⟩
    · obtain ⟨fuel, rfl⟩ := Nat.exists_eq_succ_of_ne_zero hfuel.ne'
      rw [Nat.succ_eq_add_one, hstep]
      cases fuel <;> simp [syncVisits, above]
    · exact congrArg some hrep.root.symm
  | cons f fs ih =>
    obtain ⟨t₁, hrep, hstep⟩ := settle_refines h hctx (fun hnil => absurd hnil
      (List.cons_ne_nil f fs)) hB hC hn h0
    have hex := exact_settle (a := a) (d := d) hB hC
    have hperm₁ := (names_settle_perm (.node a d B C)).append_right (ctxNames (f :: fs))
    have hperm := (names_plug_ctx_perm f fs (settle (.node a d B C))).trans hperm₁
    have hroot₁ : t₁.root = (plug fs (f.plug (settle (.node a d B C)))).name :=
      hrep.root_plug hroot
    obtain ⟨hlinks, hctx'⟩ := linked_frame_plug.2 ⟨hrep.links, hrep.ctx⟩
    obtain ⟨d', B', C', hf, hB', hC'⟩ := exists_frame_plug (hfs f (by simp)) hex
    rw [hf] at hlinks hperm hroot₁
    obtain ⟨t', visits, hsync, hvisits, hlast, hlinks', hrt, hframe, hshell⟩ := ih hlinks hctx'
      hroot₁ hB' hC' (fun g hg => hfs g (by simp [hg])) (hperm.nodup_iff.2 hn) (h0.perm hperm.symm)
    refine ⟨t', (a, (settle (.node a d B C)).name) :: visits, fun fuel hfuel => ?_, ?_, ?_, ?_, ?_,
      fun j hj => ?_, hrep.shell.trans hshell⟩
    · obtain ⟨fuel, rfl⟩ := Nat.exists_eq_succ_of_ne_zero (Nat.ne_zero_of_lt hfuel)
      rw [Nat.succ_eq_add_one, hstep, above, hsync fuel (Nat.lt_of_succ_lt_succ hfuel)]
      rfl
    · simp [hvisits]
    · simp [List.getLast?_cons, hlast]
    · rwa [climb, hf]
    · rwa [climb, hf]
    · refine (hframe j (mt hperm.mem_iff.1 hj)).trans ?_
      rw [List.mem_append, not_or] at hj
      exact hrep.frame j hj.1 hj.2

/-- Started at the parent of an exact focus, `SyncHeirarchy` stops at the root after at most as
many turns as the context has frames. -/
theorem syncHeirarchy_refines {fuel : ℕ} (hfuel : fs.length ≤ fuel)
    (h : t.Links (above Null fs) τ) (hctx : t.LinksCtx τ.name fs)
    (hroot : t.root = (plug fs τ).name) (hτ : Exact τ) (hfs : ExactCtx fs)
    (hn : (τ.names ++ ctxNames fs).Nodup) (h0 : NonNeg (τ.names ++ ctxNames fs)) :
    ∃ t', syncHeirarchy fuel t (above Null fs) = some t' ∧ t'.Links Null (climb fs τ) ∧
      t'.root = (climb fs τ).name ∧
      (∀ j ∉ τ.names ++ ctxNames fs, t'.node j = t.node j) ∧ SameShell t t' := by
  cases fs with
  | nil =>
    refine ⟨t, ?_, h, hroot, fun _ _ => rfl, .refl t⟩
    cases fuel <;> simp [syncHeirarchy, above]
  | cons f fs =>
    have hperm := names_plug_ctx_perm f fs τ
    obtain ⟨hlinks, hctx'⟩ := linked_frame_plug.2 ⟨h, hctx⟩
    obtain ⟨d, B, C, hf, hB, hC⟩ := exists_frame_plug (hfs f (by simp)) hτ
    rw [plug, hf] at hroot
    rw [hf] at hlinks hperm
    obtain ⟨t', visits, hsync, -, -, hlinks', hrt, hframe, hshell⟩ := syncVisits_refines hlinks
      hctx' hroot hB hC (fun g hg => hfs g (by simp [hg])) (hperm.nodup_iff.2 hn)
      (h0.perm hperm.symm)
    refine ⟨t', ?_, ?_, ?_, fun j hj => hframe j (mt hperm.mem_iff.1 hj), hshell⟩
    · rw [syncHeirarchy_eq_map, above, hsync fuel hfuel]
      rfl
    · rwa [climb, hf]
    · rwa [climb, hf]

end Rotate

end DynamicAABBTree

end ClientServer
