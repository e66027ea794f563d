import ClientServer.AABBTree.Basic
import ClientServer.Data.BinTree

/-!
# The tree a `DynamicAABBTree` represents

The abstract counterpart of the node links: a `BoxTree` is a binary tree whose leaves carry a
fat box and user data and whose branches carry a bounding box and a height, all of them data of
the node with that name.  On it the link surgery of the source becomes ordinary recursion:

* `BoxTree.balance` rotates, `BoxTree.settle` is one turn of `SyncHeirarchy`;
* `BoxTree.climb` is the whole of `SyncHeirarchy`, from a focus up to the root;
* `BoxTree.Exact` says that the stored boxes and heights are the true ones.

None of them changes which leaves there are (`leaves_climb_perm`) or which nodes are used
(`names_climb_perm`).
-/

namespace ClientServer

/-- What a leaf stores. -/
structure LeafData (K : Type*) where
  aabb : AABB2 K
  userData : ℤ

/-- What a branch stores. -/
structure BranchData (K : Type*) where
  aabb : AABB2 K
  height : ℤ

/-- The tree a `DynamicAABBTree` represents. -/
abbrev BoxTree (K : Type*) := BinTree ℤ (LeafData K) (BranchData K)

namespace BoxTree

open BinTree

variable {K : Type*}

/-- The stored box of the root. -/
def box : BoxTree K → AABB2 K
  | .leaf _ a => a.aabb
  | .node _ b _ _ => b.aabb

/-- The stored height of the root. -/
def height : BoxTree K → ℤ
  | .leaf _ _ => 0
  | .node _ b _ _ => b.height

variable [LinearOrder K]

/-- A branch whose box and height fit its children. -/
def mk (i : ℤ) (l r : BoxTree K) : BoxTree K :=
  .node i ⟨AABB2.union (box l) (box r), 1 + max (height l) (height r)⟩ l r

/-- The same, with `y` on the side `s`. -/
def mkAt (s : Side) (i : ℤ) (x y : BoxTree K) : BoxTree K :=
  branch s i ⟨AABB2.union (box x) (box y), 1 + max (height x) (height y)⟩ x y

/-- Every stored box and height fits the children. -/
def Exact : BoxTree K → Prop
  | .leaf _ _ => True
  | .node _ b l r =>
    b = ⟨AABB2.union (box l) (box r), 1 + max (height l) (height r)⟩ ∧ Exact l ∧ Exact r

/-- Every stored box and height below the root fits. -/
def ExactBelow : BoxTree K → Prop
  | .leaf _ _ => True
  | .node _ _ l r => Exact l ∧ Exact r

/-- `Balance`: promote the child that is higher by two or more. -/
def balance : BoxTree K → BoxTree K
  | .leaf i a => .leaf i a
  | .node a d B C =>
    if d.height = 1 then .node a d B C
    else if height C - height B > 1 then
      match C with
      | .leaf _ _ => .node a d B C
      | .node c _ F G =>
        if height F > height G then mk c (mk a B G) F else mk c (mk a B F) G
    else if height C - height B < -1 then
      match B with
      | .leaf _ _ => .node a d B C
      | .node b _ D E =>
        if height D > height E then mk b D (mk a E C) else mk b E (mk a D C)
    else .node a d B C

/-- Recompute the box and the height of the root. -/
def refit : BoxTree K → BoxTree K
  | .leaf i a => .leaf i a
  | .node i _ l r => mk i l r

/-- One turn of `SyncHeirarchy`. -/
def settle (t : BoxTree K) : BoxTree K := refit (balance t)

/-- `SyncHeirarchy`: settle every branch of the context, from the focus up. -/
def climb : List (Frame ℤ (LeafData K) (BranchData K)) → BoxTree K → BoxTree K
  | [], t => t
  | f :: fs, t => climb fs (settle (f.plug t))

/-! ### Branches with the promoted child on a side -/

section Sides

variable {s : Side} {i : ℤ} {b : BranchData K} {x y : BoxTree K}

omit [LinearOrder K] in
@[simp] theorem height_branch : height (branch s i b x y) = b.height := by cases s <;> rfl

theorem name_mkAt : (mkAt s i x y).name = i := name_branch

theorem mkAt_left : mkAt .left i x y = mk i y x := by
  rw [mkAt, AABB2.union_comm, max_comm]
  rfl

theorem mkAt_right : mkAt .right i x y = mk i x y := rfl

theorem refit_branch : refit (branch s i b x y) = mkAt s i x y := by
  cases s with
  | left => exact mkAt_left.symm
  | right => rfl

theorem refit_mkAt : refit (mkAt s i x y) = mkAt s i x y := refit_branch

theorem height_mkAt : height (mkAt s i x y) = 1 + max (height x) (height y) := height_branch

theorem exact_branch : Exact (branch s i b x y) ↔
    b = ⟨AABB2.union (box x) (box y), 1 + max (height x) (height y)⟩ ∧ Exact x ∧ Exact y := by
  cases s with
  | left => rw [AABB2.union_comm, max_comm, and_comm (a := Exact x)]; rfl
  | right => rfl

theorem exactBelow_branch : ExactBelow (branch s i b x y) ↔ Exact x ∧ Exact y := by
  cases s with
  | left => exact and_comm
  | right => exact .rfl

theorem exact_mkAt : Exact (mkAt s i x y) ↔ Exact x ∧ Exact y :=
  exact_branch.trans (and_iff_right rfl)

end Sides

/-! ### Rotations keep the nodes and the leaves -/

section BalanceEq

variable {a c : ℤ} {d e : BranchData K} {B C F G X : BoxTree K}

theorem balance_eq_promote {s : Side} (hd : d.height ≠ 1) (h : e.height - height X > 1) :
    balance (branch s a d X (.node c e F G)) =
      if height F > height G then mkAt s c (mkAt s a X G) F else mkAt s c (mkAt s a X F) G := by
  cases s with
  | left =>
    have h₁ : height X - height (.node c e F G) < -1 := by
      change height X - e.height < -1
      omega
    have h₂ : ¬height X - height (.node c e F G) > 1 := by omega
    simp only [branch, balance, if_neg hd, if_neg h₂, if_pos h₁, mkAt_left]
  | right =>
    have h₁ : height (.node c e F G) - height X > 1 := h
    simp only [branch, balance, if_neg hd, if_pos h₁, mkAt_right]

theorem balance_eq_self (h : d.height = 1 ∨
    ¬height C - height B > 1 ∧ ¬height C - height B < -1) :
    balance (.node a d B C) = .node a d B C := by
  rcases h with h | ⟨h, h'⟩
  · simp only [balance, if_pos h]
  · simp only [balance, if_neg h, if_neg h', ite_self]

end BalanceEq

/-- What holds of a tree and of its rotations holds of the result of `balance`. -/
theorem balance_cases {P : BoxTree K → Prop} {t : BoxTree K} (same : P t)
    (promote : ∀ s a d X c e F G, t = branch s a d X (.node c e F G) → e.height - height X > 1 →
      P (mkAt s c (mkAt s a X G) F) ∧ P (mkAt s c (mkAt s a X F) G)) : P (balance t) := by
  -- a rotation, once the higher child is seen to be a branch
  have rotate : ∀ s a d X c e F G, t = branch s a d X (.node c e F G) →
      d.height ≠ 1 → e.height - height X > 1 → P (balance t) := by
    intro s a d X c e F G heq hd h
    obtain ⟨hF, hG⟩ := promote s a d X c e F G heq h
    rw [heq, balance_eq_promote hd h]
    split_ifs
    exacts [hF, hG]
  cases t with
  | leaf => exact same
  | node a d B C =>
    by_cases hd : d.height = 1
    · rwa [balance_eq_self (.inl hd)]
    by_cases h₁ : height C - height B > 1
    · cases C with
      | leaf => simpa only [balance, if_neg hd, if_pos h₁] using same
      | node c e F G => exact rotate .right a d B c e F G rfl hd h₁
    by_cases h₂ : height C - height B < -1
    · cases B with
      | leaf => simpa only [balance, if_neg hd, if_neg h₁, if_pos h₂] using same
      | node b e D E =>
        change height C - e.height < -1 at h₂
        exact rotate .left a d C b e D E rfl hd (by omega)
    · rwa [balance_eq_self (.inr ⟨h₁, h₂⟩)]

theorem exists_balance_eq_node (a : ℤ) (d : BranchData K) (B C : BoxTree K) :
    ∃ i e l r, balance (.node a d B C) = .node i e l r := by
  refine balance_cases (P := fun t => ∃ i e l r, t = .node i e l r) ⟨a, d, B, C, rfl⟩ ?_
  rintro (_ | _) a d X c e F G - -
  · exact ⟨⟨c, _, _, _, rfl⟩, ⟨c, _, _, _, rfl⟩⟩
  · exact ⟨⟨c, _, _, _, rfl⟩, ⟨c, _, _, _, rfl⟩⟩

/-- The four rotations.  The child `σ` of the root is promoted; of its two children the higher
one stays, and `m` moves under the old root. -/
inductive Promotion : BoxTree K → BoxTree K → BoxTree K → BoxTree K → Prop
  | promote {s : Side} {a c : ℤ} {d e : BranchData K} {X F G kept m : BoxTree K}
      (h : e.height - height X > 1) (hkm : kept = F ∧ m = G ∨ kept = G ∧ m = F)
      (hle : height m ≤ height kept) :
      Promotion (branch s a d X (.node c e F G)) (.node c e F G) m (mkAt s c (mkAt s a X m) kept)

section Promotion

variable {τ σ m τ' : BoxTree K}

theorem Promotion.isChild (h : Promotion τ σ m τ') : IsChild σ τ ∧ IsChild m σ := by
  obtain ⟨-, hkm, -⟩ := h
  exact ⟨isChild_branch.2 (.inr rfl), hkm.elim (fun h => .inr h.2) fun h => .inl h.2⟩

theorem Promotion.name_eq (h : Promotion τ σ m τ') : τ'.name = σ.name := by
  cases h
  exact name_branch

end Promotion

theorem names_mkAt_perm {s : Side} {i : ℤ} {x y : BoxTree K} :
    (mkAt s i x y).names.Perm (i :: (x.names ++ y.names)) := names_branch_perm

theorem leaves_mkAt_perm {s : Side} {i : ℤ} {x y : BoxTree K} :
    (mkAt s i x y).leaves.Perm (x.leaves ++ y.leaves) := leaves_branch_perm

theorem names_balance_perm (t : BoxTree K) : (balance t).names.Perm t.names := by
  refine balance_cases (P := fun u => u.names.Perm t.names) (.refl _) ?_
  rintro s a d X c e F G rfl -
  constructor <;>
  · rw [List.perm_iff_count]
    intro j
    simp only [names_mkAt_perm.count_eq, names_branch_perm.count_eq, names, List.count_cons,
      List.count_append]
    omega

theorem leaves_balance_perm (t : BoxTree K) : (balance t).leaves.Perm t.leaves := by
  classical
  refine balance_cases (P := fun u => u.leaves.Perm t.leaves) (.refl _) ?_
  rintro s a d X c e F G rfl -
  constructor <;>
  · rw [List.perm_iff_count]
    intro j
    simp only [leaves_mkAt_perm.count_eq, leaves_branch_perm.count_eq, leaves, List.count_append]
    omega

@[simp] theorem names_refit (t : BoxTree K) : (refit t).names = t.names := by cases t <;> rfl

@[simp] theorem leaves_refit (t : BoxTree K) : (refit t).leaves = t.leaves := by cases t <;> rfl

theorem names_settle_perm (t : BoxTree K) : (settle t).names.Perm t.names := by
  rw [settle, names_refit]
  exact names_balance_perm t

theorem leaves_settle_perm (t : BoxTree K) : (settle t).leaves.Perm t.leaves := by
  rw [settle, leaves_refit]
  exact leaves_balance_perm t

theorem names_climb_perm (fs : List (Frame ℤ (LeafData K) (BranchData K))) (t : BoxTree K) :
    (climb fs t).names.Perm (t.names ++ ctxNames fs) := by
  induction fs generalizing t with
  | nil => simp [climb, ctxNames]
  | cons f fs ih =>
    exact (ih _).trans (((names_settle_perm _).append_right _).trans (names_plug_ctx_perm f fs t))

theorem leaves_climb_perm (fs : List (Frame ℤ (LeafData K) (BranchData K))) (t : BoxTree K) :
    (climb fs t).leaves.Perm (t.leaves ++ ctxLeaves fs) := by
  induction fs generalizing t with
  | nil => simp [climb, ctxLeaves]
  | cons f fs ih =>
    refine (ih _).trans ((((leaves_settle_perm _).trans
      (leaves_frame_plug_perm f t)).append_right _).trans ?_)
    simp [ctxLeaves]

/-! ### Exactness -/

theorem exact_mk {i : ℤ} {l r : BoxTree K} : Exact (mk i l r) ↔ Exact l ∧ Exact r := by
  simp [mk, Exact]

theorem Exact.height_nonneg {t : BoxTree K} (h : Exact t) : 0 ≤ height t := by
  induction t with
  | leaf => exact le_rfl
  | node i b l r ihl ihr =>
    obtain ⟨rfl, hl, hr⟩ := h
    have := ihl hl
    change 0 ≤ 1 + max (height l) (height r)
    omega

/-- The children of a balanced branch are exact when those of the branch were: this is all the
next turn of `SyncHeirarchy` needs, since it refits the root. -/
theorem exact_settle {a : ℤ} {d : BranchData K} {B C : BoxTree K} (hB : Exact B) (hC : Exact C) :
    Exact (settle (.node a d B C)) := by
  rw [settle]
  refine balance_cases (P := fun t => Exact (refit t)) (exact_mk.2 ⟨hB, hC⟩) ?_
  intro s a' d' X c e F G heq _
  have hbelow : ExactBelow (.node a d B C) := ⟨hB, hC⟩
  rw [heq] at hbelow
  obtain ⟨hX, -, hF, hG⟩ := exactBelow_branch.1 hbelow
  rw [refit_mkAt, refit_mkAt]
  exact ⟨exact_mkAt.2 ⟨exact_mkAt.2 ⟨hX, hG⟩, hF⟩, exact_mkAt.2 ⟨exact_mkAt.2 ⟨hX, hF⟩, hG⟩⟩

/-- Every sibling in a context is exact. -/
def ExactCtx (fs : List (Frame ℤ (LeafData K) (BranchData K))) : Prop :=
  ∀ f ∈ fs, Exact f.sibling

theorem exact_settle_plug {f : Frame ℤ (LeafData K) (BranchData K)} {t : BoxTree K}
    (hf : Exact f.sibling) (ht : Exact t) : Exact (settle (f.plug t)) := by
  cases f with
  | left i b r => exact exact_settle ht hf
  | right i b l => exact exact_settle hf ht

theorem exact_climb {fs : List (Frame ℤ (LeafData K) (BranchData K))} {t : BoxTree K}
    (ht : Exact t) (hfs : ExactCtx fs) : Exact (climb fs t) := by
  induction fs generalizing t with
  | nil => exact ht
  | cons f fs ih =>
    exact ih (exact_settle_plug (hfs f (by simp)) ht) fun g hg => hfs g (by simp [hg])

theorem exact_plug {fs : List (Frame ℤ (LeafData K) (BranchData K))} {t : BoxTree K}
    (h : Exact (plug fs t)) : Exact t ∧ ExactCtx fs := by
  induction fs generalizing t with
  | nil => exact ⟨h, by simp [ExactCtx]⟩
  | cons f fs ih =>
    obtain ⟨hf, hfs⟩ := ih h
    simp only [ExactCtx, List.mem_cons, forall_eq_or_imp]
    cases f with
    | left i b r => exact ⟨hf.2.1, hf.2.2, hfs⟩
    | right i b l => exact ⟨hf.2.2, hf.2.1, hfs⟩

end BoxTree

end ClientServer
