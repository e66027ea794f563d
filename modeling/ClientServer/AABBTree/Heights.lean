import ClientServer.AABBTree.Bounds
import Mathlib.Data.Finset.Card
import Mathlib.Tactic.Linarith
import Mathlib.Tactic.Ring

/-!
# Even heights

`Balance` looks at one node: where its children differ by two or more in height, one rotation
promotes the higher child, and the lower one of its children moves under the node.  One level up a
rotation finds a difference of two at most.  But `InsertLeaf` may stop at a branch of any height,
and hang it beside a leaf.

* `BoxTree.Even` : the heights of the two children of every branch differ by at most one.
* `BoxTree.even_climb` : `SyncHeirarchy` keeps it, where one subtree got higher or lower by one.
* `BoxTree.even_graft_iff` : a new leaf keeps it iff it comes beside a `Low` subtree.
* `TrackedTree.balanced_run_iff` : **exactly when the tree stays balanced**, over every run from a
  fresh tree.
-/

namespace ClientServer

open BinTree

namespace BoxTree

variable {K : Type*}

/-- The heights of the children of every branch differ by at most one. -/
def Even : BoxTree K → Prop
  | .leaf _ _ => True
  | .node _ _ l r => height l ≤ height r + 1 ∧ height r ≤ height l + 1 ∧ Even l ∧ Even r

/-- A child of the root is not even. -/
def Tilted : BoxTree K → Prop
  | .leaf _ _ => False
  | .node _ _ l r => ¬Even l ∨ ¬Even r

/-- A leaf may be hung beside it. -/
def Low : BoxTree K → Prop
  | .leaf _ _ => True
  | .node _ _ l r => height l ≤ 1 ∨ height r ≤ 1

/-- The heights differ by at most one. -/
def Near (t σ : BoxTree K) : Prop := height t ≤ height σ + 1 ∧ height σ ≤ height t + 1

variable {a : ℤ} {d : BranchData K} {t σ l r B C : BoxTree K}
  {f : Frame ℤ (LeafData K) (BranchData K)} {fs : List (Frame ℤ (LeafData K) (BranchData K))}

theorem Tilted.not_even (h : Tilted t) : ¬Even t := by
  cases t with
  | leaf => exact absurd h not_false
  | node i b l r => exact fun ⟨_, _, hl, hr⟩ => h.elim (· hl) (· hr)

theorem even_plug (h : Even (plug fs t)) : Even t := by
  induction fs generalizing t with
  | nil => exact h
  | cons f fs ih =>
    have hf : Even (f.plug t) := ih h
    cases f with
    | left i b r => exact hf.2.2.1
    | right i b l => exact hf.2.2.2

variable [LinearOrder K]

theorem Exact.height_node {i : ℤ} {b : BranchData K} (h : Exact (.node i b l r)) :
    b.height = 1 + max (height l) (height r) := congrArg BranchData.height h.1

theorem Exact.eq_leaf_or_pos (h : Exact t) : (∃ i a, t = .leaf i a) ∨ 0 < height t := by
  cases t with
  | leaf i a => exact .inl ⟨i, a, rfl⟩
  | node i b l r =>
    have hb := h.height_node
    have hl := h.2.1.height_nonneg
    refine .inr ?_
    change 0 < b.height
    omega

/-! ### One turn of `SyncHeirarchy` -/

theorem height_mk (i : ℤ) (l r : BoxTree K) : height (mk i l r) = 1 + max (height l) (height r) :=
  rfl

theorem even_mk {i : ℤ} : Even (mk i l r) ↔
    height l ≤ height r + 1 ∧ height r ≤ height l + 1 ∧ Even l ∧ Even r := Iff.rfl

omit [LinearOrder K] in
theorem even_branch {s : Side} {i : ℤ} {b : BranchData K} {x y : BoxTree K} :
    Even (branch s i b x y) ↔
      height x ≤ height y + 1 ∧ height y ≤ height x + 1 ∧ Even x ∧ Even y := by
  cases s with
  | left =>
    rw [← and_assoc, and_comm (a := height x ≤ _), and_comm (a := Even x), and_assoc]
    exact .rfl
  | right => exact .rfl

theorem even_mkAt {s : Side} {i : ℤ} {x y : BoxTree K} : Even (mkAt s i x y) ↔
    height x ≤ height y + 1 ∧ height y ≤ height x + 1 ∧ Even x ∧ Even y := even_branch

theorem tilted_mkAt {s : Side} {i : ℤ} {x y : BoxTree K} :
    Tilted (mkAt s i x y) ↔ ¬Even x ∨ ¬Even y := by
  cases s with
  | left => exact or_comm
  | right => exact .rfl

theorem settle_of_near {s : Side} {x y : BoxTree K} (h : Near x y) :
    settle (branch s a d x y) = mkAt s a x y := by
  obtain ⟨hxy, hyx⟩ := h
  cases s with
  | left =>
    rw [branch, settle, balance_eq_self (.inr ⟨by omega, by omega⟩)]
    exact mkAt_left.symm
  | right =>
    rw [branch, settle, balance_eq_self (.inr ⟨by omega, by omega⟩)]
    rfl

/-- Promoting `C`, on the side `s`, which is even and higher by two. -/
theorem settle_promote {s : Side} {X : BoxTree K} (hX : Exact X) (heX : Even X) (hC : Exact C)
    (heC : Even C) (hd : d.height ≠ 1) (h : height C = height X + 2) :
    Even (settle (branch s a d X C)) ∧ height C ≤ height (settle (branch s a d X C)) ∧
      height (settle (branch s a d X C)) ≤ height C + 1 := by
  have hXpos := hX.height_nonneg
  obtain ⟨i, b, rfl⟩ | hpos := hC.eq_leaf_or_pos
  · change (0 : ℤ) = height X + 2 at h
    omega
  cases C with
  | leaf i b => exact absurd hpos (lt_irrefl 0)
  | node c e F G =>
    have he := hC.height_node
    change e.height = height X + 2 at h
    obtain ⟨hFG, hGF, heF, heG⟩ := heC
    rw [settle, balance_eq_promote hd (by omega)]
    change Even (refit _) ∧ e.height ≤ height (refit _) ∧ height (refit _) ≤ e.height + 1
    split_ifs with hhigher
    · rw [refit_mkAt]
      simp only [even_mkAt, height_mkAt]
      refine ⟨⟨?_, ?_, ⟨?_, ?_, heX, heG⟩, heF⟩, ?_, ?_⟩ <;> omega
    · rw [refit_mkAt]
      simp only [even_mkAt, height_mkAt]
      refine ⟨⟨?_, ?_, ⟨?_, ?_, heX, heF⟩, heG⟩, ?_, ?_⟩ <;> omega

/-- One turn of `SyncHeirarchy` where the subtree in the focus got higher or lower by one. -/
theorem even_settle_plug (hex : Exact (f.plug σ)) (hev : Even (f.plug σ)) (ht : Exact t)
    (het : Even t) (hnear : Near t σ) :
    Even (settle (f.plug t)) ∧ Near (settle (f.plug t)) (f.plug σ) := by
  obtain ⟨hup, hdown⟩ := hnear
  have htpos := ht.height_nonneg
  obtain ⟨s, b, hplug⟩ := f.exists_plug_eq_branch
  rw [hplug] at hex hev
  rw [hplug, hplug, Near, height_branch]
  obtain ⟨hb, hx, -⟩ := exact_branch.1 hex
  obtain ⟨hxσ, hσx, hex, -⟩ := even_branch.1 hev
  have hheight : b.height = 1 + max (height f.sibling) (height σ) := congrArg BranchData.height hb
  have hxpos := hx.height_nonneg
  rcases lt_trichotomy (height t) (height f.sibling - 1) with hlt | heq | hgt
  · -- the sibling, on the other side, is too high now
    obtain ⟨heven, hlo, hhi⟩ := settle_promote (s := s.other) (a := f.name) (d := b) ht het hx hex
      (by omega) (by omega)
    rw [branch_other] at heven hlo hhi
    exact ⟨heven, by omega, by omega⟩
  · rw [settle_of_near ⟨by omega, by omega⟩, even_mkAt, height_mkAt]
    exact ⟨⟨by omega, by omega, hex, het⟩, by omega, by omega⟩
  · by_cases hhigh : height t ≤ height f.sibling + 1
    · rw [settle_of_near ⟨by omega, hhigh⟩, even_mkAt, height_mkAt]
      exact ⟨⟨by omega, hhigh, hex, het⟩, by omega, by omega⟩
    · obtain ⟨heven, hlo, hhi⟩ := settle_promote (s := s) (a := f.name) (d := b) hx hex ht het
        (by omega) (by omega)
      exact ⟨heven, by omega, by omega⟩

/-- **`SyncHeirarchy` keeps the heights even**, where one subtree got higher or lower by one. -/
theorem even_climb (hex : Exact (plug fs σ)) (hev : Even (plug fs σ)) (ht : Exact t)
    (het : Even t) (hnear : Near t σ) : Even (climb fs t) := by
  induction fs generalizing t σ with
  | nil => exact het
  | cons f fs ih =>
    have hfocus : Exact (f.plug σ) := (exact_plug (show Exact (plug fs (f.plug σ)) from hex)).1
    have hevfocus : Even (f.plug σ) := even_plug (show Even (plug fs (f.plug σ)) from hev)
    have hsib : Exact f.sibling := (exact_plug hex).2 f List.mem_cons_self
    obtain ⟨heven, hnear'⟩ := even_settle_plug hfocus hevfocus ht het hnear
    exact ih hex hev (exact_settle_plug hsib ht) heven hnear'

/-! ### A new leaf -/

/-- The lower child of `σ` comes to hang beside the new leaf. -/
theorem even_rise_beside (np s id : ℤ) (a : LeafData K) {kept moved : BoxTree K} {h : ℤ} {P : Prop}
    (hek : Even kept) (hem : Even moved) (hle : height moved ≤ height kept)
    (hge : height kept ≤ height moved + 1) (hpos : 0 ≤ height moved) (heq : h = 1 + height kept)
    (hiff : P ↔ height moved ≤ 1) :
    (Even (mk s kept (mk np moved (.leaf id a))) ∧ P ∨
      Tilted (mk s kept (mk np moved (.leaf id a))) ∧ ¬P) ∧
    height (mk s kept (mk np moved (.leaf id a))) ≤ h + 1 ∧
    h ≤ height (mk s kept (mk np moved (.leaf id a))) + 1 := by
  have hleaf : height (.leaf id a : BoxTree K) = 0 := rfl
  simp only [even_mk, height_mk, hiff]
  refine ⟨?_, by omega, by omega⟩
  by_cases hm : height moved ≤ 1
  · exact .inl ⟨⟨by omega, by omega, hek, by omega, by omega, hem, trivial⟩, hm⟩
  · refine .inr ⟨.inr fun heven => hm ?_, hm⟩
    have hdiff : height moved ≤ height (.leaf id a : BoxTree K) + 1 := heven.1
    rwa [hleaf, zero_add] at hdiff

/-- The first turn after a leaf is hung beside `σ`. -/
theorem settle_beside (np id : ℤ) (a : LeafData K) {b : BranchData K} (hσ : Exact σ)
    (heσ : Even σ) (hb : b.height = height σ + 1) :
    (Even (settle (.node np b σ (.leaf id a))) ∧ Low σ ∨
      Tilted (settle (.node np b σ (.leaf id a))) ∧ ¬Low σ) ∧
    Near (settle (.node np b σ (.leaf id a))) σ := by
  have hleaf : height (.leaf id a : BoxTree K) = 0 := rfl
  have hσpos := hσ.height_nonneg
  by_cases hlow : height σ ≤ 1
  · have hσlow : Low σ := by
      cases σ with
      | leaf => trivial
      | node i e l r =>
        have he := hσ.height_node
        change e.height ≤ 1 at hlow
        exact .inl (by omega)
    have hsettle : settle (.node np b σ (.leaf id a)) = mk np σ (.leaf id a) :=
      settle_of_near (s := .right) ⟨by omega, by omega⟩
    rw [hsettle, even_mk, Near, height_mk]
    exact ⟨.inl ⟨⟨by omega, by omega, heσ, trivial⟩, hσlow⟩, by omega, by omega⟩
  · cases σ with
    | leaf => exact absurd zero_le_one hlow
    | node s e D E =>
      have he := hσ.height_node
      change ¬e.height ≤ 1 at hlow
      change b.height = e.height + 1 at hb
      obtain ⟨hDE, hED, heD, heE⟩ := heσ
      have hbalance := balance_eq_promote (s := .left) (a := np) (d := b) (c := s) (F := D) (G := E)
        (X := .leaf id a) (e := e) (by omega) (by omega)
      simp only [branch, mkAt_left] at hbalance
      rw [settle, hbalance]
      change _ ∧ height (refit _) ≤ e.height + 1 ∧ e.height ≤ height (refit _) + 1
      split_ifs with hhigher
      · refine even_rise_beside np s id a heD heE (by omega) hDE (by omega) (by omega) ?_
        change height D ≤ 1 ∨ height E ≤ 1 ↔ _
        omega
      · refine even_rise_beside np s id a heE heD (by omega) hED (by omega) (by omega) ?_
        change height D ≤ 1 ∨ height E ≤ 1 ↔ _
        omega

/-- Further up a node that is not even keeps its children. -/
theorem tilted_settle_plug (h : Tilted t) : Tilted (settle (f.plug t)) := by
  have hnot := h.not_even
  obtain ⟨s, b, hplug⟩ := f.exists_plug_eq_branch
  rw [hplug, settle]
  refine balance_cases (P := fun t => Tilted (refit t)) ?_ ?_
  · rw [refit_branch, tilted_mkAt]
    exact .inr hnot
  · intro s' a d X c e F G heq _
    simp only [refit_mkAt, tilted_mkAt, even_mkAt]
    rcases eq_or_eq_of_branch_eq heq with ⟨-, rfl⟩ | ⟨-, rfl⟩
    · -- it is promoted, and its children are where they can be seen
      have hchild : ¬Even F ∨ ¬Even G := h
      tauto
    · tauto

theorem tilted_climb (h : Tilted t) : Tilted (climb fs t) := by
  induction fs generalizing t with
  | nil => exact h
  | cons f fs ih => exact ih (tilted_settle_plug h)

/-- **A new leaf** beside `σ` keeps the heights even iff `σ` is low. -/
theorem even_graft_iff {np id : ℤ} {b : BranchData K} {a : LeafData K} (hex : Exact (plug fs σ))
    (hev : Even (plug fs σ)) (hb : b.height = height σ + 1) :
    Even (climb (.right np b σ :: fs) (.leaf id a)) ↔ Low σ := by
  have hσ : Exact σ := (exact_plug hex).1
  obtain ⟨⟨heven, hlow⟩ | ⟨htilted, hlow⟩, hnear⟩ :=
    settle_beside np id a hσ (even_plug hev) hb
  · refine iff_of_true ?_ hlow
    change Even (climb fs (settle (.node np b σ (.leaf id a))))
    exact even_climb hex hev (exact_settle hσ trivial) heven hnear
  · refine iff_of_false ?_ hlow
    change ¬Even (climb fs (settle (.node np b σ (.leaf id a))))
    exact (tilted_climb htilted).not_even

/-- **A leaf that goes** keeps the heights even. -/
theorem even_lift {id : ℤ} {a : LeafData K} (hex : Exact (plug (f :: fs) (.leaf id a)))
    (hev : Even (plug (f :: fs) (.leaf id a))) : Even (climb fs f.sibling) := by
  have hbranch : Exact (f.plug (.leaf id a)) :=
    (exact_plug (show Exact (plug fs (f.plug (.leaf id a))) from hex)).1
  have heven : Even (f.plug (.leaf id a)) :=
    even_plug (show Even (plug fs (f.plug (.leaf id a))) from hev)
  have hleaf : height (.leaf id a : BoxTree K) = 0 := rfl
  have hsib : Exact f.sibling := (exact_plug hex).2 f List.mem_cons_self
  have hpos := hsib.height_nonneg
  obtain ⟨s, b, hplug⟩ := f.exists_plug_eq_branch
  refine even_climb (σ := f.plug (.leaf id a)) hex hev hsib ?_ ?_
  · rw [hplug] at heven
    exact (even_branch.1 heven).2.2.1
  · rw [hplug] at hbranch heven ⊢
    obtain ⟨hb, -⟩ := exact_branch.1 hbranch
    obtain ⟨h₁, h₂, -⟩ := even_branch.1 heven
    have hheight : b.height = 1 + max (height f.sibling) (height (.leaf id a)) :=
      congrArg BranchData.height hb
    rw [Near, height_branch]
    omega

theorem two_pow_le_sq_add {h m n x y : ℕ} (hm : h ≤ m + 1) (hn : h ≤ n + 2)
    (hx : 2 ^ m ≤ x ^ 2) (hy : 2 ^ n ≤ y ^ 2) : 2 ^ h ≤ (x + y) ^ 2 := by
  have hm' : 2 ^ h ≤ 2 * x ^ 2 := by
    calc 2 ^ h ≤ 2 ^ (m + 1) := Nat.pow_le_pow_right two_pos hm
      _ = 2 * 2 ^ m := Nat.pow_succ'
      _ ≤ 2 * x ^ 2 := Nat.mul_le_mul_left 2 hx
  have hn' : 2 ^ h ≤ 4 * y ^ 2 := by
    calc 2 ^ h ≤ 2 ^ (n + 2) := Nat.pow_le_pow_right two_pos hn
      _ = 4 * 2 ^ n := by ring
      _ ≤ 4 * y ^ 2 := Nat.mul_le_mul_left 4 hy
  rcases le_total x y with hxy | hyx
  · nlinarith [Nat.mul_le_mul_left x hxy]
  · nlinarith [Nat.mul_le_mul_left y hyx]

/-- **A tree with even heights has many leaves**: at least `2 ^ (height / 2)`. -/
theorem Even.two_pow_height_le (hex : Exact t) (hev : Even t) :
    2 ^ (height t).toNat ≤ t.leaves.length ^ 2 := by
  induction t with
  | leaf i a => exact le_refl 1
  | node i b l r ihl ihr =>
    obtain ⟨hlr, hrl, hel, her⟩ := hev
    have hb := hex.height_node
    have hl := hex.2.1.height_nonneg
    have hr := hex.2.2.height_nonneg
    have ihl := ihl hex.2.1 hel
    have ihr := ihr hex.2.2 her
    change 2 ^ b.height.toNat ≤ (l.leaves ++ r.leaves).length ^ 2
    rw [List.length_append]
    -- one child is one lower than the branch, the other at most two
    rcases le_total (height l) (height r) with hle | hle
    · rw [add_comm]
      exact two_pow_le_sq_add (by omega) (by omega) ihr ihl
    · exact two_pow_le_sq_add (by omega) (by omega) ihl ihr

end BoxTree

/-! ### The pool -/

namespace DynamicAABBTree

open BoxTree

variable {K : Type*} {t t' : DynamicAABBTree K} {T T' : Option (BoxTree K)} {D : List ℤ}

/-- The heights of a tree that may be empty are even. -/
def EvenTree : Option (BoxTree K) → Prop
  | none => True
  | some τ => τ.Even

/-- A leaf may be hung beside node `i`: it is a leaf, or a child of it is at most one high. -/
def LowNode (t : DynamicAABBTree K) (i : ℤ) : Prop :=
  (t.node i).IsLeaf ∨ (t.node (t.node i).left).height ≤ 1 ∨ (t.node (t.node i).right).height ≤ 1

/-- The heights of the children of node `i` differ by at most one. -/
def EvenNode (t : DynamicAABBTree K) (i : ℤ) : Prop :=
  (t.node (t.node i).left).height ≤ (t.node (t.node i).right).height + 1 ∧
    (t.node (t.node i).right).height ≤ (t.node (t.node i).left).height + 1

/-- `InsertLeaf` with this box stops at a low node. -/
def StopsLow [Field K] [LinearOrder K] (t : DynamicAABBTree K) (leafAABB : AABB2 K) : Prop :=
  t.root ≠ Null → ∀ sibling, t.searchSibling leafAABB t.size.toNat t.root = some sibling →
    t.LowNode sibling

theorem Links.unique {p p' : ℤ} {τ τ' : BoxTree K} (h : t.Links p τ) (h' : t.Links p' τ')
    (h0 : NonNeg τ.names) (h0' : NonNeg τ'.names) (hname : τ.name = τ'.name) : τ = τ' := by
  induction τ generalizing τ' p p' with
  | leaf i a =>
    cases τ' with
    | leaf j c =>
      obtain rfl : i = j := hname
      have hnode : layout.leaf p a = layout.leaf p' c := h.symm.trans h'
      simp only [layout, Node.mk.injEq] at hnode
      obtain ⟨haabb, -, hdata, -⟩ := hnode
      cases a
      cases c
      simp_all
    | node j c l r =>
      obtain rfl : i = j := hname
      exact absurd h.isLeaf_leaf (h'.not_isLeaf_node h0'.right)
  | node i b l r ihl ihr =>
    have h0l := h0.left
    have h0r := h0.right
    cases τ' with
    | leaf j c =>
      obtain rfl : i = j := hname
      exact absurd h'.isLeaf_leaf (h.not_isLeaf_node h0r)
    | node j c l' r' =>
      obtain rfl : i = j := hname
      have hnode : layout.branch p l.name r.name b = layout.branch p' l'.name r'.name c :=
        h.1.symm.trans h'.1
      simp only [layout, Node.mk.injEq] at hnode
      obtain ⟨haabb, -, hleft, hright, hheight⟩ := hnode
      obtain rfl := ihl h.2.1 h'.2.1 h0l (fun k hk => h0' k (by simp [names, hk])) hleft
      obtain rfl := ihr h.2.2 h'.2.2 h0r (fun k hk => h0' k (by simp [names, hk])) hright
      cases b
      cases c
      simp_all

theorem Holds.unique_tree {D' : List ℤ} (h : t.Holds T D) (h' : t.Holds T' D') : T = T' := by
  have hroot := h.rooted
  have hroot' := h'.rooted
  have h0 : NonNeg (treeNames T) := h.nonNeg.of_append_left
  have h0' : NonNeg (treeNames T') := h'.nonNeg.of_append_left
  cases T with
  | none =>
    cases T' with
    | none => rfl
    | some τ' => exact absurd (hroot'.1.symm.trans hroot) (h0'.ne_null τ'.name_mem_names)
  | some τ =>
    cases T' with
    | none => exact absurd (hroot.1.symm.trans hroot') (h0.ne_null τ.name_mem_names)
    | some τ' => rw [hroot.2.unique hroot'.2 h0 h0' (hroot.1.symm.trans hroot'.1)]

section Step

variable [LinearOrder K] {id : ℤ} {a : LeafData K}

/-- A leaf that is linked keeps the heights even iff the search stopped at a low node. -/
theorem Inserts.evenTree_iff [Field K] {leafAABB : AABB2 K} (h : t.Holds T D) (hT : ExactTree T)
    (hev : EvenTree T)
    (hins : Inserts id a (t.searchSibling leafAABB t.size.toNat t.root) T T') :
    EvenTree T' ↔ t.StopsLow leafAABB := by
  cases hins with
  | first => exact iff_of_true trivial fun hne => absurd h.rooted hne
  | @beside gs σ np b hsibling hb =>
    have hsub : t.Subtree σ := by
      refine ⟨⟨_, (linked_plug.1 h.rooted.2).1⟩, fun i hi => h.nonNeg i ?_, (exact_plug hT).1⟩
      exact List.mem_append_left _ ((names_plug_perm gs σ).mem_iff.2 (List.mem_append_left _ hi))
    have hroot : t.root ≠ Null := by
      rw [h.rooted.1]
      exact ne_null_of_nonneg (h.nonNeg _ (List.mem_append_left _ (name_mem_names _)))
    have hlow : t.LowNode σ.name ↔ Low σ := by
      cases σ with
      | leaf i c => exact iff_of_true (.inl hsub.isLeaf) trivial
      | node i c l r =>
        obtain ⟨-, hleft, hright⟩ := hsub.node_branch
        obtain ⟨p, -, hl, hr⟩ := hsub.links
        rw [LowNode, name, or_iff_right hsub.not_isLeaf, hleft, hright, Links.height hl,
          Links.height hr]
        exact Iff.rfl
    rw [StopsLow, hsibling]
    simp only [hroot, ne_eq, not_false_eq_true, Option.some.injEq, forall_const, forall_eq', hlow]
    exact even_graft_iff hT hev hb

theorem Removes.evenTree (hT : ExactTree T) (hev : EvenTree T) (h : Removes id a T T') :
    EvenTree T' := by
  cases h with
  | last => trivial
  | lift => exact even_lift hT hev

theorem Subtree.even_iff {τ : BoxTree K} (h : t.Subtree τ) (hroot : t.root = τ.name) :
    τ.Even ↔ ∀ i, t.Reaches i → ¬(t.node i).IsLeaf → t.EvenNode i := by
  constructor
  · intro heven i hi hleaf
    obtain ⟨σ, hσ, rfl, fs, rfl⟩ := Reaches.exists_subtree h hroot hi
    have hevenσ := even_plug heven
    cases σ with
    | leaf i a => exact absurd hσ.isLeaf hleaf
    | node i b l r =>
      obtain ⟨-, hleft, hright⟩ := hσ.node_branch
      obtain ⟨p, -, hl, hr⟩ := hσ.links
      rw [EvenNode, name, hleft, hright, Links.height hl, Links.height hr]
      exact ⟨hevenσ.1, hevenσ.2.1⟩
  · intro hall
    have hτ : t.Reaches τ.name := hroot ▸ .root (hroot ▸ h.nonNeg.ne_null τ.name_mem_names)
    clear hroot
    induction τ with
    | leaf i a => trivial
    | node i b l r ihl ihr =>
      obtain ⟨-, hleft, hright⟩ := h.node_branch
      obtain ⟨p, -, hl, hr⟩ := h.links
      have hnear := hall i hτ h.not_isLeaf
      rw [EvenNode, hleft, hright, Links.height hl, Links.height hr] at hnear
      exact ⟨hnear.1, hnear.2, ihl h.left (hleft ▸ .left hτ h.not_isLeaf),
        ihr h.right (hright ▸ .right hτ h.not_isLeaf)⟩

/-- A search that fills the stack goes as far down as there are entries missing. -/
theorem Crowded.le_height {aabb : AABB2 K} {sp : ℕ} {i : ℤ} {σ : BoxTree K}
    (h : t.Crowded aabb sp i) (hσ : t.Subtree σ) (hname : σ.name = i) :
    KStackCapacity ≤ sp + height σ := by
  induction h generalizing σ with
  | full hfull =>
    have hpos := hσ.exact.height_nonneg
    omega
  | right _ hleaf _ ih =>
    subst hname
    cases σ with
    | leaf i a => exact absurd hσ.isLeaf hleaf
    | node i b l r =>
      have hr := ih hσ.right hσ.node_branch.2.2.symm
      have hb := hσ.exact.height_node
      change _ ≤ _ + b.height
      omega
  | left _ hleaf _ _ ih =>
    subst hname
    cases σ with
    | leaf i a => exact absurd hσ.isLeaf hleaf
    | node i b l r =>
      have hl := ih hσ.left hσ.node_branch.2.1.symm
      have hb := hσ.exact.height_node
      change _ ≤ _ + b.height
      omega

end Step

end DynamicAABBTree

/-! ### Runs -/

open DynamicAABBTree BoxTree

/-- `InsertLeaf`, where the call comes to it, stops at a low node. -/
def TreeCall.StopsLow {K : Type*} [Field K] [LinearOrder K] (s : TrackedTree K) :
    TreeCall K → Prop
  | .insert aabb _ _ => s.tree.StopsLow aabb.fatten
  | .remove _ => True
  | .update id aabb _ => (s.tree.getFatAABB id).contains aabb = true ∨
    ∀ t, s.tree.removeLeaf id = some t → t.StopsLow aabb.fatten

namespace TrackedTree

variable {K : Type*} [LinearOrder K] {s s' : TrackedTree K} {T : Option (BoxTree K)}

/-- The children of every branch differ in height by at most one; the height of a node is at most
twice the binary logarithm of the number of leaves; and with a pool whose size is an `int32_t` the
stack of a query suffices, wherever it starts. -/
structure Balanced (s : TrackedTree K) : Prop where
  even : ∀ i, s.tree.Reaches i → ¬(s.tree.node i).IsLeaf → s.tree.EvenNode i
  logarithmic : ∃ ids : Finset ℤ, (∀ id, id ∈ ids ↔ s.tree.LiveLeaf id) ∧
    ∀ i, s.tree.Reaches i → 2 ^ (s.tree.node i).height.toNat ≤ ids.card ^ 2
  stack : s.tree.size < 2 ^ 31 → ∀ aabb i, s.tree.Reaches i → ¬s.tree.Crowded aabb 1 i

theorem Tracks.balanced (h : s.Tracks T) (heven : EvenTree T) : s.Balanced := by
  cases T with
  | none =>
    have hno : ∀ i, ¬s.tree.Reaches i := fun i hi =>
      absurd ((reaches_iff h.holds).1 hi) List.not_mem_nil
    exact ⟨fun i hi => absurd hi (hno i),
      ⟨∅, fun id => iff_of_false (Finset.notMem_empty id) fun hl => hno id hl.1,
        fun i hi => absurd hi (hno i)⟩, fun _ _ i hi => absurd hi (hno i)⟩
  | some τ =>
    have hlow : ∀ i, s.tree.Reaches i → ∃ σ : BoxTree K, s.tree.Subtree σ ∧ σ.name = i ∧
        2 ^ (height σ).toNat ≤ τ.leaves.length ^ 2 := by
      intro i hi
      obtain ⟨σ, hσ, hname, fs, rfl⟩ := Reaches.exists_subtree h.subtree h.root_eq hi
      have hsome : σ.leaves.length ≤ (plug fs σ).leaves.length := by
        rw [(leaves_plug_perm fs σ).length_eq, List.length_append]
        exact Nat.le_add_right _ _
      exact ⟨σ, hσ, hname, ((even_plug heven).two_pow_height_le hσ.exact).trans
        (Nat.pow_le_pow_left hsome 2)⟩
    refine ⟨(h.subtree.even_iff h.root_eq).1 heven,
      ⟨(τ.leaves.map Prod.fst).toFinset, fun id => ?_, fun i hi => ?_⟩, fun hsize aabb i hi hc => ?_⟩
    · simp [liveLeaf_iff h.holds, treeLeaves]
    · obtain ⟨σ, hσ, rfl, hpow⟩ := hlow i hi
      obtain ⟨p, hp⟩ := hσ.links
      have hcard : (τ.leaves.map Prod.fst).toFinset.card = τ.leaves.length :=
        (List.toFinset_card_of_nodup h.holds.nodup_leaves).trans (List.length_map _)
      rw [hcard, Links.height hp]
      exact hpow
    · obtain ⟨σ, hσ, hname, hpow⟩ := hlow i hi
      have hfull : (256 : ℕ) ≤ (1 : ℕ) + height σ := hc.le_height hσ hname
      have hleaves : τ.leaves.length ≤ τ.names.length := by
        simpa using (leaves_names_sublist τ).length_le
      have hnames : τ.names.length ≤ s.tree.size.toNat := h.holds.length_names_le
      have hfew : τ.leaves.length ^ 2 ≤ 2 ^ 62 :=
        (Nat.pow_le_pow_left (by omega : τ.leaves.length ≤ 2 ^ 31) 2)
      have hhigh : 2 ^ 255 ≤ 2 ^ (height σ).toNat :=
        Nat.pow_le_pow_right two_pos (by omega)
      exact absurd (hhigh.trans (hpow.trans hfew)) (by norm_num)

section Calls

variable [Field K] [IsStrictOrderedRing K] {T' : Option (BoxTree K)} {call : TreeCall K}

omit [IsStrictOrderedRing K] in
/-- One call keeps the heights even iff it stops low. -/
theorem Tracks.evenTree_step_iff (h : s.Tracks T) (hev : EvenTree T) (h' : s'.Tracks T')
    (hstep : (treeSystem K).step s call s') : EvenTree T' ↔ call.StopsLow s := by
  cases call with
  | insert aabb entity id =>
    obtain ⟨t', id', T₁, hins, hT₁, -, -, hshape⟩ := h.holds.insert h.exact aabb entity
    obtain ⟨rfl, rfl⟩ := Prod.mk.inj (Option.some.inj (hins.symm.trans hstep.1))
    obtain rfl := h'.holds.unique_tree hT₁
    exact hshape.evenTree_iff h.holds h.exact hev
  | remove id =>
    obtain ⟨hid, hrem, -⟩ := hstep
    obtain ⟨a, ha⟩ := (h.live id).1 hid
    obtain ⟨t', T₁, hrem', hT₁, -, -, hshape⟩ := h.holds.remove h.exact ha
    obtain rfl := Option.some.inj (hrem'.symm.trans hrem)
    obtain rfl := h'.holds.unique_tree hT₁
    exact iff_of_true (hshape.evenTree h.exact hev) trivial
  | update id aabb moved =>
    obtain ⟨entity, box, hid, hup, -⟩ := hstep
    obtain ⟨a, ha⟩ := (h.live id).1 (by rw [hid]; rfl)
    have hbox : s.tree.getFatAABB id = a.aabb := (h.holds.isLeafOf ha).aabb
    have hupd := h.holds.update h.exact ha aabb
    rw [TreeCall.StopsLow, hbox]
    split_ifs at hupd with hc
    · obtain ⟨htree, -⟩ := Prod.mk.inj (Option.some.inj (hupd.symm.trans hup))
      obtain rfl := h'.holds.unique_tree (htree ▸ h.holds)
      exact iff_of_true hev (.inl hc)
    · obtain ⟨t', T₂, L, hup', hT₂, -, -, -, t₁, T₁, hrem, hT₁, hexact, hremoved, hshape⟩ := hupd
      obtain ⟨rfl, -⟩ := Prod.mk.inj (Option.some.inj (hup'.symm.trans hup))
      obtain rfl := h'.holds.unique_tree hT₂
      -- the leaf goes, and comes back into the tree without it
      rw [or_iff_right hc, hrem]
      simp only [Option.some.injEq, forall_eq']
      exact hshape.evenTree_iff hT₁ hexact (hremoved.evenTree h.exact hev)

/-- **When the tree stays balanced.**  In every state of a run from a fresh tree the heights are
even, logarithmic, and small enough for the stack of a query, iff in every call of the run
`InsertLeaf` stops at a leaf or over a child that is at most one high. -/
theorem balanced_run_iff {size : ℤ} (hsize : 1 ≤ size) {es : List (TrackedTree K × TreeCall K)}
    (h : (treeSystem K).Run (freshTree size) es s) :
    LTS.Always Balanced es s ↔ ∀ e ∈ es, e.2.StopsLow e.1 := by
  refine h.always_iff (I := fun s => ∃ T, s.Tracks T ∧ EvenTree T)
    (C := fun s call => call.StopsLow s) ⟨none, Tracks.construct hsize, trivial⟩ ?_ ?_ ?_
  · rintro s ⟨T, hT, hev⟩
    exact hT.balanced hev
  · rintro s call s' ⟨T, hT, hev⟩ hstep hlow
    obtain ⟨-, T', hT'⟩ := hT.step hstep
    exact ⟨T', hT', (hT.evenTree_step_iff hev hT' hstep).2 hlow⟩
  · rintro s call s' ⟨T, hT, hev⟩ hstep hbalanced
    obtain ⟨-, T', hT'⟩ := hT.step hstep
    refine (hT.evenTree_step_iff hev hT' hstep).1 ?_
    cases T' with
    | none => trivial
    | some τ => exact (hT'.subtree.even_iff hT'.root_eq).2 hbalanced.even

/-- The second leaf comes beside the first. -/
theorem balanced_run_iff_two_inserts : ∃ es s, (treeSystem ℚ).Run (freshTree 1) es s ∧
    es.length = 2 ∧ LTS.Always Balanced es s := by
  have hcompute : ((freshTree 1 : TrackedTree ℚ).tree.insert ⟨⟨0, 0⟩, ⟨1, 1⟩⟩ 7).any (fun p =>
      p.1.searchSibling (AABB2.fatten ⟨⟨5, 5⟩, ⟨6, 6⟩⟩) p.1.size.toNat p.1.root = some 0 ∧
        (p.1.node 0).IsLeaf ∧ (p.1.insert ⟨⟨5, 5⟩, ⟨6, 6⟩⟩ 8).isSome) = true := by
    decide +kernel
  obtain ⟨⟨t, id⟩, hins, hcompute⟩ := (Option.any_eq_true _ _).1 hcompute
  obtain ⟨hsearch, hleaf, hsome⟩ := of_decide_eq_true hcompute
  obtain ⟨⟨t', id'⟩, hins'⟩ := Option.isSome_iff_exists.1 hsome
  have hrun := (LTS.Run.start.snoc (step_insert hins)).snoc (step_insert hins')
  refine ⟨_, _, hrun, rfl, (balanced_run_iff le_rfl hrun).2 ?_⟩
  simp only [List.nil_append, List.mem_append, List.mem_singleton, or_imp, forall_and, forall_eq]
  refine ⟨fun hne => absurd rfl hne, fun _ sibling heq => ?_⟩
  obtain rfl := Option.some.inj (hsearch.symm.trans heq)
  exact .inl hleaf

/-- Seven leaves in one place, and one far away: that one is hung beside the root, and of the two
children that come to hang beside each other one is two high and the other a leaf. -/
theorem unbalanced_far_insert : ¬∀ (es : List (TrackedTree ℚ × TreeCall ℚ)) (s : TrackedTree ℚ),
    (treeSystem ℚ).Run (freshTree 1) es s → s.Balanced := by
  intro hall
  obtain ⟨s, hrun, hs⟩ := exists_run (freshTree 1 : TrackedTree ℚ)
    ([0, 1, 3, 5, 7, 9, 11].map (.insert ⟨⟨0, 0⟩, ⟨1, 1⟩⟩ 0) ++
      [.insert ⟨⟨1000, 1000⟩, ⟨1001, 1001⟩⟩ 0 13])
    (fun s => s.tree.root ≠ Null ∧ ¬(s.tree.node s.tree.root).IsLeaf ∧
      ¬(s.tree.node (s.tree.node s.tree.root).right).IsLeaf ∧
      (s.tree.node (s.tree.node (s.tree.node s.tree.root).right).left).height = 2 ∧
      (s.tree.node (s.tree.node (s.tree.node s.tree.root).right).right).height = 0)
    (by decide +kernel)
  obtain ⟨hroot, hbranch, hright, hhigh, hlow⟩ := of_decide_eq_true hs
  have heven := ((hall _ s hrun).even _ (.right (.root hroot) hbranch) hright).1
  rw [hhigh, hlow] at heven
  exact absurd heven (by decide)

end Calls

end TrackedTree

end ClientServer
