import ClientServer.AABBTree.Rotation

/-!
# The loops of an update end

`InsertLeaf` goes down along child links, and `SyncHeirarchy` goes up along parent links that its
own rotations rewrite.  A rotation moves the node the loop stands on one level down, under the
child that is promoted; but that child hangs where the node hung, and from it the loop goes on.

* `Links.searchStops` : the search goes down one level a turn.
* `updates_terminate` : **both loops end**: the search within the height of the tree, the climb at
  the root after one turn for the start and each of its ancestors.
-/

namespace ClientServer

open BinTree BoxTree

namespace DynamicAABBTree

variable {K : Type*} [LinearOrder K]

/-- From node `i` the search of `InsertLeaf` goes down at most `n` times, and ends at a leaf or at
a branch where it stops early. -/
def SearchStops [Field K] (t : DynamicAABBTree K) (leafAABB : AABB2 K) (i : ℤ) (n : ℕ) : Prop :=
  ∃ path j, t.follow i path = some j ∧ path.length ≤ n ∧
    ((t.node j).IsLeaf ∨ t.descentStep leafAABB j = none) ∧
    ∀ fuel, path.length < fuel → t.searchSibling leafAABB fuel i = some j

/-- `SyncHeirarchy` from node `i`, over which there are the nodes `ups`, ends in the state `t'`
after the turns `visits`. -/
structure ClimbStops (t t' : DynamicAABBTree K) (i : ℤ) (ups : List ℤ) (visits : List (ℤ × ℤ)) :
    Prop where
  ends : ∀ fuel, ups.length < fuel → syncHeirarchy fuel t i = some t'
  turns : ∀ fuel, ups.length < fuel → syncVisits fuel t i = some (t', visits)
  /-- It comes to the start and to the nodes that were over it, each once. -/
  comes : visits.map Prod.fst = i :: ups
  nodup : (visits.map Prod.fst).Nodup
  /-- One node for each level down to the start. -/
  depth : ∃ path, t.nodeAt path = some i ∧ visits.length = path.length + 1
  /-- The last node it stands on is the root. -/
  last : (visits.map Prod.snd).getLast? = some t'.root
  root : ∃ τ', t'.root = τ'.name ∧ t'.Links Null τ' ∧ Exact τ'

variable {t : DynamicAABBTree K} {τ : BoxTree K}

/-! ### Down -/

section Search

variable [Field K] {leafAABB : AABB2 K} {i j : ℤ} {n m : ℕ}

theorem searchStops_here (hi : (t.node i).IsLeaf ∨ t.descentStep leafAABB i = none) :
    t.SearchStops leafAABB i n := by
  refine ⟨[], i, rfl, Nat.zero_le n, hi, fun fuel hfuel => ?_⟩
  obtain ⟨fuel, rfl⟩ := Nat.exists_eq_succ_of_ne_zero hfuel.ne'
  rw [searchSibling]
  split_ifs with hleaf
  · rfl
  · rw [hi.resolve_left hleaf]

theorem SearchStops.up (b : Bool)
    (h : t.SearchStops leafAABB (if b then (t.node i).right else (t.node i).left) n)
    (hleaf : ¬(t.node i).IsLeaf) (hnm : n ≤ m)
    (hstep : t.descentStep leafAABB i = some (if b then (t.node i).right else (t.node i).left)) :
    t.SearchStops leafAABB i (1 + m) := by
  obtain ⟨path, j, hpath, hlen, hj, hfind⟩ := h
  refine ⟨b :: path, j, ?_, ?_, hj, fun fuel hfuel => ?_⟩
  · -- the path begins with the turn that is taken here
    rw [follow_cons hleaf, hpath]
  · rw [List.length_cons]
    omega
  · obtain ⟨fuel, rfl⟩ := Nat.exists_eq_succ_of_ne_zero (Nat.ne_zero_of_lt hfuel)
    rw [searchSibling, if_neg hleaf, hstep]
    exact hfind fuel (Nat.lt_of_succ_lt_succ hfuel)

/-- **The search ends**, whatever is stored: each turn goes down one level. -/
theorem Links.searchStops {p : ℤ} (h : t.Links p τ) (h0 : NonNeg τ.names) (leafAABB : AABB2 K) :
    t.SearchStops leafAABB τ.name τ.levels := by
  induction τ generalizing p with
  | leaf i a => exact searchStops_here (.inl h.isLeaf_leaf)
  | node i b l r ihl ihr =>
    have hleaf := h.not_isLeaf_node h0.right
    have hleft := h.left_eq
    have hright := h.right_eq
    obtain ⟨-, hl, hr⟩ := h
    -- stop here, or go on to the left or to the right; the costs do not matter
    rcases descentStep_cases (t := t) leafAABB i with hstep | hstep | hstep
    · exact searchStops_here (.inr hstep)
    · exact SearchStops.up false (hleft ▸ ihl hl h0.left) hleaf (le_max_left _ _) hstep
    · exact SearchStops.up true (hright ▸ ihr hr h0.right) hleaf (le_max_right _ _) hstep

end Search

/-! ### Up -/

/-- **The climb ends at the root.** -/
theorem Links.climbStops {fs : List (Frame ℤ (LeafData K) (BranchData K))} {i : ℤ}
    {d : BranchData K} {B C : BoxTree K} (h : t.Links Null (plug fs (.node i d B C)))
    (hroot : t.root = (plug fs (.node i d B C)).name)
    (hn : (plug fs (.node i d B C)).names.Nodup) (h0 : NonNeg (plug fs (.node i d B C)).names)
    (hB : Exact B) (hC : Exact C) (hfs : ExactCtx fs) :
    ∃ t' visits, ClimbStops t t' i (fs.map Frame.name) visits := by
  obtain ⟨hlinks, hctx⟩ := linked_plug.1 h
  have hperm := names_plug_perm fs (.node i d B C)
  have hn' := hperm.nodup_iff.1 hn
  obtain ⟨t', visits, hsync, hvisits, hlast, hlinks', hrt, -, -⟩ := syncVisits_refines hlinks hctx
    hroot hB hC hfs hn' (h0.perm hperm)
  have hturns : ∀ fuel, (fs.map Frame.name).length < fuel →
      syncVisits fuel t i = some (t', visits) := by
    simpa using hsync
  refine ⟨t', visits, fun fuel hfuel => ?_, hturns, hvisits, ?_, ?_, hlast, _, hrt, hlinks',
    exact_climb (exact_settle hB hC) hfs⟩
  · rw [syncHeirarchy_eq_map, hturns fuel hfuel]
    rfl
  · -- the frames of a context are different nodes
    rw [hvisits]
    refine hn'.sublist (List.Sublist.cons_cons i ?_)
    exact (map_name_sublist_ctxNames fs).trans (List.sublist_append_right _ _)
  · obtain ⟨path, hpath, hlen⟩ := exists_follow_plug fs (t := .node i d B C) (q := []) rfl
    have hlength := congrArg List.length hvisits
    exact ⟨path, (h.nodeAt_eq hroot h0 path).trans hpath, by simpa [hlen] using hlength⟩

/-! ### Both -/

/-- **Updates end.**  In every linked tree the search of `InsertLeaf` ends within the height of the
tree; and from every branch, where the boxes and heights are exact but for the branch and its
ancestors, `SyncHeirarchy` ends at the root after one turn for each level down to that branch. -/
theorem updates_terminate [Field K] (h : t.Links Null τ) (hroot : t.root = τ.name)
    (hn : τ.names.Nodup) (h0 : NonNeg τ.names) :
    (∀ leafAABB, t.SearchStops leafAABB t.root τ.levels) ∧
      ∀ fs i d B C, plug fs (.node i d B C) = τ → Exact B → Exact C → ExactCtx fs →
        ∃ t' visits, ClimbStops t t' i (fs.map Frame.name) visits := by
  constructor
  · intro leafAABB
    rw [hroot]
    exact h.searchStops h0 leafAABB
  · rintro fs i d B C rfl hB hC hfs
    exact h.climbStops hroot hn h0 hB hC hfs

/-- From the right child of the root: in the second turn the root moves under it. -/
theorem updates_terminate_leaning :
    (∀ leafAABB, (holding Null leaning).SearchStops leafAABB 0 3) ∧
      ∃ t', ClimbStops (holding Null leaning) t' 2 [0] [(2, 2), (0, 2)] := by
  have hn : leaning.names.Nodup := by decide
  obtain ⟨hsearch, hclimb⟩ := updates_terminate (links_holding hn) rfl hn nonNeg_leaning
  refine ⟨hsearch, ?_⟩
  obtain ⟨t', visits, h⟩ := hclimb [.right 0 _ _] 2 _ _ _ rfl (exact_mk.2 ⟨trivial, trivial⟩)
    trivial (List.forall_mem_singleton.2 trivial)
  have hvisits : ((holding Null leaning).syncVisits 2 2).map Prod.snd =
      some [(2, 2), (0, 2)] := by decide +kernel
  rw [h.turns 2 (by decide)] at hvisits
  obtain rfl : visits = [(2, 2), (0, 2)] := Option.some.inj hvisits
  exact ⟨t', h⟩

end DynamicAABBTree

end ClientServer
