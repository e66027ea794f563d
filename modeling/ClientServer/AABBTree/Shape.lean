import ClientServer.AABBTree.Map

/-!
# The shape of the tree in its pool

What the fields of the nodes say once the represented tree is forgotten: which indices are
free, which are reached from the root and by how many paths, and that the parent links are the
child links backwards.

* `reaches_iff_nodeAt` : what is reached is what some path leads to.
* `Links.follow_eq` : the links of a pool lead where the paths of the represented tree lead.
* `consistent_run` : **the representation invariant**, over every run from a fresh tree.
-/

namespace ClientServer

open BinTree BoxTree

namespace DynamicAABBTree

variable {K : Type*} {t : DynamicAABBTree K} {T : Option (BoxTree K)} {D : List ℤ} {i : ℤ}

/-! ### Paths along the child links -/

/-- Where the child links lead from node `i`: `false` goes left, `true` goes right. -/
def follow (t : DynamicAABBTree K) : ℤ → List Bool → Option ℤ
  | i, [] => some i
  | i, b :: p =>
    if (t.node i).IsLeaf then none
    else t.follow (if b then (t.node i).right else (t.node i).left) p

theorem follow_cons (h : ¬(t.node i).IsLeaf) (b : Bool) (p : List Bool) :
    t.follow i (b :: p) = t.follow (if b then (t.node i).right else (t.node i).left) p := by
  rw [follow, if_neg h]

theorem follows_leaf {j : ℤ} (h : (t.node i).IsLeaf) : (∃ p, t.follow i p = some j) ↔ j = i := by
  constructor
  · rintro ⟨p, hp⟩
    cases p with
    | nil => exact (Option.some.inj hp).symm
    | cons b p =>
      rw [follow, if_pos h] at hp
      cases hp
  · rintro rfl
    exact ⟨[], rfl⟩

theorem follows_branch {j : ℤ} (h : ¬(t.node i).IsLeaf) (hleaf : (t.node j).IsLeaf) :
    (∃ p, t.follow i p = some j) ↔
      (∃ p, t.follow (t.node i).left p = some j) ∨ ∃ p, t.follow (t.node i).right p = some j := by
  constructor
  · rintro ⟨p, hp⟩
    cases p with
    | nil => exact absurd (Option.some.inj hp ▸ hleaf) h
    | cons b p =>
      rw [follow_cons h] at hp
      cases b with
      | false => exact .inl ⟨p, hp⟩
      | true => exact .inr ⟨p, hp⟩
  · rintro (⟨p, hp⟩ | ⟨p, hp⟩)
    · exact ⟨false :: p, (follow_cons h false p).trans hp⟩
    · exact ⟨true :: p, (follow_cons h true p).trans hp⟩

/-- Where the child links lead from `root_`. -/
def nodeAt (t : DynamicAABBTree K) (p : List Bool) : Option ℤ :=
  if t.root = Null then none else t.follow t.root p

theorem reaches_of_follow {j : ℤ} {p : List Bool} (hj : t.Reaches j)
    (h : t.follow j p = some i) : t.Reaches i := by
  induction p generalizing j with
  | nil => exact Option.some.inj h ▸ hj
  | cons b p ih =>
    rw [follow] at h
    by_cases hleaf : (t.node j).IsLeaf
    · rw [if_pos hleaf] at h
      cases h
    · rw [if_neg hleaf] at h
      cases b with
      | false => exact ih (.left hj hleaf) h
      | true => exact ih (.right hj hleaf) h

theorem follow_append_singleton {j : ℤ} {p : List Bool} (b : Bool) (h : t.follow j p = some i)
    (hi : ¬(t.node i).IsLeaf) :
    t.follow j (p ++ [b]) = some (if b then (t.node i).right else (t.node i).left) := by
  induction p generalizing j with
  | nil =>
    obtain rfl : j = i := Option.some.inj h
    rw [List.nil_append, follow, if_neg hi]
    rfl
  | cons c p ih =>
    rw [follow] at h
    by_cases hleaf : (t.node j).IsLeaf
    · rw [if_pos hleaf] at h
      cases h
    · rw [if_neg hleaf] at h
      rw [List.cons_append, follow, if_neg hleaf]
      exact ih h

/-- What is reached is what some path leads to. -/
theorem reaches_iff_nodeAt : t.Reaches i ↔ ∃ p, t.nodeAt p = some i := by
  constructor
  · intro h
    induction h with
    | root hne => exact ⟨[], by rw [nodeAt, if_neg hne, follow]⟩
    | @left j hj hleaf ih =>
      obtain ⟨p, hp⟩ := ih
      rw [nodeAt] at hp
      split_ifs at hp with hroot
      exact ⟨p ++ [false], by rw [nodeAt, if_neg hroot, follow_append_singleton _ hp hleaf]; rfl⟩
    | @right j hj hleaf ih =>
      obtain ⟨p, hp⟩ := ih
      rw [nodeAt] at hp
      split_ifs at hp with hroot
      exact ⟨p ++ [true], by rw [nodeAt, if_neg hroot, follow_append_singleton _ hp hleaf]; rfl⟩
  · rintro ⟨p, hp⟩
    rw [nodeAt] at hp
    split_ifs at hp with hroot
    exact reaches_of_follow (.root hroot) hp

/-- The links of a pool lead where the paths of the represented tree lead. -/
theorem Links.follow_eq {p : ℤ} {τ : BoxTree K} (h : t.Links p τ) (h0 : NonNeg τ.names)
    (path : List Bool) : t.follow τ.name path = τ.follow path := by
  induction path generalizing p τ with
  | nil => cases τ <;> rfl
  | cons b path ih =>
    cases τ with
    | leaf j a => exact if_pos h.isLeaf_leaf
    | node j c l r =>
      have hnot := h.not_isLeaf_node h0.right
      obtain ⟨hj, hl, hr⟩ := h
      rw [name, DynamicAABBTree.follow, if_neg hnot, hj]
      cases b with
      | false => exact ih hl h0.left
      | true => exact ih hr h0.right

theorem Links.nodeAt_eq {p : ℤ} {τ : BoxTree K} (h : t.Links p τ) (hroot : t.root = τ.name)
    (h0 : NonNeg τ.names) (path : List Bool) : t.nodeAt path = τ.follow path := by
  rw [nodeAt, hroot, if_neg (h0.ne_null τ.name_mem_names), h.follow_eq h0]

theorem Holds.existsUnique_nodeAt (h : t.Holds T D) (hi : i ∈ treeNames T) :
    ∃! p, t.nodeAt p = some i := by
  cases T with
  | none => exact absurd hi List.not_mem_nil
  | some τ =>
    obtain ⟨hroot, hlinks⟩ := h.rooted
    have hn : τ.names.Nodup := (List.nodup_append.1 h.nodup).1
    have h0 : NonNeg τ.names := h.nonNeg.of_append_left
    simp only [hlinks.nodeAt_eq hroot h0]
    exact existsUnique_follow hn hi

/-! ### What a reached node looks like -/

theorem Holds.parent_root (h : t.Holds T D) (hroot : t.root ≠ Null) :
    (t.node t.root).parent = Null := by
  cases T with
  | none => exact absurd h.rooted hroot
  | some τ => rw [h.rooted.1, h.rooted.2.parent]

theorem Links.children {p : ℤ} {τ : BoxTree K} (h : t.Links p τ) (hn : τ.names.Nodup)
    (hi : i ∈ τ.names) (hleaf : ¬(t.node i).IsLeaf) :
    (t.node i).left ≠ (t.node i).right ∧
      (t.node (t.node i).left).parent = i ∧ (t.node (t.node i).right).parent = i := by
  induction τ generalizing p with
  | leaf j a =>
    obtain rfl := List.mem_singleton.1 hi
    exact absurd h.isLeaf_leaf hleaf
  | node j b l r ihl ihr =>
    have hleft := h.left_eq
    have hright := h.right_eq
    obtain ⟨-, hl, hr⟩ := h
    rw [names, List.nodup_cons, List.nodup_append] at hn
    obtain ⟨-, hnl, hnr, hlr⟩ := hn
    rw [names, List.mem_cons, List.mem_append] at hi
    rcases hi with rfl | hi | hi
    · rw [hleft, hright]
      exact ⟨hlr _ l.name_mem_names _ r.name_mem_names, Links.parent hl, Links.parent hr⟩
    · exact ihl hl hnl hi
    · exact ihr hr hnr hi

theorem Holds.children (h : t.Holds T D) (hi : t.Reaches i) (hleaf : ¬(t.node i).IsLeaf) :
    (t.node i).left ≠ (t.node i).right ∧
      (t.node (t.node i).left).parent = i ∧ (t.node (t.node i).right).parent = i := by
  have hmem := (reaches_iff h).1 hi
  cases T with
  | none => exact absurd hmem List.not_mem_nil
  | some τ => exact h.rooted.2.children (List.nodup_append.1 h.nodup).1 hmem hleaf

end DynamicAABBTree

/-! ### The representation invariant -/

open DynamicAABBTree

namespace TrackedTree

variable {K : Type*}

/-- The nodes of a pool and the links between them. -/
structure Consistent (s : TrackedTree K) : Prop where
  nodesSize : s.tree.nodes.size = s.tree.size
  /-- Every index is either on the free list or at the end of exactly one path. -/
  pool : ∃ free : List ℤ, FreeChain s.tree.node s.tree.freeList free ∧ free.Nodup ∧
    (∀ i ∈ free, 0 ≤ i ∧ i < s.tree.size) ∧
    ∀ i, 0 ≤ i → i < s.tree.size →
      (i ∈ free ∧ ¬s.tree.Reaches i) ∨ (i ∉ free ∧ ∃! p, s.tree.nodeAt p = some i)
  inRange : ∀ i, s.tree.Reaches i → 0 ≤ i ∧ i < s.tree.size
  root : s.tree.root ≠ Null → (s.tree.node s.tree.root).parent = Null
  branch : ∀ i, s.tree.Reaches i → ¬(s.tree.node i).IsLeaf →
    (s.tree.node i).left ≠ (s.tree.node i).right ∧
      s.tree.Reaches (s.tree.node i).left ∧ s.tree.Reaches (s.tree.node i).right ∧
      (s.tree.node (s.tree.node i).left).parent = i ∧
      (s.tree.node (s.tree.node i).right).parent = i
  leaf : ∀ i, s.tree.Reaches i → (s.tree.node i).IsLeaf →
    (s.given i).isSome ∧ (s.tree.node i).height = 0
  /-- `count_` is the number of reached nodes. -/
  count : ∃ reached : List ℤ, reached.Nodup ∧ (∀ i, i ∈ reached ↔ s.tree.Reaches i) ∧
    s.tree.count = reached.length

variable [LinearOrder K] {s : TrackedTree K} {T : Option (BoxTree K)}

theorem Tracks.consistent (h : s.Tracks T) : s.Consistent := by
  have hh := h.holds
  obtain ⟨free, hchain, hpart⟩ := hh.pool
  rw [List.append_nil] at hpart
  obtain ⟨hnt, hnf, hdisj⟩ := List.nodup_append.1 hpart.nodup
  have hcount := hh.count
  rw [List.append_nil] at hcount
  have hreach : ∀ i, s.tree.Reaches i ↔ i ∈ treeNames T := fun i => reaches_iff hh
  refine ⟨hh.nodesSize, ⟨free, hchain, hnf, fun i hi => ?_, fun i h0 hlt => ?_⟩, fun i hi => ?_,
    hh.parent_root, fun i hi hleaf => ?_, fun i hi hleaf => ?_,
    ⟨treeNames T, hnt, fun i => (hreach i).symm, hcount⟩⟩
  · exact (hpart.mem_iff i).1 (List.mem_append_right _ hi)
  · rcases List.mem_append.1 ((hpart.mem_iff i).2 ⟨h0, hlt⟩) with hi | hi
    · exact .inr ⟨fun hf => hdisj i hi i hf rfl, hh.existsUnique_nodeAt hi⟩
    · exact .inl ⟨hi, fun hr => hdisj i ((hreach i).1 hr) i hi rfl⟩
  · exact (hpart.mem_iff i).1 (List.mem_append_left _ ((hreach i).1 hi))
  · obtain ⟨hne, hleft, hright⟩ := hh.children hi hleaf
    exact ⟨hne, .left hi hleaf, .right hi hleaf, hleft, hright⟩
  · obtain ⟨a, ha⟩ := (liveLeaf_iff hh).1 ⟨hi, hleaf⟩
    exact ⟨(h.live i).2 ⟨a, ha⟩, (hh.isLeafOf ha).fresh.2⟩

variable [Field K] [IsStrictOrderedRing K]

/-- **The representation invariant.**  In every state of every run from a fresh tree each index
is on the free list or reached from the root by exactly one path, the parent links are the child
links backwards, the leaves are the live ids, and `count_` counts the reached nodes. -/
theorem consistent_run {size : ℤ} (hsize : 1 ≤ size) {es : List (TrackedTree K × TreeCall K)}
    (h : (treeSystem K).Run (freshTree size) es s) : s.Consistent := by
  obtain ⟨T, hT⟩ := tracked_run hsize h
  exact hT.consistent

/-- The second insertion finds the pool full; one of three leaves gets another box, and one goes. -/
theorem consistent_run_five : ∃ es s, (treeSystem ℚ).Run (freshTree 1) es s ∧ es.length = 5 ∧
    s.tree.root = 4 ∧ s.Consistent := by
  obtain ⟨s, hrun, hs⟩ := exists_run (freshTree 1 : TrackedTree ℚ)
    [.insert ⟨⟨0, 0⟩, ⟨1, 1⟩⟩ 7 0, .insert ⟨⟨20, 20⟩, ⟨21, 21⟩⟩ 8 1,
      .insert ⟨⟨40, 0⟩, ⟨41, 1⟩⟩ 9 3, .update 0 ⟨⟨50, 50⟩, ⟨51, 51⟩⟩ true, .remove 1]
    (fun s => s.tree.root = 4) (by decide +kernel)
  exact ⟨_, s, hrun, by decide +kernel, of_decide_eq_true hs, consistent_run le_rfl hrun⟩

end TrackedTree

end ClientServer
