import ClientServer.AABBTree.Pool
import ClientServer.LTS.Run
import Mathlib.Algebra.Order.Field.Rat

/-!
# Calls of the node pool

The pool by itself: `AllocateNode`, `AllocateLeafNode` and `DeallocateNode` in any order, on the
state that the constructor leaves, which does not set `count_`.  `AllocateLeafNode` grows the pool
like `AllocateNode`, but resizes `nodes_` to `count_` where `size_` is meant.

* `poolSystem` : the calls, and what the owners of the nodes write in between.
* `TrackedPool.Sound` : no node is handed out twice, none is lost, and growth changes none.
* `TrackedPool.sound_run_iff` : **exactly when the pool is sound**, over every run.
-/

namespace ClientServer

open DynamicAABBTree

/-- A pool with the indices in use, and what their owners have in them. -/
structure TrackedPool (K : Type*) where
  tree : DynamicAABBTree K
  inUse : List ℤ
  content : ℤ → Node K

/-- A call and what it returned, or an assignment to a node by its owner. -/
inductive PoolCall (K : Type*)
  | allocateNode (id : ℤ)
  | allocateLeafNode (box : AABB2 K) (id : ℤ)
  | deallocateNode (id : ℤ)
  | assign (id : ℤ) (n : Node K)

/-- Allocations, and deallocations of indices in use. -/
def poolSystem (K : Type*) [Zero K] : LTS (TrackedPool K) (PoolCall K) where
  step s call s' :=
    match call with
    | .allocateNode id =>
      s.tree.allocateNode = (s'.tree, id) ∧ s'.inUse = id :: s.inUse ∧
        s'.content = Function.update s.content id (s'.tree.node id)
    | .allocateLeafNode box id =>
      s.tree.allocateLeafNode box = (s'.tree, id) ∧ s'.inUse = id :: s.inUse ∧
        s'.content = Function.update s.content id (s'.tree.node id)
    | .deallocateNode id =>
      id ∈ s.inUse ∧ s'.tree = s.tree.deallocateNode id ∧ s'.inUse = s.inUse.erase id ∧
        s'.content = s.content
    | .assign id n =>
      id ∈ s.inUse ∧ s'.tree = s.tree.modify id (fun _ => n) ∧ s'.inUse = s.inUse ∧
        s'.content = Function.update s.content id n

/-- The state after the constructor: `count_` holds any value. -/
def freshPool {K : Type*} [Zero K] (size count : ℤ) : TrackedPool K :=
  ⟨construct size count, [], fun _ => Node.zero⟩

theorem step_allocateNode {K : Type*} [Zero K] {s : TrackedPool K} {t : DynamicAABBTree K} {id : ℤ}
    (h : s.tree.allocateNode = (t, id)) : (poolSystem K).step s (.allocateNode id)
      ⟨t, id :: s.inUse, Function.update s.content id (t.node id)⟩ := ⟨h, rfl, rfl⟩

theorem step_allocateLeafNode {K : Type*} [Zero K] {s : TrackedPool K} {t : DynamicAABBTree K}
    {box : AABB2 K} {id : ℤ} (h : s.tree.allocateLeafNode box = (t, id)) :
    (poolSystem K).step s (.allocateLeafNode box id)
      ⟨t, id :: s.inUse, Function.update s.content id (t.node id)⟩ := ⟨h, rfl, rfl⟩

/-- `AllocateLeafNode` finds a free node. -/
def PoolCall.Fits {K : Type*} (s : TrackedPool K) : PoolCall K → Prop
  | .allocateLeafNode _ _ => s.tree.freeList ≠ Null
  | _ => True

namespace TrackedPool

variable {K : Type*} {s s' : TrackedPool K} {call : PoolCall K}

/-- Every index in use is one of a node and was handed out once, every other index is on the free
list once, `nodes_` has `size_` nodes, those in use have kept what is in them, and `count_` is
their number. -/
structure Sound (s : TrackedPool K) : Prop where
  lt_size : ∀ i ∈ s.inUse, 0 ≤ i ∧ i < s.tree.nodes.size
  nodup : s.inUse.Nodup
  nodesSize : s.tree.nodes.size = s.tree.size
  content : ∀ i ∈ s.inUse, s.tree.node i = s.content i
  free : ∃ free, FreeChain s.tree.node s.tree.freeList free ∧ free.Nodup ∧
    ∀ i, i ∈ free ↔ (0 ≤ i ∧ i < s.tree.size) ∧ i ∉ s.inUse
  count : s.tree.count = s.inUse.length

/-- The invariant: the nodes in use are the detached nodes of a pool without a tree. -/
structure Tracks (s : TrackedPool K) : Prop where
  holds : s.tree.Holds none s.inUse
  content : ∀ i ∈ s.inUse, s.tree.node i = s.content i

theorem Tracks.sound (h : s.Tracks) : s.Sound := by
  obtain ⟨free, hchain, hpart⟩ := h.holds.pool
  have hnodup : s.inUse.Nodup ∧ free.Nodup ∧ ∀ i ∈ s.inUse, ∀ j ∈ free, i ≠ j :=
    List.nodup_append.1 hpart.nodup
  have hmem : ∀ i, i ∈ s.inUse ∨ i ∈ free ↔ 0 ≤ i ∧ i < s.tree.size := fun i =>
    List.mem_append.symm.trans (hpart.mem_iff i)
  refine ⟨fun i hi => ?_, hnodup.1, h.holds.nodesSize, h.content, ⟨free, hchain, hnodup.2.1, ?_⟩,
    h.holds.count⟩
  · rw [h.holds.nodesSize]
    exact (hmem i).1 (.inl hi)
  · intro i
    rw [← hmem i]
    exact ⟨fun hi => ⟨.inr hi, fun hu => hnodup.2.2 i hu i hi rfl⟩, fun hi => hi.1.resolve_left hi.2⟩

theorem Tracks.take {id : ℤ} (h : s.Tracks) (hs' : s'.tree.Holds none (id :: s.inUse))
    (hid : id ∉ s.inUse) (hframe : ∀ j ∈ s.inUse, s'.tree.node j = s.tree.node j)
    (hinUse : s'.inUse = id :: s.inUse)
    (hcontent : s'.content = Function.update s.content id (s'.tree.node id)) : s'.Tracks := by
  refine ⟨hinUse ▸ hs', ?_⟩
  rw [hinUse, hcontent, List.forall_mem_cons, Function.update_self]
  refine ⟨rfl, fun j hj => ?_⟩
  rw [Function.update_of_ne (ne_of_mem_of_not_mem hj hid), hframe j hj, h.content j hj]

variable [Zero K]

theorem Tracks.fresh {size : ℤ} (h : 1 ≤ size) : (freshPool size 0 : TrackedPool K).Tracks :=
  ⟨Holds.construct h, fun _ hi => absurd hi List.not_mem_nil⟩

theorem Tracks.step (h : s.Tracks) (hstep : (poolSystem K).step s call s') (hfits : call.Fits s) :
    s'.Tracks := by
  cases call with
  | allocateNode id =>
    obtain ⟨hcall, hinUse, hcontent⟩ := hstep
    obtain ⟨ht, hid, -, hframe⟩ := h.holds.allocateNode
    rw [hcall] at ht hid hframe
    exact h.take ht hid hframe hinUse hcontent
  | allocateLeafNode box id =>
    obtain ⟨hcall, hinUse, hcontent⟩ := hstep
    obtain ⟨ht, hid, -, hframe⟩ := h.holds.takeFree hfits
    rw [allocateLeafNode, if_neg hfits] at hcall
    rw [hcall] at ht hid hframe
    exact h.take ht hid hframe hinUse hcontent
  | deallocateNode id =>
    obtain ⟨tree', inUse', content'⟩ := s'
    obtain ⟨hid, rfl, rfl, rfl⟩ := hstep
    have hperm : s.inUse.Perm (id :: s.inUse.erase id) := List.perm_cons_erase hid
    have hdetached : s.tree.Holds none (id :: s.inUse.erase id) :=
      h.holds.restructure (.refl _) h.holds.rooted hperm.symm fun _ _ => rfl
    obtain ⟨ht, hframe⟩ := hdetached.deallocateNode
    refine ⟨ht, fun j hj => ?_⟩
    have hne : j ≠ id := by
      rintro rfl
      exact (List.nodup_cons.1 (hperm.nodup_iff.1 h.sound.nodup)).1 hj
    exact (hframe j hne).trans (h.content j (List.mem_of_mem_erase hj))
  | assign id n =>
    obtain ⟨tree', inUse', content'⟩ := s'
    obtain ⟨hid, rfl, rfl, rfl⟩ := hstep
    refine ⟨h.holds.restructure (SameShell.refl _).modify h.holds.rooted (.refl _) fun j hj => ?_,
      fun j hj => ?_⟩
    · exact s.tree.node_modify_of_ne _ fun heq => hj (heq ▸ hid)
    · change (s.tree.modify id fun _ => n).node j = Function.update s.content id n j
      rw [node_modify, Function.update_apply, h.content j hj]

/-- Without a free node `AllocateLeafNode` leaves `nodes_` at its size. -/
theorem Tracks.fits_of_sound (h : s.Tracks) (hstep : (poolSystem K).step s call s')
    (hsound : s'.Sound) : call.Fits s := by
  cases call with
  | allocateLeafNode box id =>
    intro hf
    have hcall : s.tree.growLeaf.takeFree = (s'.tree, id) := by
      have h₁ := hstep.1
      rwa [allocateLeafNode, if_pos hf] at h₁
    have hcount := h.holds.count_eq_size hf
    have hpos := h.holds.size_pos
    have hnodes : s'.tree.nodes.size = s.tree.count := by
      rw [show s'.tree = s.tree.growLeaf.takeFree.1 by rw [hcall]]
      exact nodesSize_addToFreeList _
    have hsize : s'.tree.size = s.tree.size * 2 := by
      rw [show s'.tree = s.tree.growLeaf.takeFree.1 by rw [hcall]]
      exact size_addToFreeList _
    have heq := hsound.nodesSize
    omega
  | allocateNode | deallocateNode | assign => trivial

/-- **When the pool is sound.**  In every state of a run from the constructor: iff `count_` was
`0` there and `AllocateLeafNode` is only called while there is a free node. -/
theorem sound_run_iff {size count : ℤ} (hsize : 1 ≤ size)
    {es : List (TrackedPool K × PoolCall K)}
    (h : (poolSystem K).Run (freshPool size count) es s) :
    LTS.Always Sound es s ↔ count = 0 ∧ ∀ e ∈ es, e.2.Fits e.1 := by
  by_cases hcount : count = 0
  · subst hcount
    rw [and_iff_right rfl]
    exact h.always_iff (I := Tracks) (C := fun s call => call.Fits s) (Tracks.fresh hsize)
      (fun _ hs => hs.sound) (fun _ _ _ hs hstep hfits => hs.step hstep hfits)
      fun _ _ _ hs hstep hsound => hs.fits_of_sound hstep hsound
  · refine iff_of_false (fun halways => hcount ?_) fun hc => hcount hc.1
    have hstart := (h.of_always halways).count
    exact (count_addToFreeList _).symm.trans hstart

/-- The second node makes the pool grow. -/
theorem sound_run_iff_two_nodes : ∃ es s, (poolSystem ℚ).Run (freshPool 1 0) es s ∧
    es.length = 2 ∧ s.tree.size = 2 ∧ LTS.Always Sound es s := by
  obtain ⟨t, id, hfirst⟩ : ∃ t id, (freshPool (K := ℚ) 1 0).tree.allocateNode = (t, id) :=
    ⟨_, _, rfl⟩
  obtain ⟨t', id', hsecond⟩ : ∃ t' id', t.allocateNode = (t', id') := ⟨_, _, rfl⟩
  have hrun := (LTS.Run.start.snoc (step_allocateNode hfirst)).snoc (step_allocateNode hsecond)
  refine ⟨_, _, hrun, rfl, ?_, (sound_run_iff le_rfl hrun).2 ⟨rfl, by simp [PoolCall.Fits]⟩⟩
  have hsize : (freshPool (K := ℚ) 1 0).tree.allocateNode.1.allocateNode.1.size = 2 := by
    decide +kernel
  rwa [hfirst, hsecond] at hsize

/-- The second node is a leaf node: `nodes_` keeps one node, and node `1` is handed out. -/
theorem unsound_leaf_growth : ¬∀ (size count : ℤ) (es : List (TrackedPool ℚ × PoolCall ℚ))
    (s : TrackedPool ℚ), 1 ≤ size → (poolSystem ℚ).Run (freshPool size count) es s → s.Sound := by
  intro hall
  obtain ⟨t, id, hfirst⟩ : ∃ t id, (freshPool (K := ℚ) 1 0).tree.allocateNode = (t, id) :=
    ⟨_, _, rfl⟩
  obtain ⟨t', id', hsecond⟩ : ∃ t' id', t.allocateLeafNode ⟨⟨0, 0⟩, ⟨1, 1⟩⟩ = (t', id') :=
    ⟨_, _, rfl⟩
  have hrun := (LTS.Run.start.snoc (step_allocateNode hfirst)).snoc
    (step_allocateLeafNode hsecond)
  have hsize : ((freshPool (K := ℚ) 1 0).tree.allocateNode.1.allocateLeafNode
      ⟨⟨0, 0⟩, ⟨1, 1⟩⟩).2 = 1 := by decide +kernel
  have hnodes : ((freshPool (K := ℚ) 1 0).tree.allocateNode.1.allocateLeafNode
      ⟨⟨0, 0⟩, ⟨1, 1⟩⟩).1.nodes.size = 1 := by decide +kernel
  rw [hfirst, hsecond] at hsize hnodes
  have hlt := ((hall 1 0 _ _ le_rfl hrun).lt_size id' List.mem_cons_self).2
  rw [show id' = 1 from hsize, show t'.nodes.size = 1 from hnodes] at hlt
  exact absurd hlt (lt_irrefl _)

end TrackedPool

end ClientServer
