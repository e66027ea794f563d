import ClientServer.AABBTree.Balance

/-!
# The node pool

Every index below `size` is in exactly one of three places: in the tree, detached from it (a
node that an operation holds between two steps) or on the free list.

* `FreeChain node i free` : the free nodes, in the order of their `next` links from `i`.
* `Holds t T D` : the pool of `t` holds the tree `T`, the detached nodes `D`, and nothing else.
* `Holds.construct`, `Holds.allocateNode`, `Holds.deallocateNode` : what the pool operations do,
  growth included.
-/

namespace ClientServer

open BinTree BoxTree

variable {K : Type*}

/-! ### Chains of free nodes -/

/-- The free nodes in the order of their links: `i` is the first, `Null` ends the chain. -/
def FreeChain (node : ℤ → Node K) : ℤ → List ℤ → Prop
  | i, [] => i = Null
  | i, j :: js => i = j ∧ (node j).height = Null ∧ FreeChain node (node j).next js

theorem FreeChain.congr {node node' : ℤ → Node K} {i : ℤ} {js : List ℤ}
    (h : FreeChain node i js) (hc : ∀ j ∈ js, node' j = node j) : FreeChain node' i js := by
  induction js generalizing i with
  | nil => exact h
  | cons j js ih =>
    obtain ⟨hi, hj, hjs⟩ := h
    have hnj := hc j List.mem_cons_self
    refine ⟨hi, hnj ▸ hj, ?_⟩
    rw [hnj]
    exact ih hjs fun k hk => hc k (List.mem_cons_of_mem _ hk)

/-- `i, i + 1, …`, `n` of them. -/
def ascending (i : ℤ) : ℕ → List ℤ
  | 0 => []
  | n + 1 => i :: ascending (i + 1) n

theorem mem_ascending {i j : ℤ} {n : ℕ} : j ∈ ascending i n ↔ i ≤ j ∧ j < i + n := by
  induction n generalizing i with
  | zero => simp only [ascending, List.not_mem_nil, false_iff, Nat.cast_zero]; omega
  | succ n ih => simp only [ascending, List.mem_cons, ih]; omega

theorem nodup_ascending (i : ℤ) (n : ℕ) : (ascending i n).Nodup := by
  induction n generalizing i with
  | zero => exact List.nodup_nil
  | succ n ih =>
    refine List.nodup_cons.2 ⟨fun h => ?_, ih _⟩
    rw [mem_ascending] at h
    omega

@[simp] theorem length_ascending (i : ℤ) (n : ℕ) : (ascending i n).length = n := by
  induction n generalizing i with
  | zero => rfl
  | succ n ih => rw [ascending, List.length_cons, ih]

/-- The list has every index below `n` exactly once. -/
structure Partition (is : List ℤ) (n : ℤ) : Prop where
  nodup : is.Nodup
  mem_iff : ∀ i, i ∈ is ↔ 0 ≤ i ∧ i < n

namespace Partition

variable {is js : List ℤ} {n : ℤ}

theorem perm (h : Partition is n) (hp : is.Perm js) : Partition js n :=
  ⟨hp.nodup_iff.1 h.nodup, fun i => hp.mem_iff.symm.trans (h.mem_iff i)⟩

theorem nonNeg (h : Partition is n) : DynamicAABBTree.NonNeg is :=
  fun i hi => ((h.mem_iff i).1 hi).1

theorem ascending {n : ℕ} : Partition (ascending 0 n) n :=
  ⟨nodup_ascending 0 n, fun i => by rw [mem_ascending, zero_add]⟩

theorem length (h : Partition is n) (hn : 0 ≤ n) : (is.length : ℤ) = n := by
  obtain ⟨k, rfl⟩ := Int.eq_ofNat_of_zero_le hn
  have hp : is.Perm (ClientServer.ascending 0 k) :=
    (List.perm_ext_iff_of_nodup h.nodup (nodup_ascending 0 k)).2 fun i => by
      rw [h.mem_iff, mem_ascending, zero_add]
  rw [hp.length_eq, length_ascending]

theorem append_ascending {m : ℤ} (h : Partition is m) (hm : 0 ≤ m) (hmn : m ≤ n) :
    Partition (is ++ ClientServer.ascending m (n - m).toNat) n := by
  refine ⟨List.nodup_append.2 ⟨h.nodup, nodup_ascending _ _, fun i hi j hj => ?_⟩, fun i => ?_⟩
  · rw [h.mem_iff] at hi
    rw [mem_ascending] at hj
    omega
  · rw [List.mem_append, h.mem_iff, mem_ascending]
    omega

end Partition

namespace DynamicAABBTree

/-! ### `AddToFreeList` -/

theorem node_addToFreeListLoop (t : DynamicAABBTree K) (n : ℕ) (i j : ℤ) :
    (t.addToFreeListLoop n i).node j =
      if i ≤ j ∧ j < i + n then { t.node j with parent := j + 1, height := Null }
      else t.node j := by
  induction n generalizing t i with
  | zero => rw [addToFreeListLoop, if_neg (by omega)]
  | succ n ih =>
    rw [addToFreeListLoop, ih, node_modify]
    by_cases hj : j = i
    · rw [if_neg (by omega), if_pos hj, if_pos (by omega), hj]
    · rw [if_neg hj]
      exact if_congr (by omega) rfl rfl

theorem sameShell_addToFreeListLoop (t : DynamicAABBTree K) (n : ℕ) (i : ℤ) :
    SameShell t (t.addToFreeListLoop n i) := by
  induction n generalizing t i with
  | zero => exact .refl t
  | succ n ih => exact (SameShell.refl t).modify.trans (ih _ _)

theorem root_addToFreeListLoop (t : DynamicAABBTree K) (n : ℕ) (i : ℤ) :
    (t.addToFreeListLoop n i).root = t.root := by
  induction n generalizing t i with
  | zero => rfl
  | succ n ih => exact ih _ _

section AddToFreeList

variable (t : DynamicAABBTree K) {index : ℤ}

theorem size_addToFreeList : (t.addToFreeList index).size = t.size :=
  (t.sameShell_addToFreeListLoop _ _).size

theorem count_addToFreeList : (t.addToFreeList index).count = t.count :=
  (t.sameShell_addToFreeListLoop _ _).count

theorem nodesSize_addToFreeList : (t.addToFreeList index).nodes.size = t.nodes.size :=
  (t.sameShell_addToFreeListLoop _ _).nodesSize

theorem root_addToFreeList : (t.addToFreeList index).root = t.root :=
  t.root_addToFreeListLoop _ _

/-- The nodes from `index` on are free, each linked to the next. -/
theorem node_addToFreeList (h : index < t.size) (j : ℤ) :
    (t.addToFreeList index).node j =
      if index ≤ j ∧ j < t.size then
        { t.node j with parent := if j = t.size - 1 then Null else j + 1, height := Null }
      else t.node j := by
  have hloop := t.node_addToFreeListLoop (t.size - 1 - index).toNat index
  have hsize := (t.sameShell_addToFreeListLoop (t.size - 1 - index).toNat index).size
  have hlast : (t.addToFreeList index).node j =
      ((t.addToFreeListLoop (t.size - 1 - index).toNat index).modify
        ((t.addToFreeListLoop (t.size - 1 - index).toNat index).size - 1)
        fun x => { x with parent := Null, height := Null }).node j := rfl
  rw [hlast, node_modify, hsize, hloop, hloop]
  by_cases hj : j = t.size - 1
  · rw [if_pos hj, if_neg (by omega), if_pos (by omega), if_pos hj, hj]
  · rw [if_neg hj, if_neg hj]
    exact if_congr (by omega) rfl rfl

theorem freeChain_addToFreeList (h : index < t.size) :
    FreeChain (t.addToFreeList index).node index (ascending index (t.size - index).toNat) := by
  suffices hs : ∀ (n : ℕ) (i : ℤ), index ≤ i → i + n = t.size →
      FreeChain (t.addToFreeList index).node (if n = 0 then Null else i) (ascending i n) by
    have := hs (t.size - index).toNat index le_rfl (by omega)
    rwa [if_neg (by omega)] at this
  intro n
  induction n with
  | zero => exact fun i _ _ => if_pos rfl
  | succ n ih =>
    intro i hi hn
    have hnode := t.node_addToFreeList h i
    rw [if_pos (by omega)] at hnode
    refine ⟨if_neg (by omega), by rw [hnode], ?_⟩
    have hlast : (if n = 0 then Null else i + 1) = if i = t.size - 1 then Null else i + 1 :=
      if_congr (by omega) rfl rfl
    rw [hnode]
    exact hlast ▸ ih (i + 1) (by omega) (by omega)

end AddToFreeList

/-! ### The state of the pool -/

/-- The nodes of a tree that may be empty. -/
def treeNames : Option (BoxTree K) → List ℤ
  | none => []
  | some τ => τ.names

/-- The leaves of a tree that may be empty. -/
def treeLeaves : Option (BoxTree K) → List (ℤ × LeafData K)
  | none => []
  | some τ => τ.leaves

/-- The root link leads to the tree. -/
def Rooted (t : DynamicAABBTree K) : Option (BoxTree K) → Prop
  | none => t.root = Null
  | some τ => t.root = τ.name ∧ t.Links Null τ

theorem rooted_congr {t t' : DynamicAABBTree K} {T : Option (BoxTree K)} (h : t.Rooted T)
    (hroot : t'.root = t.root) (hnode : ∀ j ∈ treeNames T, t'.node j = t.node j) :
    t'.Rooted T := by
  cases T with
  | none => exact hroot.trans h
  | some τ => exact ⟨hroot.trans h.1, h.2.congr hnode⟩

/-- The pool of `t` holds the tree `T`, the detached nodes `D` and otherwise free nodes. -/
structure Holds (t : DynamicAABBTree K) (T : Option (BoxTree K)) (D : List ℤ) : Prop where
  rooted : t.Rooted T
  pool : ∃ free, FreeChain t.node t.freeList free ∧ Partition (treeNames T ++ D ++ free) t.size
  count : t.count = (treeNames T ++ D).length
  size_pos : 0 < t.size
  nodesSize : t.nodes.size = t.size

namespace Holds

variable {t : DynamicAABBTree K} {T : Option (BoxTree K)} {D : List ℤ}

theorem nodup (h : t.Holds T D) : (treeNames T ++ D).Nodup := by
  obtain ⟨free, -, hpart⟩ := h.pool
  exact (List.nodup_append.1 hpart.nodup).1

theorem nonNeg (h : t.Holds T D) : NonNeg (treeNames T ++ D) := by
  obtain ⟨free, -, hpart⟩ := h.pool
  exact hpart.nonNeg.of_append_left

theorem lt_size (h : t.Holds T D) {i : ℤ} (hi : i ∈ treeNames T ++ D) : i < t.size := by
  obtain ⟨free, -, hpart⟩ := h.pool
  exact ((hpart.mem_iff i).1 (List.mem_append_left _ hi)).2

theorem length_names_le (h : t.Holds T D) : (treeNames T).length ≤ t.size.toNat := by
  obtain ⟨free, -, hpart⟩ := h.pool
  have hlen := hpart.length h.size_pos.le
  simp only [List.length_append] at hlen
  omega

theorem pool_full (h : t.Holds T D) (hf : t.freeList = Null) :
    Partition (treeNames T ++ D) t.size := by
  obtain ⟨free, hchain, hpart⟩ := h.pool
  cases free with
  | nil => rwa [List.append_nil] at hpart
  | cons i is => exact absurd (hchain.1.symm.trans hf) (hpart.nonNeg.ne_null (by simp))

theorem count_eq_size (h : t.Holds T D) (hf : t.freeList = Null) : t.count = t.size :=
  h.count.trans ((h.pool_full hf).length h.size_pos.le)

/-- Changing the nodes of the tree and some detached nodes `E`: if these are the nodes of a new
tree and other detached nodes, the pool holds that. -/
theorem restructure {t' : DynamicAABBTree K} {T' : Option (BoxTree K)} {D' : List ℤ}
    (h : t.Holds T D) (hshell : SameShell t t') (hrooted : t'.Rooted T')
    (hperm : (treeNames T' ++ D').Perm (treeNames T ++ D))
    (hframe : ∀ j ∉ treeNames T ++ D, t'.node j = t.node j) : t'.Holds T' D' := by
  obtain ⟨free, hchain, hpart⟩ := h.pool
  refine ⟨hrooted, ⟨free, ?_, ?_⟩, ?_, hshell.size ▸ h.size_pos, ?_⟩
  · rw [hshell.freeList]
    refine hchain.congr fun j hj => hframe j fun hmem => ?_
    exact (List.nodup_append.1 hpart.nodup).2.2 _ hmem _ hj rfl
  · rw [hshell.size]
    exact hpart.perm (hperm.symm.append_right free)
  · rw [hshell.count, h.count, hperm.length_eq]
  · rw [hshell.nodesSize, hshell.size, h.nodesSize]

end Holds

variable {t : DynamicAABBTree K} {T : Option (BoxTree K)} {D : List ℤ}

section Construct

variable [Zero K]

theorem Holds.construct {size : ℤ} (h : 1 ≤ size) :
    (DynamicAABBTree.construct size 0 : DynamicAABBTree K).Holds none [] := by
  obtain ⟨n, rfl⟩ := Int.eq_ofNat_of_zero_le (by omega : 0 ≤ size)
  set t₀ : DynamicAABBTree K := ⟨Null, Null, n, 0, Store.replicate n Node.zero⟩ with ht₀
  have hsize : (DynamicAABBTree.construct n 0 : DynamicAABBTree K).size = n :=
    t₀.size_addToFreeList
  refine ⟨t₀.root_addToFreeList, ⟨ascending 0 n, ?_, ?_⟩, t₀.count_addToFreeList, ?_,
    t₀.nodesSize_addToFreeList.trans hsize.symm⟩
  · have hchain : FreeChain (t₀.addToFreeList 0).node 0 (ascending 0 (t₀.size - 0).toNat) :=
      t₀.freeChain_addToFreeList (by rw [ht₀]; dsimp only; omega)
    rwa [show (t₀.size - 0).toNat = n by rw [ht₀]; simp] at hchain
  · rw [hsize]
    exact Partition.ascending
  · rw [hsize]
    omega

/-- Growing a full pool doubles it and keeps every node. -/
theorem Holds.grow (h : t.Holds T D) (hf : t.freeList = Null) :
    t.grow.Holds T D ∧ t.grow.freeList ≠ Null ∧
      ∀ j ∈ treeNames T ++ D, t.grow.node j = t.node j := by
  have hcount := h.count_eq_size hf
  have hpos := h.size_pos
  set t₀ : DynamicAABBTree K :=
    { t with size := t.size * 2, nodes := t.nodes.resize (t.size * 2) Node.zero } with ht₀
  have hlt : t.count < t₀.size := by rw [hcount, ht₀]; dsimp only; omega
  have hnode : ∀ j ∈ treeNames T ++ D, t.grow.node j = t.node j := by
    intro j hj
    have hjs := h.lt_size hj
    refine (t₀.node_addToFreeList hlt j).trans ?_
    rw [if_neg (by omega)]
    exact t.nodes.cell_resize_of_lt (h.nodesSize ▸ hjs)
  have hsize : t.grow.size = t.size * 2 := t₀.size_addToFreeList
  refine ⟨⟨?_, ⟨ascending t.count (t₀.size - t.count).toNat, t₀.freeChain_addToFreeList hlt, ?_⟩,
    t₀.count_addToFreeList.trans h.count, by omega,
    t₀.nodesSize_addToFreeList.trans t₀.size_addToFreeList.symm⟩, ?_, hnode⟩
  · exact rooted_congr h.rooted t₀.root_addToFreeList fun j hj =>
      hnode j (List.mem_append_left _ hj)
  · rw [hsize, hcount]
    exact (h.pool_full hf).append_ascending h.size_pos.le (by omega)
  · change t.count ≠ Null
    exact ne_null_of_nonneg (by omega)

end Construct

theorem treeNames_append_cons_perm (i : ℤ) (is : List ℤ) :
    (treeNames T ++ i :: D ++ is).Perm (treeNames T ++ D ++ i :: is) := by
  rw [List.append_assoc, List.append_assoc]
  exact List.perm_middle.symm.append_left _

theorem node_takeFree (t : DynamicAABBTree K) (j : ℤ) :
    t.takeFree.1.node j = if j = t.freeList then
      { t.node j with parent := Null, left := -1, right := Null, height := 0 } else t.node j := by
  simp only [takeFree, modify, node, Store.cell_modify]
  split_ifs with hj
  · rw [hj]
  · rfl

theorem node_deallocateNode (t : DynamicAABBTree K) (i j : ℤ) :
    (t.deallocateNode i).node j =
      if j = i then { t.node j with parent := t.freeList, height := Null } else t.node j := by
  simp only [deallocateNode, modify, node, Store.cell_modify]
  split_ifs with hj
  · rw [hj]
  · rfl

/-- A node fresh from the pool is a leaf. -/
def Fresh (t : DynamicAABBTree K) (i : ℤ) : Prop :=
  (t.node i).right = Null ∧ (t.node i).height = 0

theorem Holds.takeFree (h : t.Holds T D) (hf : t.freeList ≠ Null) :
    t.takeFree.1.Holds T (t.takeFree.2 :: D) ∧ t.takeFree.2 ∉ treeNames T ++ D ∧
      t.takeFree.1.Fresh t.takeFree.2 ∧
      ∀ j ∈ treeNames T ++ D, t.takeFree.1.node j = t.node j := by
  obtain ⟨free, hchain, hpart⟩ := h.pool
  cases free with
  | nil => exact absurd hchain hf
  | cons i is =>
    obtain ⟨hi, -, hchain⟩ := hchain
    change t.takeFree.1.Holds T (t.freeList :: D) ∧ t.freeList ∉ treeNames T ++ D ∧
      t.takeFree.1.Fresh t.freeList ∧ ∀ j ∈ treeNames T ++ D, t.takeFree.1.node j = t.node j
    rw [hi]
    have hself : t.takeFree.1.node i =
        { t.node i with parent := Null, left := -1, right := Null, height := 0 } := by
      rw [node_takeFree, if_pos hi.symm]
    have hnode : ∀ j, j ≠ i → t.takeFree.1.node j = t.node j := fun j hj => by
      rw [node_takeFree, hi, if_neg hj]
    have hnotin : i ∉ treeNames T ++ D := fun hmem =>
      (List.nodup_append.1 hpart.nodup).2.2 _ hmem _ List.mem_cons_self rfl
    have hframe : ∀ j ∈ treeNames T ++ D, t.takeFree.1.node j = t.node j := fun j hj =>
      hnode j (ne_of_mem_of_not_mem hj hnotin)
    refine ⟨⟨?_, ⟨is, ?_, hpart.perm (treeNames_append_cons_perm i is).symm⟩, ?_, h.size_pos,
      h.nodesSize⟩, hnotin, ⟨by rw [hself], by rw [hself]⟩, hframe⟩
    · exact rooted_congr h.rooted rfl fun j hj => hframe j (List.mem_append_left _ hj)
    · have hnext : t.takeFree.1.freeList = (t.node i).next := by rw [← hi]; rfl
      rw [hnext]
      refine hchain.congr fun j hj => hnode j ?_
      rintro rfl
      exact (List.nodup_cons.1 (List.nodup_append.1 hpart.nodup).2.1).1 hj
    · change t.count + 1 = _
      rw [h.count]
      simp only [List.length_append, List.length_cons]
      omega

/-- `AllocateNode` detaches a fresh node and keeps all nodes in use, growing the pool when it
is full. -/
theorem Holds.allocateNode [Zero K] (h : t.Holds T D) :
    t.allocateNode.1.Holds T (t.allocateNode.2 :: D) ∧ t.allocateNode.2 ∉ treeNames T ++ D ∧
      t.allocateNode.1.Fresh t.allocateNode.2 ∧
      ∀ j ∈ treeNames T ++ D, t.allocateNode.1.node j = t.node j := by
  by_cases hf : t.freeList = Null
  · obtain ⟨hg, hgf, hframe⟩ := h.grow hf
    obtain ⟨hh, hnot, hfresh, hframe'⟩ := hg.takeFree hgf
    rw [DynamicAABBTree.allocateNode, if_pos hf]
    exact ⟨hh, hnot, hfresh, fun j hj => (hframe' j hj).trans (hframe j hj)⟩
  · rw [DynamicAABBTree.allocateNode, if_neg hf]
    exact h.takeFree hf

theorem Holds.deallocateNode {i : ℤ} (h : t.Holds T (i :: D)) :
    (t.deallocateNode i).Holds T D ∧ ∀ j, j ≠ i → (t.deallocateNode i).node j = t.node j := by
  obtain ⟨free, hchain, hpart⟩ := h.pool
  have hperm := treeNames_append_cons_perm (T := T) (D := D) i free
  have hn := (hpart.perm (hperm.trans List.perm_middle)).nodup
  rw [List.nodup_cons, List.mem_append, List.mem_append, not_or, not_or] at hn
  have hnode : ∀ j, j ≠ i → (t.deallocateNode i).node j = t.node j := fun j hj => by
    rw [node_deallocateNode, if_neg hj]
  have hself : (t.deallocateNode i).node i =
      { t.node i with parent := t.freeList, height := Null } := by
    rw [node_deallocateNode, if_pos rfl]
  refine ⟨⟨?_, ⟨i :: free, ⟨rfl, by rw [hself], ?_⟩, hpart.perm hperm⟩, ?_, h.size_pos,
    h.nodesSize⟩, hnode⟩
  · exact rooted_congr h.rooted rfl fun j hj => hnode j (ne_of_mem_of_not_mem hj hn.1.1.1)
  · rw [hself]
    exact hchain.congr fun j hj => hnode j (ne_of_mem_of_not_mem hj hn.1.2)
  · change t.count - 1 = _
    rw [h.count]
    simp only [List.length_append, List.length_cons]
    omega

end DynamicAABBTree

end ClientServer
