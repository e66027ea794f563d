import ClientServer.AABBTree.Leaf
import ClientServer.LTS.Run
import Mathlib.Algebra.Order.Field.Rat

/-!
# The tree as a finite map

Seen from outside a `DynamicAABBTree` is a finite map: `Insert` adds an id with its entity and
box, `Update` gives an id another box, `Remove` drops an id.  `TrackedTree` pairs the tree with
that map (`given`), and `treeSystem` is the transition system of all calls on live ids.

* `reaches_iff`, `liveLeaf_iff` : what the links lead to from the root.
* `Holds.insert`, `Holds.remove`, `Holds.update` : the three operations on the represented tree.
* `tracked_run` : the invariant over runs.
* `tree_refines_map` : **the tree refines the map**, over every run from a fresh tree.
-/

namespace ClientServer

open BinTree BoxTree

namespace DynamicAABBTree

variable {K : Type*} {t : DynamicAABBTree K} {T : Option (BoxTree K)} {D : List ℤ}

/-! ### What the root leads to -/

/-- The nodes reached from `root_` along the child links. -/
inductive Reaches (t : DynamicAABBTree K) : ℤ → Prop
  | root : t.root ≠ Null → Reaches t t.root
  | left {i : ℤ} : Reaches t i → ¬(t.node i).IsLeaf → Reaches t (t.node i).left
  | right {i : ℤ} : Reaches t i → ¬(t.node i).IsLeaf → Reaches t (t.node i).right

/-- A leaf reached from `root_`. -/
def LiveLeaf (t : DynamicAABBTree K) (id : ℤ) : Prop := t.Reaches id ∧ (t.node id).IsLeaf

theorem Links.exists_focus {p i : ℤ} {τ : BoxTree K} (h : t.Links p τ) (hi : i ∈ τ.names) :
    ∃ q σ, t.Links q σ ∧ σ.name = i ∧ σ.names ⊆ τ.names ∧ σ.leaves ⊆ τ.leaves := by
  induction τ generalizing p with
  | leaf j a =>
    obtain rfl := List.mem_singleton.1 hi
    exact ⟨p, .leaf i a, h, rfl, fun _ h => h, fun _ h => h⟩
  | node j b l r ihl ihr =>
    simp only [names, List.mem_cons, List.mem_append] at hi
    rcases hi with rfl | hi | hi
    · exact ⟨p, .node i b l r, h, rfl, fun _ h => h, fun _ h => h⟩
    · obtain ⟨q, σ, hσ, hname, hsub, hleaves⟩ := ihl h.2.1 hi
      exact ⟨q, σ, hσ, hname, fun k hk => by simp [names, hsub hk],
        fun k hk => by simp [leaves, hleaves hk]⟩
    · obtain ⟨q, σ, hσ, hname, hsub, hleaves⟩ := ihr h.2.2 hi
      exact ⟨q, σ, hσ, hname, fun k hk => by simp [names, hsub hk],
        fun k hk => by simp [leaves, hleaves hk]⟩

theorem Links.reaches {p i : ℤ} {τ : BoxTree K} (h : t.Links p τ) (h0 : NonNeg τ.names)
    (hτ : t.Reaches τ.name) (hi : i ∈ τ.names) : t.Reaches i := by
  induction τ generalizing p with
  | leaf j a =>
    obtain rfl := List.mem_singleton.1 hi
    exact hτ
  | node j b l r ihl ihr =>
    have hnot := h.not_isLeaf_node h0.right
    have hleft := h.left_eq
    have hright := h.right_eq
    obtain ⟨-, hl, hr⟩ := h
    simp only [names, List.mem_cons, List.mem_append] at hi
    rcases hi with rfl | hi | hi
    · exact hτ
    · exact ihl hl h0.left (hleft ▸ .left hτ hnot) hi
    · exact ihr hr h0.right (hright ▸ .right hτ hnot) hi

theorem reaches_iff (h : t.Holds T D) {i : ℤ} : t.Reaches i ↔ i ∈ treeNames T := by
  have h0 : NonNeg (treeNames T) := h.nonNeg.of_append_left
  have hrooted := h.rooted
  cases T with
  | none =>
    refine ⟨fun hi => ?_, fun hi => absurd hi List.not_mem_nil⟩
    induction hi with
    | root hne => exact absurd hrooted hne
    | left _ _ ih => exact absurd ih List.not_mem_nil
    | right _ _ ih => exact absurd ih List.not_mem_nil
  | some τ =>
    obtain ⟨hroot, hlinks⟩ := hrooted
    constructor
    · intro hi
      induction hi with
      | root => exact hroot ▸ name_mem_names τ
      | @left i _ hnot ih =>
        obtain ⟨q, σ, hσ, rfl, hsub, -⟩ := hlinks.exists_focus ih
        cases σ with
        | leaf j a => exact absurd hσ.isLeaf_leaf hnot
        | node j b l r =>
          rw [name, hσ.1]
          exact hsub (by simp [names, layout])
      | @right i _ hnot ih =>
        obtain ⟨q, σ, hσ, rfl, hsub, -⟩ := hlinks.exists_focus ih
        cases σ with
        | leaf j a => exact absurd hσ.isLeaf_leaf hnot
        | node j b l r =>
          rw [name, hσ.1]
          exact hsub (by simp [names, layout])
    · -- every node of the tree is on a path from its root
      intro hi
      have hτ : t.Reaches τ.name := hroot ▸ .root (hroot ▸ h0.ne_null (name_mem_names τ))
      exact hlinks.reaches h0 hτ hi

/-- The leaves of the represented tree are what their nodes say. -/
theorem Holds.isLeafOf (h : t.Holds T D) {id : ℤ} {a : LeafData K} (ha : (id, a) ∈ treeLeaves T) :
    t.IsLeafOf id a := by
  cases T with
  | none => exact absurd ha List.not_mem_nil
  | some τ =>
    obtain ⟨fs, rfl⟩ := exists_plug_leaf ha
    exact Links.isLeafOf (linked_plug.1 h.rooted.2).1

theorem liveLeaf_iff (h : t.Holds T D) {id : ℤ} :
    t.LiveLeaf id ↔ ∃ a, (id, a) ∈ treeLeaves T := by
  rw [LiveLeaf, reaches_iff h]
  constructor
  · rintro ⟨hid, hleaf⟩
    cases T with
    | none => exact absurd hid List.not_mem_nil
    | some τ =>
      obtain ⟨q, σ, hσ, rfl, hsub, hleaves⟩ := h.rooted.2.exists_focus hid
      cases σ with
      | leaf j a => exact ⟨a, hleaves (by simp [leaves, name])⟩
      | node j b l r =>
        have h0 : NonNeg r.names := fun k hk =>
          h.nonNeg k (List.mem_append_left _ (hsub (by simp [names, hk])))
        exact absurd hleaf (hσ.not_isLeaf_node h0)
  · rintro ⟨a, ha⟩
    refine ⟨?_, (h.isLeafOf ha).fresh.1⟩
    cases T with
    | none => exact absurd ha List.not_mem_nil
    | some τ => exact mem_names_of_mem_leaves ha

/-! ### The operations -/

theorem leaves_names_sublist (τ : BoxTree K) :
    (τ.leaves.map Prod.fst).Sublist τ.names := by
  induction τ with
  | leaf i a => exact .refl _
  | node i b l r ihl ihr =>
    rw [leaves, List.map_append]
    exact (ihl.append ihr).cons i

theorem Holds.nodup_leaves (h : t.Holds T D) : ((treeLeaves T).map Prod.fst).Nodup := by
  cases T with
  | none => exact List.nodup_nil
  | some τ => exact (List.nodup_append.1 h.nodup).1.sublist (leaves_names_sublist τ)

theorem Holds.unique (h : t.Holds T D) {id : ℤ} {a a' : LeafData K}
    (ha : (id, a) ∈ treeLeaves T) (ha' : (id, a') ∈ treeLeaves T) : a = a' := by
  have h₁ := h.isLeafOf ha
  have h₂ := h.isLeafOf ha'
  cases a
  cases a'
  congr 1
  · exact h₁.aabb.symm.trans h₂.aabb
  · exact h₁.userData.symm.trans h₂.userData

theorem not_mem_of_perm_cons {L L' : List (ℤ × LeafData K)} {id : ℤ} {a : LeafData K}
    (hp : L.Perm ((id, a) :: L')) (hn : (L.map Prod.fst).Nodup) (b : LeafData K) :
    (id, b) ∉ L' := by
  have hcons := (hp.map Prod.fst).nodup_iff.1 hn
  exact fun hb => (List.nodup_cons.1 hcons).1 (List.mem_map.2 ⟨(id, b), hb, rfl⟩)

theorem mem_iff_of_perm_cons {L L' : List (ℤ × LeafData K)} {id j : ℤ} {a b : LeafData K}
    (hp : L.Perm ((id, a) :: L')) (hj : j ≠ id) : (j, b) ∈ L ↔ (j, b) ∈ L' := by
  rw [hp.mem_iff, List.mem_cons, Prod.mk.injEq, or_iff_right fun h => hj h.1]

section Operations

variable [Field K] [LinearOrder K]

theorem Holds.searchSibling_eq {t' : DynamicAABBTree K} {D' : List ℤ} (h : t.Holds T D)
    (leafAABB : AABB2 K) (h' : t'.Holds T D') (hT : T ≠ none) :
    t'.searchSibling leafAABB t'.size.toNat t'.root =
      t.searchSibling leafAABB t.size.toNat t.root := by
  cases T with
  | none => exact absurd rfl hT
  | some τ =>
    rw [h.rooted.1, h'.rooted.1]
    exact Links.searchSibling_eq leafAABB h.rooted.2 h'.rooted.2
      h.nonNeg.of_append_left h.length_names_le h'.length_names_le

/-- **`Insert`** adds a leaf with a new id. -/
theorem Holds.insert (h : t.Holds T []) (hT : ExactTree T) (aabb : AABB2 K) (entity : ℤ) :
    ∃ t' id T', t.insert aabb entity = some (t', id) ∧ t'.Holds T' [] ∧ ExactTree T' ∧
      (treeLeaves T').Perm ((id, ⟨aabb.fatten, entity⟩) :: treeLeaves T) ∧
      Inserts id ⟨aabb.fatten, entity⟩ (t.searchSibling aabb.fatten t.size.toNat t.root) T T' := by
  obtain ⟨h₁, hid, hfresh, -⟩ := h.allocateNode
  obtain ⟨t₁, id, heq⟩ : ∃ t₁ id, t.allocateNode = (t₁, id) := ⟨_, _, rfl⟩
  rw [heq] at h₁ hid hfresh
  set t₂ := t₁.modify id fun x => { x with aabb := aabb.fatten, left := entity, height := 0 }
    with ht₂
  have hnode : t₂.node id =
      { t₁.node id with aabb := aabb.fatten, left := entity, height := 0 } :=
    t₁.node_modify_self _
  have h₂ : t₂.Holds T [id] := by
    refine h₁.restructure (SameShell.refl t₁).modify ?_ (.refl _) fun j hj =>
      t₁.node_modify_of_ne _ fun h => hj (by simp [h])
    exact rooted_congr h₁.rooted rfl fun j hj =>
      t₁.node_modify_of_ne _ fun h => hid (List.mem_append_left _ (h ▸ hj))
  have hleaf : t₂.IsLeafOf id ⟨aabb.fatten, entity⟩ :=
    ⟨⟨by rw [hnode]; exact hfresh.1, by rw [hnode]⟩, by rw [hnode], by rw [hnode]⟩
  obtain ⟨t', T', hins, h', hT', hleaves, -, hshape⟩ := h₂.insertLeaf hT hleaf
  rw [hleaf.aabb] at hshape
  refine ⟨t', id, T', ?_, h', hT', hleaves,
    hshape.congr fun hsome => (h.searchSibling_eq aabb.fatten h₂ hsome).symm⟩
  simp only [DynamicAABBTree.insert, heq, ← ht₂, hins, Option.map_some]

/-- **`Remove`** drops a leaf. -/
theorem Holds.remove {id : ℤ} {a : LeafData K} (h : t.Holds T []) (hT : ExactTree T)
    (hleaf : (id, a) ∈ treeLeaves T) :
    ∃ t' T', t.remove id = some t' ∧ t'.Holds T' [] ∧ ExactTree T' ∧
      (treeLeaves T).Perm ((id, a) :: treeLeaves T') ∧ Removes id a T T' := by
  obtain ⟨t₁, T', hrem, h₁, hT', hleaves, -, -, hshape⟩ := h.removeLeaf hT hleaf
  refine ⟨t₁.deallocateNode id, T', ?_, h₁.deallocateNode.1, hT', hleaves, hshape⟩
  rw [DynamicAABBTree.remove, hrem, Option.map_some]

/-- **`Update`** puts another box into a leaf, unless the fat box still contains the new one. -/
theorem Holds.update {id : ℤ} {a : LeafData K} (h : t.Holds T []) (hT : ExactTree T)
    (hleaf : (id, a) ∈ treeLeaves T) (aabb : AABB2 K) :
    if a.aabb.contains aabb then t.update id aabb = some (t, false)
    else ∃ t' T' L, t.update id aabb = some (t', true) ∧ t'.Holds T' [] ∧ ExactTree T' ∧
      (treeLeaves T).Perm ((id, a) :: L) ∧
      (treeLeaves T').Perm ((id, ⟨aabb.fatten, a.userData⟩) :: L) ∧
      ∃ t₁ T₁, t.removeLeaf id = some t₁ ∧ t₁.Holds T₁ [id] ∧ ExactTree T₁ ∧ Removes id a T T₁ ∧
        Inserts id ⟨aabb.fatten, a.userData⟩
          (t₁.searchSibling aabb.fatten t₁.size.toNat t₁.root) T₁ T' := by
  have hbox := (h.isLeafOf hleaf).aabb
  split_ifs with hc
  · rw [DynamicAABBTree.update, hbox, if_pos hc]
  · obtain ⟨t₁, T₁, hrem, h₁, hT₁, hleaves₁, ⟨hfresh, -, hdata⟩, -, hremoved⟩ :=
      h.removeLeaf hT hleaf
    set t₂ := t₁.modify id fun x => { x with aabb := aabb.fatten } with ht₂
    have hnode : t₂.node id = { t₁.node id with aabb := aabb.fatten } := t₁.node_modify_self _
    have hid : id ∉ treeNames T₁ := fun hm =>
      (List.nodup_append.1 h₁.nodup).2.2 _ hm _ List.mem_cons_self rfl
    have h₂ : t₂.Holds T₁ [id] := by
      refine h₁.restructure (SameShell.refl t₁).modify ?_ (.refl _) fun j hj =>
        t₁.node_modify_of_ne _ fun h => hj (by simp [h])
      exact rooted_congr h₁.rooted rfl fun j hj =>
        t₁.node_modify_of_ne _ (ne_of_mem_of_not_mem hj hid)
    have hleaf₂ : t₂.IsLeafOf id ⟨aabb.fatten, a.userData⟩ :=
      ⟨⟨by rw [hnode]; exact hfresh.1, by rw [hnode]; exact hfresh.2⟩, by rw [hnode],
        by rw [hnode]; exact hdata⟩
    obtain ⟨t', T', hins, h', hT', hleaves', -, hshape⟩ := h₂.insertLeaf hT₁ hleaf₂
    rw [hleaf₂.aabb] at hshape
    refine ⟨t', T', treeLeaves T₁, ?_, h', hT', hleaves₁, hleaves', t₁, T₁, hrem, h₁,
      hT₁, hremoved,
      hshape.congr fun hsome => (h₁.searchSibling_eq aabb.fatten h₂ hsome).symm⟩
    rw [DynamicAABBTree.update, hbox, if_neg hc]
    simp only [hrem, ← ht₂, hins, Option.map_some]

end Operations

end DynamicAABBTree

/-! ### The tree beside the map -/

open DynamicAABBTree

/-- A tree with the map it stands for: for each live id the entity of its `Insert` and the last
box given by `Insert` or `Update`. -/
structure TrackedTree (K : Type*) where
  tree : DynamicAABBTree K
  given : ℤ → Option (ℤ × AABB2 K)

/-- A call and what it returned. -/
inductive TreeCall (K : Type*)
  | insert (aabb : AABB2 K) (entity id : ℤ)
  | remove (id : ℤ)
  | update (id : ℤ) (aabb : AABB2 K) (moved : Bool)

/-- Calls of `Insert`, and of `Remove` and `Update` on live ids. -/
def treeSystem (K : Type*) [Field K] [LinearOrder K] : LTS (TrackedTree K) (TreeCall K) where
  step s call s' :=
    match call with
    | .insert aabb entity id =>
      s.tree.insert aabb entity = some (s'.tree, id) ∧
        s'.given = Function.update s.given id (some (entity, aabb))
    | .remove id =>
      (s.given id).isSome ∧ s.tree.remove id = some s'.tree ∧
        s'.given = Function.update s.given id none
    | .update id aabb moved =>
      ∃ entity box, s.given id = some (entity, box) ∧
        s.tree.update id aabb = some (s'.tree, moved) ∧
        s'.given = Function.update s.given id (some (entity, aabb))

/-- A freshly constructed tree, `count_` taken as `0`. -/
def freshTree {K : Type*} [Zero K] (size : ℤ) : TrackedTree K :=
  ⟨DynamicAABBTree.construct size 0, fun _ => none⟩

theorem step_insert {K : Type*} [Field K] [LinearOrder K] {s : TrackedTree K} {aabb : AABB2 K}
    {entity id : ℤ} {t : DynamicAABBTree K} (h : s.tree.insert aabb entity = some (t, id)) :
    (treeSystem K).step s (.insert aabb entity id)
      ⟨t, Function.update s.given id (some (entity, aabb))⟩ := ⟨h, rfl⟩

namespace TrackedTree

variable {K : Type*}

/-! ### Calls that are run through -/

section Execute

variable [Field K] [LinearOrder K]

/-- The call, if it returns what it should. -/
def next (s : TrackedTree K) : TreeCall K → Option (TrackedTree K)
  | .insert aabb entity id =>
    (s.tree.insert aabb entity).bind fun p =>
      if p.2 = id then some ⟨p.1, Function.update s.given id (some (entity, aabb))⟩ else none
  | .remove id =>
    if (s.given id).isSome then
      (s.tree.remove id).map fun t => ⟨t, Function.update s.given id none⟩
    else none
  | .update id aabb moved =>
    (s.given id).bind fun e => (s.tree.update id aabb).bind fun p =>
      if p.2 = moved then some ⟨p.1, Function.update s.given id (some (e.1, aabb))⟩ else none

theorem step_of_next {s s' : TrackedTree K} {call : TreeCall K} (h : s.next call = some s') :
    (treeSystem K).step s call s' := by
  cases call with
  | insert aabb entity id =>
    obtain ⟨⟨t, id'⟩, hins, hret⟩ := Option.bind_eq_some_iff.1 h
    obtain ⟨rfl, heq⟩ := Option.ite_none_right_eq_some.1 hret
    obtain rfl := Option.some.inj heq
    exact ⟨hins, rfl⟩
  | remove id =>
    obtain ⟨hid, hmap⟩ := Option.ite_none_right_eq_some.1 h
    obtain ⟨t, hrem, rfl⟩ := Option.map_eq_some_iff.1 hmap
    exact ⟨hid, hrem, rfl⟩
  | update id aabb moved =>
    obtain ⟨⟨entity, box⟩, hid, hbind⟩ := Option.bind_eq_some_iff.1 h
    obtain ⟨⟨t, moved'⟩, hupd, hret⟩ := Option.bind_eq_some_iff.1 hbind
    obtain ⟨rfl, heq⟩ := Option.ite_none_right_eq_some.1 hret
    obtain rfl := Option.some.inj heq
    exact ⟨entity, box, hid, hupd, rfl⟩

theorem exists_run (s : TrackedTree K) (calls : List (TreeCall K)) (p : TrackedTree K → Bool)
    (h : (LTS.execute next s calls).any p = true) :
    ∃ s', (treeSystem K).Run s (LTS.trace next s calls) s' ∧ p s' = true := by
  obtain ⟨s', hrun, hp⟩ := LTS.exists_run next s calls p h
  exact ⟨s', hrun.mono fun _ _ _ hstep => step_of_next hstep, hp⟩

end Execute

/-! ### What the tree has of the map -/

/-- The tree agrees with the map. -/
structure Agrees [LinearOrder K] (s : TrackedTree K) : Prop where
  live : ∀ id, s.tree.LiveLeaf id ↔ (s.given id).isSome
  userData : ∀ id entity box, s.given id = some (entity, box) → s.tree.getUserData id = entity
  fat : ∀ id entity box, s.given id = some (entity, box) →
    (s.tree.getFatAABB id).contains box = true

/-- What a call may change: the user data of a leaf never, its fat box only in an `Update` of
that leaf which returns `true`, and nothing at all in an `Update` which returns `false`.  The
id of a new leaf was not live. -/
structure Frame (s : TrackedTree K) (call : TreeCall K) (s' : TrackedTree K) : Prop where
  userData : ∀ id, s.tree.LiveLeaf id → s'.tree.LiveLeaf id →
    s'.tree.getUserData id = s.tree.getUserData id
  fat : ∀ id, s.tree.LiveLeaf id → s'.tree.LiveLeaf id →
    s'.tree.getFatAABB id = s.tree.getFatAABB id ∨ ∃ aabb, call = .update id aabb true
  unmoved : ∀ id aabb, call = .update id aabb false → s'.tree = s.tree
  fresh : ∀ aabb entity id, call = .insert aabb entity id → ¬s.tree.LiveLeaf id

variable [LinearOrder K]

/-- The invariant: the pool holds a tree whose leaves are the entries of the map. -/
structure Tracks (s : TrackedTree K) (T : Option (BoxTree K)) : Prop where
  holds : s.tree.Holds T []
  exact : ExactTree T
  live : ∀ id, (s.given id).isSome ↔ ∃ a, (id, a) ∈ treeLeaves T
  userData : ∀ id a entity box, (id, a) ∈ treeLeaves T → s.given id = some (entity, box) →
    a.userData = entity
  fat : ∀ id a entity box, (id, a) ∈ treeLeaves T → s.given id = some (entity, box) →
    a.aabb.contains box = true

variable {s s' : TrackedTree K} {T T' : Option (BoxTree K)}

theorem Tracks.agrees (h : s.Tracks T) : s.Agrees := by
  refine ⟨fun id => (liveLeaf_iff h.holds).trans (h.live id).symm, ?_, ?_⟩
  · intro id entity box hg
    obtain ⟨a, ha⟩ := (h.live id).1 (by rw [hg]; rfl)
    exact (h.holds.isLeafOf ha).userData.trans (h.userData id a entity box ha hg)
  · intro id entity box hg
    obtain ⟨a, ha⟩ := (h.live id).1 (by rw [hg]; rfl)
    rw [getFatAABB, (h.holds.isLeafOf ha).aabb]
    exact h.fat id a entity box ha hg

theorem Tracks.construct [Zero K] {size : ℤ} (h : 1 ≤ size) :
    (freshTree size : TrackedTree K).Tracks none where
  holds := Holds.construct h
  exact := trivial
  live id := by simp [freshTree, treeLeaves]
  userData _ _ _ _ ha := absurd ha List.not_mem_nil
  fat _ _ _ _ ha := absurd ha List.not_mem_nil

/-- The frame, seen on the represented trees. -/
theorem Tracks.frame (h : s.Tracks T) (h' : s'.Tracks T') {call : TreeCall K}
    (hkeep : ∀ id a a', (id, a) ∈ treeLeaves T → (id, a') ∈ treeLeaves T' →
      a'.userData = a.userData ∧ (a'.aabb = a.aabb ∨ ∃ aabb, call = .update id aabb true))
    (hunmoved : ∀ id aabb, call = .update id aabb false → s'.tree = s.tree)
    (hfresh : ∀ aabb entity id a, call = .insert aabb entity id → (id, a) ∉ treeLeaves T) :
    s.Frame call s' where
  userData id hl hl' := by
    obtain ⟨a, ha⟩ := (liveLeaf_iff h.holds).1 hl
    obtain ⟨a', ha'⟩ := (liveLeaf_iff h'.holds).1 hl'
    have hdata := (hkeep id a a' ha ha').1
    exact (h'.holds.isLeafOf ha').userData.trans (hdata.trans (h.holds.isLeafOf ha).userData.symm)
  fat id hl hl' := by
    obtain ⟨a, ha⟩ := (liveLeaf_iff h.holds).1 hl
    obtain ⟨a', ha'⟩ := (liveLeaf_iff h'.holds).1 hl'
    rw [getFatAABB, getFatAABB, (h'.holds.isLeafOf ha').aabb, (h.holds.isLeafOf ha).aabb]
    exact (hkeep id a a' ha ha').2
  unmoved := hunmoved
  fresh aabb entity id hcall hl := by
    obtain ⟨a, ha⟩ := (liveLeaf_iff h.holds).1 hl
    exact hfresh aabb entity id a hcall ha

theorem Tracks.set {t' : DynamicAABBTree K} (h : s.Tracks T) (h' : t'.Holds T' [])
    (hT' : ExactTree T') {id entity : ℤ} {a : LeafData K} {box : AABB2 K}
    (hid : (id, a) ∈ treeLeaves T')
    (hother : ∀ j b, j ≠ id → ((j, b) ∈ treeLeaves T' ↔ (j, b) ∈ treeLeaves T))
    (hdata : a.userData = entity) (hbox : a.aabb.contains box = true) :
    Tracks ⟨t', Function.update s.given id (some (entity, box))⟩ T' := by
  refine ⟨h', hT', fun j => ?_, fun j b e x hb hg => ?_, fun j b e x hb hg => ?_⟩
  · by_cases hj : j = id
    · subst hj
      simp only [Function.update_self, Option.isSome_some, true_iff]
      exact ⟨a, hid⟩
    · simp only [Function.update_of_ne hj, h.live, hother j _ hj]
  · by_cases hj : j = id
    · subst hj
      simp only [Function.update_self, Option.some.injEq, Prod.mk.injEq] at hg
      rw [h'.unique hb hid, hdata, hg.1]
    · simp only [Function.update_of_ne hj] at hg
      exact h.userData j b e x ((hother j b hj).1 hb) hg
  · by_cases hj : j = id
    · subst hj
      simp only [Function.update_self, Option.some.injEq, Prod.mk.injEq] at hg
      rw [h'.unique hb hid, ← hg.2, hbox]
    · simp only [Function.update_of_ne hj] at hg
      exact h.fat j b e x ((hother j b hj).1 hb) hg

section Step

variable [Field K] [IsStrictOrderedRing K]

theorem Tracks.insert (h : s.Tracks T) (aabb : AABB2 K) (entity : ℤ) :
    ∃ t' id T', s.tree.insert aabb entity = some (t', id) ∧
      Tracks ⟨t', Function.update s.given id (some (entity, aabb))⟩ T' ∧
      s.Frame (.insert aabb entity id) ⟨t', Function.update s.given id (some (entity, aabb))⟩ := by
  obtain ⟨t', id, T', hins, h', hT', hleaves, -⟩ := h.holds.insert h.exact aabb entity
  have hnew := not_mem_of_perm_cons hleaves h'.nodup_leaves
  have htracks := h.set h' hT' (hleaves.mem_iff.2 List.mem_cons_self)
    (fun j b hj => mem_iff_of_perm_cons hleaves hj) rfl aabb.contains_fatten
  refine ⟨t', id, T', hins, htracks, h.frame htracks (fun j a a' ha ha' => ?_) ?_ ?_⟩
  · have heq := h'.unique ha' (hleaves.mem_iff.2 (List.mem_cons_of_mem _ ha))
    exact ⟨congrArg _ heq, .inl (congrArg _ heq)⟩
  · rintro j box ⟨⟩
  · rintro box e j a ⟨⟩
    exact hnew a

omit [IsStrictOrderedRing K] in
theorem Tracks.remove (h : s.Tracks T) {id : ℤ} (hid : (s.given id).isSome) :
    ∃ t' T', s.tree.remove id = some t' ∧
      Tracks ⟨t', Function.update s.given id none⟩ T' ∧
      s.Frame (.remove id) ⟨t', Function.update s.given id none⟩ := by
  obtain ⟨a, ha⟩ := (h.live id).1 hid
  obtain ⟨t', T', hrem, h', hT', hleaves, -⟩ := h.holds.remove h.exact ha
  have hgone := not_mem_of_perm_cons hleaves h.holds.nodup_leaves
  have hne : ∀ {j b}, (j, b) ∈ treeLeaves T' → j ≠ id := fun hb hj => hgone _ (hj ▸ hb)
  have hsub : ∀ {x}, x ∈ treeLeaves T' → x ∈ treeLeaves T := fun hx =>
    hleaves.mem_iff.2 (List.mem_cons_of_mem _ hx)
  have htracks : Tracks ⟨t', Function.update s.given id none⟩ T' := by
    refine ⟨h', hT', fun j => ?_, fun j b e box hb hg => ?_, fun j b e box hb hg => ?_⟩
    · by_cases hj : j = id
      · subst hj
        simpa only [Function.update_self, Option.isSome_none, Bool.false_eq_true, false_iff,
          not_exists] using hgone
      · simp only [Function.update_of_ne hj, h.live, mem_iff_of_perm_cons hleaves hj]
    · simp only [Function.update_of_ne (hne hb)] at hg
      exact h.userData j b e box (hsub hb) hg
    · simp only [Function.update_of_ne (hne hb)] at hg
      exact h.fat j b e box (hsub hb) hg
  refine ⟨t', T', hrem, htracks, h.frame htracks (fun j b b' hb hb' => ?_) ?_ ?_⟩
  · have heq := h.holds.unique (hsub hb') hb
    exact ⟨congrArg _ heq, .inl (congrArg _ heq)⟩
  · rintro j box ⟨⟩
  · rintro box e j b ⟨⟩

theorem Tracks.update (h : s.Tracks T) {id entity : ℤ} {box : AABB2 K}
    (hid : s.given id = some (entity, box)) (aabb : AABB2 K) :
    ∃ t' moved T', s.tree.update id aabb = some (t', moved) ∧
      Tracks ⟨t', Function.update s.given id (some (entity, aabb))⟩ T' ∧
      s.Frame (.update id aabb moved)
        ⟨t', Function.update s.given id (some (entity, aabb))⟩ := by
  obtain ⟨a, ha⟩ := (h.live id).1 (by rw [hid]; rfl)
  have hdata := h.userData id a entity box ha hid
  have hupd := h.holds.update h.exact ha aabb
  split_ifs at hupd with hc
  · -- the fat box still contains the new box, which becomes the last one given
    have htracks := h.set h.holds h.exact ha (fun _ _ _ => .rfl) hdata hc
    refine ⟨s.tree, false, T, hupd, htracks, h.frame htracks (fun j b b' hb hb' => ?_) ?_ ?_⟩
    · have heq := h.holds.unique hb' hb
      exact ⟨congrArg _ heq, .inl (congrArg _ heq)⟩
    · exact fun _ _ _ => rfl
    · rintro x e j b ⟨⟩
  · obtain ⟨t', T', L, hup, h', hT', hleaves, hleaves', -⟩ := hupd
    have hid' := hleaves'.mem_iff.2 List.mem_cons_self
    have hother : ∀ j b, j ≠ id → ((j, b) ∈ treeLeaves T' ↔ (j, b) ∈ treeLeaves T) :=
      fun j b hj => (mem_iff_of_perm_cons hleaves' hj).trans (mem_iff_of_perm_cons hleaves hj).symm
    have htracks := h.set h' hT' hid' hother hdata aabb.contains_fatten
    refine ⟨t', true, T', hup, htracks, h.frame htracks (fun j b b' hb hb' => ?_) ?_ ?_⟩
    · by_cases hj : j = id
      · subst hj
        rw [h'.unique hb' hid', h.holds.unique hb ha]
        exact ⟨rfl, .inr ⟨aabb, rfl⟩⟩
      · have heq := h'.unique hb' ((hother j b hj).2 hb)
        exact ⟨congrArg _ heq, .inl (congrArg _ heq)⟩
    · rintro j x ⟨⟩
    · rintro x e j b ⟨⟩

/-- One call keeps the invariant and the frame. -/
theorem Tracks.step (h : s.Tracks T) {call : TreeCall K} (hstep : (treeSystem K).step s call s') :
    s.Frame call s' ∧ ∃ T', s'.Tracks T' := by
  obtain ⟨tree', given'⟩ := s'
  cases call with
  | insert aabb entity id =>
    obtain ⟨hcall, hgiven⟩ := hstep
    obtain ⟨t', id', T', hins, htracks, hframe⟩ := h.insert aabb entity
    obtain ⟨rfl, rfl⟩ := Prod.mk.inj (Option.some.inj (hins.symm.trans hcall))
    obtain rfl := hgiven
    exact ⟨hframe, T', htracks⟩
  | remove id =>
    obtain ⟨hid, hcall, hgiven⟩ := hstep
    obtain ⟨t', T', hrem, htracks, hframe⟩ := h.remove hid
    obtain rfl := Option.some.inj (hrem.symm.trans hcall)
    obtain rfl := hgiven
    exact ⟨hframe, T', htracks⟩
  | update id aabb moved =>
    obtain ⟨entity, box, hid, hcall, hgiven⟩ := hstep
    obtain ⟨t', moved', T', hupd, htracks, hframe⟩ := h.update hid aabb
    obtain ⟨rfl, rfl⟩ := Prod.mk.inj (Option.some.inj (hupd.symm.trans hcall))
    obtain rfl := hgiven
    exact ⟨hframe, T', htracks⟩

theorem tracked_run {size : ℤ} (hsize : 1 ≤ size) {es : List (TrackedTree K × TreeCall K)}
    (h : (treeSystem K).Run (freshTree size) es s) : ∃ T, s.Tracks T :=
  h.invariant (I := fun s => ∃ T, s.Tracks T) ⟨none, Tracks.construct hsize⟩
    fun _ _ _ ⟨_, hT⟩ hstep => (hT.step hstep).2

/-- **The tree refines the map.**  In every state of every run from a fresh tree: the leaves
reached from the root are the live ids, with the entity given and a fat box strictly around
the last box given; every call on live ids returns; and no call touches more than it may. -/
theorem tree_refines_map {size : ℤ} (hsize : 1 ≤ size) {es : List (TrackedTree K × TreeCall K)}
    (h : (treeSystem K).Run (freshTree size) es s) :
    s.Agrees ∧
      (∀ aabb entity, ∃ id s', (treeSystem K).step s (.insert aabb entity id) s') ∧
      (∀ id, (s.given id).isSome → ∃ s', (treeSystem K).step s (.remove id) s') ∧
      (∀ id aabb, (s.given id).isSome →
        ∃ moved s', (treeSystem K).step s (.update id aabb moved) s') ∧
      ∀ call s', (treeSystem K).step s call s' → s.Frame call s' ∧ s'.Agrees := by
  obtain ⟨T, hT⟩ := tracked_run hsize h
  refine ⟨hT.agrees, fun aabb entity => ?_, fun id hid => ?_, fun id aabb hid => ?_,
    fun call s' hstep => ?_⟩
  · obtain ⟨t', id, T', hins, -⟩ := hT.insert aabb entity
    exact ⟨id, ⟨t', _⟩, hins, rfl⟩
  · obtain ⟨t', T', hrem, -⟩ := hT.remove hid
    exact ⟨⟨t', _⟩, hid, hrem, rfl⟩
  · obtain ⟨⟨entity, box⟩, hg⟩ := Option.isSome_iff_exists.1 hid
    obtain ⟨t', moved, T', hupd, -⟩ := hT.update hg aabb
    exact ⟨moved, ⟨t', _⟩, entity, box, hg, hupd, rfl⟩
  · obtain ⟨hframe, T', hT'⟩ := hT.step hstep
    exact ⟨hframe, hT'.agrees⟩

end Step

/-- Three leaves, one of which gets another box, one a box within its fat one, and one goes. -/
theorem tree_refines_map_six : ∃ es s, (treeSystem ℚ).Run (freshTree 1) es s ∧ es.length = 6 ∧
    s.tree.getUserData 0 = 7 ∧ (s.tree.getFatAABB 0).contains ⟨⟨50, 50⟩, ⟨51, 51⟩⟩ = true ∧
    ¬s.tree.LiveLeaf 1 ∧ ∃ s', (treeSystem ℚ).step s (.remove 0) s' ∧ s'.Agrees := by
  obtain ⟨s, hrun, hs⟩ := exists_run (freshTree 1 : TrackedTree ℚ)
    [.insert ⟨⟨0, 0⟩, ⟨1, 1⟩⟩ 7 0, .insert ⟨⟨20, 20⟩, ⟨21, 21⟩⟩ 8 1,
      .insert ⟨⟨40, 0⟩, ⟨41, 1⟩⟩ 9 3, .update 0 ⟨⟨50, 50⟩, ⟨51, 51⟩⟩ true,
      .update 3 ⟨⟨40, 0⟩, ⟨40, 0⟩⟩ false, .remove 1]
    (fun s => s.given 0 = some (7, ⟨⟨50, 50⟩, ⟨51, 51⟩⟩) ∧ s.given 1 = none) (by decide +kernel)
  obtain ⟨hzero, hone⟩ := of_decide_eq_true hs
  obtain ⟨hagrees, -, hremove, -, hstep⟩ := tree_refines_map le_rfl hrun
  obtain ⟨s', hs'⟩ := hremove 0 (by rw [hzero]; rfl)
  refine ⟨_, s, hrun, by decide +kernel, hagrees.userData _ _ _ hzero, hagrees.fat _ _ _ hzero, ?_,
    s', hs', (hstep _ _ hs').2⟩
  simp [hagrees.live, hone]

end TrackedTree

end ClientServer
