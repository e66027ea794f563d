import ClientServer.AABBTree.Shape

/-!
# The query of the tree

`Query(aabb)` searches the tree with an explicit stack, right children first.  It starts the
stack with `nodes_[root_].userData` where the index `root_` is meant: in a branch that is the
left child, in a leaf whatever was inserted, and in an empty tree it is read from index `-1`.

* `queryLoop_spec` : what the loop does from any subtrees on the stack: it finds a leaf if one
  overlaps, it reads nodes of these subtrees only, and it fails iff the stack gets too full.
* `query_iff` : **exactly when the query is right**, in every state of a run.
-/

namespace ClientServer

open BinTree BoxTree

namespace DynamicAABBTree

variable {K : Type*}

/-- `KStackCapacity`. -/
def KStackCapacity : ℕ := 256

section Query

variable [LinearOrder K] (t : DynamicAABBTree K) (aabb : AABB2 K)

/-- The loop of `Query`, the top of the stack first: what is returned, and the indices at which
`nodes_` is read.  `none` is a failed assertion, or the fuel used up. -/
def queryLoop : ℕ → List ℤ → Option (ℤ × List ℤ)
  | _, [] => some (Null, [])
  | 0, _ :: _ => none
  | fuel + 1, id :: stack =>
    if (id :: stack).length < KStackCapacity then
      let n := t.node id
      if aabb.testOverlap n.aabb then
        if n.IsLeaf then some (n.userData, [id])
        else (queryLoop fuel (n.right :: n.left :: stack)).map fun (r, read) => (r, id :: read)
      else (queryLoop fuel stack).map fun (r, read) => (r, id :: read)
    else none

/-- `Query(aabb)`: its result, and the indices at which `nodes_` is read. -/
def query : Option (ℤ × List ℤ) :=
  (t.queryLoop aabb t.size.toNat [(t.node t.root).userData]).map fun (r, read) =>
    (r, t.root :: read)

/-! ### What decides the outcome -/

/-- The leaf `id`, at node `i` or below it, overlaps. -/
def HitLeaf (i id : ℤ) : Prop :=
  (∃ p, t.follow i p = some id) ∧ (t.node id).IsLeaf ∧ aabb.testOverlap (t.node id).aabb = true

/-- A leaf at node `i` or below it overlaps. -/
def Hits (i : ℤ) : Prop := ∃ id, t.HitLeaf aabb i id

/-- A search from node `i` with `sp` entries on the stack comes to a node with the stack full.
It goes below overlapping branches only; a right turn leaves the left child on the stack; a
left turn is taken when nothing on the right is hit. -/
inductive Crowded : ℕ → ℤ → Prop
  | full {sp : ℕ} {i : ℤ} : KStackCapacity ≤ sp → Crowded sp i
  | right {sp : ℕ} {i : ℤ} : aabb.testOverlap (t.node i).aabb = true → ¬(t.node i).IsLeaf →
      Crowded (sp + 1) (t.node i).right → Crowded sp i
  | left {sp : ℕ} {i : ℤ} : aabb.testOverlap (t.node i).aabb = true → ¬(t.node i).IsLeaf →
      ¬t.Hits aabb (t.node i).right → Crowded sp (t.node i).left → Crowded sp i

/-- Where the search of `Query` is good enough: a single leaf was inserted with its own index as
user data; or the root is a branch, nothing is hit on its right only, and the stack suffices
on its left. -/
def StartsWell : Prop :=
  t.root ≠ Null ∧
    if (t.node t.root).IsLeaf then (t.node t.root).userData = t.root
    else
      (t.Hits aabb (t.node t.root).left ∨ ¬t.Hits aabb (t.node t.root).right) ∧
        ¬t.Crowded aabb 1 (t.node t.root).left

end Query

/-! ### Hits and full stacks, by the kind of the node -/

section Cases

variable [LinearOrder K] {t : DynamicAABBTree K} {aabb : AABB2 K} {i id : ℤ} {sp : ℕ}

theorem hitLeaf_self (h : (t.node i).IsLeaf) (ho : aabb.testOverlap (t.node i).aabb = true) :
    t.HitLeaf aabb i i := ⟨⟨[], rfl⟩, h, ho⟩

theorem hits_leaf (h : (t.node i).IsLeaf) :
    t.Hits aabb i ↔ aabb.testOverlap (t.node i).aabb = true := by
  constructor
  · rintro ⟨id, hp, -, ho⟩
    exact (follows_leaf h).1 hp ▸ ho
  · exact fun ho => ⟨i, hitLeaf_self h ho⟩

theorem hitLeaf_branch (h : ¬(t.node i).IsLeaf) :
    t.HitLeaf aabb i id ↔
      t.HitLeaf aabb (t.node i).left id ∨ t.HitLeaf aabb (t.node i).right id := by
  constructor
  · rintro ⟨hp, hleaf, ho⟩
    exact ((follows_branch h hleaf).1 hp).imp (⟨·, hleaf, ho⟩) (⟨·, hleaf, ho⟩)
  · rintro (⟨hp, hleaf, ho⟩ | ⟨hp, hleaf, ho⟩)
    · exact ⟨(follows_branch h hleaf).2 (.inl hp), hleaf, ho⟩
    · exact ⟨(follows_branch h hleaf).2 (.inr hp), hleaf, ho⟩

theorem hits_branch (h : ¬(t.node i).IsLeaf) :
    t.Hits aabb i ↔ t.Hits aabb (t.node i).left ∨ t.Hits aabb (t.node i).right := by
  simp only [Hits, hitLeaf_branch h, exists_or]

theorem crowded_iff_of_not_overlap (ho : aabb.testOverlap (t.node i).aabb ≠ true) :
    t.Crowded aabb sp i ↔ KStackCapacity ≤ sp := by
  refine ⟨fun h => ?_, .full⟩
  cases h with
  | full hfull => exact hfull
  | right ho' => exact absurd ho' ho
  | left ho' => exact absurd ho' ho

theorem crowded_leaf (h : (t.node i).IsLeaf) : t.Crowded aabb sp i ↔ KStackCapacity ≤ sp := by
  refine ⟨fun hc => ?_, .full⟩
  cases hc with
  | full hfull => exact hfull
  | right _ h' => exact absurd h h'
  | left _ h' => exact absurd h h'

theorem crowded_branch (h : ¬(t.node i).IsLeaf)
    (ho : aabb.testOverlap (t.node i).aabb = true) :
    t.Crowded aabb sp i ↔ KStackCapacity ≤ sp ∨ t.Crowded aabb (sp + 1) (t.node i).right ∨
      ¬t.Hits aabb (t.node i).right ∧ t.Crowded aabb sp (t.node i).left := by
  constructor
  · intro hc
    cases hc with
    | full hfull => exact .inl hfull
    | right _ _ hr => exact .inr (.inl hr)
    | left _ _ hno hl => exact .inr (.inr ⟨hno, hl⟩)
  · rintro (hfull | hr | ⟨hno, hl⟩)
    · exact .full hfull
    · exact .right ho h hr
    · exact .left ho h hno hl

end Cases

/-! ### Subtrees -/

/-- The pool holds `σ` as a subtree. -/
structure Subtree [LinearOrder K] (t : DynamicAABBTree K) (σ : BoxTree K) : Prop where
  links : ∃ p, t.Links p σ
  nonNeg : NonNeg σ.names
  exact : Exact σ

section Subtree

variable [LinearOrder K] {t : DynamicAABBTree K} {aabb : AABB2 K} {σ l r : BoxTree K} {i : ℤ}
  {b : BranchData K} {a : LeafData K}

theorem Subtree.isLeaf (h : t.Subtree (.leaf i a)) : (t.node i).IsLeaf :=
  h.links.elim fun _ hp => hp.isLeaf_leaf

theorem Subtree.not_isLeaf (h : t.Subtree (.node i b l r)) : ¬(t.node i).IsLeaf :=
  h.links.elim fun _ hp => hp.not_isLeaf_node h.nonNeg.right

theorem Subtree.node_branch (h : t.Subtree (.node i b l r)) :
    (t.node i).aabb = AABB2.union (t.node l.name).aabb (t.node r.name).aabb ∧
      (t.node i).left = l.name ∧ (t.node i).right = r.name := by
  obtain ⟨p, hi, hl, hr⟩ := h.links
  rw [hi, Links.aabb hl, Links.aabb hr]
  exact ⟨congrArg BranchData.aabb h.exact.1, rfl, rfl⟩

theorem Subtree.left (h : t.Subtree (.node i b l r)) : t.Subtree l where
  links := h.links.elim fun _ hp => ⟨i, hp.2.1⟩
  nonNeg := h.nonNeg.left
  exact := h.exact.2.1

theorem Subtree.right (h : t.Subtree (.node i b l r)) : t.Subtree r where
  links := h.links.elim fun _ hp => ⟨i, hp.2.2⟩
  nonNeg := h.nonNeg.right
  exact := h.exact.2.2

/-- **Pruning.**  The box of a subtree overlaps what one of its leaves overlaps. -/
theorem Subtree.overlap_of_hits (h : t.Subtree σ) (hit : t.Hits aabb σ.name) :
    aabb.testOverlap (t.node σ.name).aabb = true := by
  induction σ with
  | leaf i a => exact (hits_leaf h.isLeaf).1 hit
  | node i b l r ihl ihr =>
    obtain ⟨hbox, hleft, hright⟩ := h.node_branch
    have hboth := (hits_branch h.not_isLeaf).1 hit
    change t.Hits aabb (t.node i).left ∨ t.Hits aabb (t.node i).right at hboth
    change aabb.testOverlap (t.node i).aabb = true
    rw [hleft, hright] at hboth
    rw [hbox]
    exact AABB2.testOverlap_union (hboth.imp (ihl h.left) (ihr h.right))

end Subtree

/-! ### The loop -/

section Loop

variable [LinearOrder K] {t : DynamicAABBTree K} {aabb : AABB2 K} {σ : BoxTree K} {i : ℤ}
  {stack : List ℤ} {res : Option (ℤ × List ℤ)}

/-- The search with this stack comes to a full stack. -/
def CrowdedStack (t : DynamicAABBTree K) (aabb : AABB2 K) : List ℤ → Prop
  | [] => False
  | i :: stack =>
    t.Crowded aabb (stack.length + 1) i ∨ ¬t.Hits aabb i ∧ CrowdedStack t aabb stack

/-- What the loop returns from a stack. -/
def Outcome (t : DynamicAABBTree K) (aabb : AABB2 K) (stack : List ℤ) :
    Option (ℤ × List ℤ) → Prop
  | none => t.CrowdedStack aabb stack
  | some (r, read) => ¬t.CrowdedStack aabb stack ∧
    (∀ j ∈ read, ∃ i ∈ stack, ∃ p, t.follow i p = some j) ∧
    ((∃ i ∈ stack, ∃ id, t.HitLeaf aabb i id ∧ r = (t.node id).userData) ∨
      r = Null ∧ ∀ i ∈ stack, ¬t.Hits aabb i)

theorem Outcome.drop (h : t.Outcome aabb stack res) (hσ : t.Subtree σ)
    (ho : aabb.testOverlap (t.node σ.name).aabb ≠ true) (hsp : stack.length + 1 < KStackCapacity) :
    t.Outcome aabb (σ.name :: stack) (res.map fun (r, read) => (r, σ.name :: read)) := by
  have hno : ¬t.Hits aabb σ.name := fun hit => ho (hσ.overlap_of_hits hit)
  have hcrowded : t.CrowdedStack aabb (σ.name :: stack) ↔ t.CrowdedStack aabb stack := by
    rw [CrowdedStack, crowded_iff_of_not_overlap ho, or_iff_right (by omega), and_iff_right hno]
  cases res with
  | none => exact hcrowded.2 h
  | some res =>
    obtain ⟨hc, hread, hr⟩ := h
    refine ⟨mt hcrowded.1 hc, ?_, ?_⟩
    · intro j hj
      rcases List.mem_cons.1 hj with rfl | hj
      · exact ⟨_, List.mem_cons_self, [], rfl⟩
      · obtain ⟨i, hi, hp⟩ := hread j hj
        exact ⟨i, List.mem_cons_of_mem _ hi, hp⟩
    · rcases hr with ⟨i, hi, hfound⟩ | ⟨hr, hall⟩
      · exact .inl ⟨i, List.mem_cons_of_mem _ hi, hfound⟩
      · exact .inr ⟨hr, List.forall_mem_cons.2 ⟨hno, hall⟩⟩

theorem Outcome.leaf (hleaf : (t.node i).IsLeaf)
    (ho : aabb.testOverlap (t.node i).aabb = true) (hsp : stack.length + 1 < KStackCapacity) :
    t.Outcome aabb (i :: stack) (some ((t.node i).userData, [i])) := by
  refine ⟨?_, ?_, .inl ⟨i, List.mem_cons_self, i, hitLeaf_self hleaf ho, rfl⟩⟩
  · rintro (hc | ⟨hno, -⟩)
    · exact absurd ((crowded_leaf hleaf).1 hc) (by omega)
    · exact hno ((hits_leaf hleaf).2 ho)
  · intro j hj
    obtain rfl := List.mem_singleton.1 hj
    exact ⟨j, List.mem_cons_self, [], rfl⟩

theorem Outcome.branch (h : t.Outcome aabb ((t.node i).right :: (t.node i).left :: stack) res)
    (hleaf : ¬(t.node i).IsLeaf) (ho : aabb.testOverlap (t.node i).aabb = true)
    (hsp : stack.length + 1 < KStackCapacity) :
    t.Outcome aabb (i :: stack) (res.map fun (r, read) => (r, i :: read)) := by
  have hcrowded : t.CrowdedStack aabb (i :: stack) ↔
      t.CrowdedStack aabb ((t.node i).right :: (t.node i).left :: stack) := by
    simp only [CrowdedStack, crowded_branch hleaf ho, hits_branch hleaf, List.length_cons,
      or_iff_right (by omega : ¬KStackCapacity ≤ stack.length + 1)]
    tauto
  have hbelow : ∀ j : ℤ,
      (∃ k ∈ (t.node i).right :: (t.node i).left :: stack, ∃ p, t.follow k p = some j) →
        ∃ k ∈ i :: stack, ∃ p, t.follow k p = some j := by
    rintro j ⟨k, hk, p, hp⟩
    rw [List.mem_cons, List.mem_cons] at hk
    rcases hk with rfl | rfl | hk
    · exact ⟨i, List.mem_cons_self, true :: p, (follow_cons hleaf true p).trans hp⟩
    · exact ⟨i, List.mem_cons_self, false :: p, (follow_cons hleaf false p).trans hp⟩
    · exact ⟨k, List.mem_cons_of_mem _ hk, p, hp⟩
  cases res with
  | none => exact hcrowded.2 h
  | some res =>
    obtain ⟨hc, hread, hr⟩ := h
    refine ⟨mt hcrowded.1 hc, ?_, ?_⟩
    · intro j hj
      rcases List.mem_cons.1 hj with rfl | hj
      · exact ⟨j, List.mem_cons_self, [], rfl⟩
      · exact hbelow j (hread j hj)
    · rcases hr with ⟨k, hk, id, hid, hr⟩ | ⟨hr, hall⟩
      · rw [List.mem_cons, List.mem_cons] at hk
        rcases hk with rfl | rfl | hk
        · exact .inl ⟨i, List.mem_cons_self, id, (hitLeaf_branch hleaf).2 (.inr hid), hr⟩
        · exact .inl ⟨i, List.mem_cons_self, id, (hitLeaf_branch hleaf).2 (.inl hid), hr⟩
        · exact .inl ⟨k, List.mem_cons_of_mem _ hk, id, hid, hr⟩
      · rw [List.forall_mem_cons, List.forall_mem_cons] at hall
        refine .inr ⟨hr, List.forall_mem_cons.2 ⟨?_, hall.2.2⟩⟩
        rw [hits_branch hleaf]
        exact not_or.2 ⟨hall.2.1, hall.1⟩

/-- **The loop.**  From a stack of subtrees, and with as much fuel as they have nodes. -/
theorem queryLoop_spec {σs : List (BoxTree K)} {fuel : ℕ} (hσs : ∀ σ ∈ σs, t.Subtree σ)
    (hfuel : (σs.flatMap names).length ≤ fuel) :
    t.Outcome aabb (σs.map name) (t.queryLoop aabb fuel (σs.map name)) := by
  induction fuel generalizing σs with
  | zero =>
    cases σs with
    | nil => exact ⟨id, by simp, .inr ⟨rfl, by simp⟩⟩
    | cons σ σs => cases σ <;> simp [names] at hfuel
  | succ fuel ih =>
    cases σs with
    | nil => exact ⟨id, by simp, .inr ⟨rfl, by simp⟩⟩
    | cons σ σs =>
      rw [List.forall_mem_cons] at hσs
      obtain ⟨hσ, hσs⟩ := hσs
      rw [List.flatMap_cons, List.length_append] at hfuel
      rw [List.map_cons, queryLoop, List.length_cons]
      dsimp only
      split_ifs with hsp ho hleaf
      · -- a leaf that overlaps
        exact .leaf hleaf ho hsp
      · cases σ with
        | leaf i a => exact absurd hσ.isLeaf hleaf
        | node i b l r =>
          obtain ⟨-, hleft, hright⟩ := hσ.node_branch
          simp only [names, List.length_cons, List.length_append] at hfuel
          have hrec : t.Outcome aabb ((r :: l :: σs).map name)
              (t.queryLoop aabb fuel ((r :: l :: σs).map name)) :=
            ih (List.forall_mem_cons.2 ⟨hσ.right, List.forall_mem_cons.2 ⟨hσ.left, hσs⟩⟩)
              (by simp only [List.flatMap_cons, List.length_append]; omega)
          rw [List.map_cons, List.map_cons, ← hleft, ← hright] at hrec
          exact hrec.branch hleaf ho hsp
      · have hpos : 0 < σ.names.length := List.length_pos_of_mem σ.name_mem_names
        exact (ih hσs (by omega)).drop hσ ho hsp
      · exact .inl (.full (not_lt.1 hsp))

theorem mem_read_of_queryLoop {fuel : ℕ} {r : ℤ} {read : List ℤ}
    (h : t.queryLoop aabb (fuel + 1) (i :: stack) = some (r, read)) : i ∈ read := by
  rw [queryLoop] at h
  dsimp only at h
  split_ifs at h
  · obtain ⟨-, rfl⟩ := Prod.mk.inj (Option.some.inj h)
    exact List.mem_cons_self
  · obtain ⟨res, -, hres⟩ := Option.map_eq_some_iff.1 h
    obtain ⟨-, rfl⟩ := Prod.mk.inj hres
    exact List.mem_cons_self
  · obtain ⟨res, -, hres⟩ := Option.map_eq_some_iff.1 h
    obtain ⟨-, rfl⟩ := Prod.mk.inj hres
    exact List.mem_cons_self

end Loop

theorem hitLeaf_root_iff [LinearOrder K] {t : DynamicAABBTree K} {aabb : AABB2 K} {id : ℤ}
    (hroot : t.root ≠ Null) :
    t.HitLeaf aabb t.root id ↔
      t.LiveLeaf id ∧ aabb.testOverlap (t.node id).aabb = true := by
  have hreach : t.Reaches id ↔ ∃ p, t.follow t.root p = some id := by
    simp only [reaches_iff_nodeAt, nodeAt, if_neg hroot]
  rw [LiveLeaf, hreach, HitLeaf, and_assoc]

end DynamicAABBTree

/-! ### Runs -/

open DynamicAABBTree

/-- An `Insert` with an entity that is not negative, or another call. -/
def TreeCall.NonNeg {K : Type*} : TreeCall K → Prop
  | .insert _ entity _ => 0 ≤ entity
  | _ => True

instance {K : Type*} : DecidablePred (TreeCall.NonNeg (K := K))
  | .insert _ entity _ => inferInstanceAs (Decidable (0 ≤ entity))
  | .remove _ => .isTrue trivial
  | .update .. => .isTrue trivial

namespace TrackedTree

variable {K : Type*} [LinearOrder K]

/-- `entity` is the user data of a live leaf whose fat box overlaps. -/
def HitEntity (s : TrackedTree K) (aabb : AABB2 K) (entity : ℤ) : Prop :=
  ∃ id box, s.given id = some (entity, box) ∧ aabb.testOverlap (s.tree.getFatAABB id) = true

/-- `Query` returns the user data of an overlapping live leaf whenever there is one, `Null`
exactly when there is none, and reads allocated nodes only. -/
def QueryCorrect (s : TrackedTree K) (aabb : AABB2 K) : Prop :=
  ∃ r read, s.tree.query aabb = some (r, read) ∧ (∀ i ∈ read, s.tree.Reaches i) ∧
    ((∃ entity, s.HitEntity aabb entity) → s.HitEntity aabb r) ∧
    (r = Null ↔ ¬∃ entity, s.HitEntity aabb entity)

variable {s s' : TrackedTree K} {T : Option (BoxTree K)} {aabb : AABB2 K} {entity : ℤ}

theorem Tracks.hitEntity_iff (h : s.Tracks T) : s.HitEntity aabb entity ↔
    ∃ id, s.tree.LiveLeaf id ∧ aabb.testOverlap (s.tree.node id).aabb = true ∧
      (s.tree.node id).userData = entity := by
  have hagrees := h.agrees
  constructor
  · rintro ⟨id, box, hgiven, ho⟩
    exact ⟨id, (hagrees.live id).2 (by rw [hgiven]; rfl), ho, hagrees.userData _ _ _ hgiven⟩
  · rintro ⟨id, hlive, ho, hdata⟩
    obtain ⟨⟨e, box⟩, hgiven⟩ := Option.isSome_iff_exists.1 ((hagrees.live id).1 hlive)
    obtain rfl : e = entity := (hagrees.userData _ _ _ hgiven).symm.trans hdata
    exact ⟨id, box, hgiven, ho⟩

theorem Tracks.hits_root_iff (h : s.Tracks T) (hroot : s.tree.root ≠ Null) :
    s.tree.Hits aabb s.tree.root ↔ ∃ entity, s.HitEntity aabb entity := by
  simp only [Hits, hitLeaf_root_iff hroot, h.hitEntity_iff]
  constructor
  · rintro ⟨id, hlive, ho⟩
    exact ⟨_, id, hlive, ho, rfl⟩
  · rintro ⟨_, id, hlive, ho, -⟩
    exact ⟨id, hlive, ho⟩

/-- A query that is right has read `root_`, and the node it starts at. -/
theorem QueryCorrect.reads (h : s.QueryCorrect aabb) :
    s.tree.Reaches s.tree.root ∧
      (0 < s.tree.size.toNat → s.tree.Reaches (s.tree.node s.tree.root).userData) := by
  obtain ⟨r, read, hq, hall, -⟩ := h
  obtain ⟨⟨r', read'⟩, hloop, hres⟩ := Option.map_eq_some_iff.1 hq
  obtain ⟨-, rfl⟩ := Prod.mk.inj hres
  rw [List.forall_mem_cons] at hall
  refine ⟨hall.1, fun hpos => hall.2 _ ?_⟩
  obtain ⟨fuel, hfuel⟩ := Nat.exists_eq_succ_of_ne_zero hpos.ne'
  rw [hfuel] at hloop
  exact mem_read_of_queryLoop hloop

/-- A query that starts at the subtree `σ`. -/
theorem Tracks.queryCorrect_iff (h : s.Tracks T)
    (hentity : ∀ entity, s.HitEntity aabb entity → 0 ≤ entity) {σ : BoxTree K}
    (hσ : s.tree.Subtree σ) (hlen : σ.names.length ≤ s.tree.size.toNat)
    (hroot : s.tree.root ≠ Null) (hstart : (s.tree.node s.tree.root).userData = σ.name)
    (hreach : s.tree.Reaches σ.name) :
    s.QueryCorrect aabb ↔ (s.tree.Hits aabb σ.name ∨ ¬s.tree.Hits aabb s.tree.root) ∧
      ¬s.tree.Crowded aabb 1 σ.name := by
  have hspec : s.tree.Outcome aabb ([σ].map name)
      (s.tree.queryLoop aabb s.tree.size.toNat ([σ].map name)) :=
    queryLoop_spec (List.forall_mem_singleton.2 hσ) (by simpa using hlen)
  have hcrowded : s.tree.CrowdedStack aabb [σ.name] ↔ s.tree.Crowded aabb 1 σ.name := by
    simp [CrowdedStack]
  rw [QueryCorrect, query, hstart]
  rw [List.map_singleton] at hspec
  cases hloop : s.tree.queryLoop aabb s.tree.size.toNat [σ.name] with
  | none =>
    rw [hloop] at hspec
    refine iff_of_false ?_ fun hc => hc.2 (hcrowded.1 hspec)
    rintro ⟨r, read, hq, -⟩
    cases hq
  | some res =>
    obtain ⟨r, read⟩ := res
    rw [hloop] at hspec
    obtain ⟨hc, hread, hr⟩ := hspec
    rw [and_iff_left (mt hcrowded.2 hc), h.hits_root_iff hroot]
    have hall : ∀ i ∈ s.tree.root :: read, s.tree.Reaches i := by
      refine List.forall_mem_cons.2 ⟨.root hroot, fun j hj => ?_⟩
      obtain ⟨i, hi, p, hp⟩ := hread j hj
      obtain rfl := List.mem_singleton.1 hi
      exact reaches_of_follow hreach hp
    rcases hr with ⟨i, hi, id, hid, hr⟩ | ⟨hr, hno⟩
    · -- a leaf was found
      obtain rfl := List.mem_singleton.1 hi
      have hhit : s.HitEntity aabb r := h.hitEntity_iff.2
        ⟨id, ⟨hid.1.elim fun _ hp => reaches_of_follow hreach hp, hid.2.1⟩, hid.2.2, hr.symm⟩
      refine iff_of_true ⟨r, _, rfl, hall, fun _ => hhit, ?_⟩ (.inl ⟨id, hid⟩)
      exact iff_of_false (ne_null_of_nonneg (hentity r hhit)) fun hnone => hnone ⟨r, hhit⟩
    · have hno' := hno _ (List.mem_singleton_self _)
      rw [or_iff_right hno']
      constructor
      · rintro ⟨r', read', hq, -, -, hnull⟩
        obtain ⟨rfl, -⟩ := Prod.mk.inj (Option.some.inj hq)
        exact hnull.1 hr
      · intro hnone
        exact ⟨r, _, rfl, hall, fun hex => absurd hex hnone, iff_of_true hr hnone⟩

/-- Without a root the query reads the index `-1`. -/
theorem Tracks.not_queryCorrect_none (h : s.Tracks none) : ¬s.QueryCorrect aabb := by
  intro hq
  exact absurd ((reaches_iff h.holds).1 hq.reads.1) List.not_mem_nil

section Root

variable {τ : BoxTree K} (h : s.Tracks (some τ))
include h

theorem Tracks.root_eq : s.tree.root = τ.name := h.holds.rooted.1

theorem Tracks.subtree : s.tree.Subtree τ :=
  ⟨⟨_, h.holds.rooted.2⟩, h.holds.nonNeg.of_append_left, h.exact⟩

theorem Tracks.root_ne_null : s.tree.root ≠ Null :=
  h.root_eq ▸ h.subtree.nonNeg.ne_null τ.name_mem_names

end Root

/-- A root that is a leaf: the query starts at the index that is the entity. -/
theorem Tracks.queryCorrect_leaf_iff {i : ℤ} {a : LeafData K} (h : s.Tracks (some (.leaf i a)))
    (hentity : ∀ entity, s.HitEntity aabb entity → 0 ≤ entity) :
    s.QueryCorrect aabb ↔ s.tree.StartsWell aabb := by
  have hroot : s.tree.root = i := h.root_eq
  have hleaf : (s.tree.node s.tree.root).IsLeaf := hroot ▸ h.subtree.isLeaf
  rw [StartsWell, and_iff_right h.root_ne_null, if_pos hleaf]
  constructor
  · intro hq
    have hmem := (reaches_iff h.holds).1 (hq.reads.2 (by have := h.holds.size_pos; omega))
    exact (List.mem_singleton.1 hmem).trans hroot.symm
  · intro hstart
    rw [h.queryCorrect_iff hentity h.subtree h.holds.length_names_le h.root_ne_null
      (hstart.trans hroot) (hroot ▸ .root h.root_ne_null), hroot]
    exact ⟨em _, fun hc => absurd ((crowded_leaf h.subtree.isLeaf).1 hc) (by decide)⟩

/-- A root that is a branch: the query starts at its left child. -/
theorem Tracks.queryCorrect_branch_iff {i : ℤ} {b : BranchData K} {l r : BoxTree K}
    (h : s.Tracks (some (.node i b l r)))
    (hentity : ∀ entity, s.HitEntity aabb entity → 0 ≤ entity) :
    s.QueryCorrect aabb ↔ s.tree.StartsWell aabb := by
  have hroot : s.tree.root = i := h.root_eq
  have hleaf : ¬(s.tree.node s.tree.root).IsLeaf := hroot ▸ h.subtree.not_isLeaf
  obtain ⟨-, hleft, -⟩ := h.subtree.node_branch
  have hstart : (s.tree.node s.tree.root).userData = l.name := by rw [hroot]; exact hleft
  have hlen : l.names.length ≤ s.tree.size.toNat := by
    have hall := h.holds.length_names_le
    simp only [treeNames, names, List.length_cons, List.length_append] at hall
    omega
  rw [StartsWell, and_iff_right h.root_ne_null, if_neg hleaf,
    h.queryCorrect_iff hentity h.subtree.left hlen h.root_ne_null hstart
      (hstart ▸ .left (.root h.root_ne_null) hleaf), ← hstart, hits_branch hleaf]
  refine and_congr_left fun _ => ?_
  rw [not_or]
  tauto

section Runs

variable [Field K] [IsStrictOrderedRing K] {es : List (TrackedTree K × TreeCall K)} {size : ℤ}

omit [IsStrictOrderedRing K] in
theorem nonneg_run (h : (treeSystem K).Run (freshTree size) es s)
    (hentity : ∀ e ∈ es, e.2.NonNeg) :
    ∀ id entity box, s.given id = some (entity, box) → 0 ≤ entity := by
  refine h.invariant_of (C := fun _ call => call.NonNeg)
    (I := fun s => ∀ id entity box, s.given id = some (entity, box) → 0 ≤ entity)
    (fun _ _ _ hg => nomatch hg) (fun s call s' hs hstep hc id entity box hg => ?_) hentity
  cases call with
  | insert aabb e j =>
    rw [hstep.2, Function.update_apply] at hg
    split_ifs at hg
    · obtain ⟨rfl, -⟩ := Prod.mk.inj (Option.some.inj hg)
      exact hc
    · exact hs id entity box hg
  | remove j =>
    rw [hstep.2.2, Function.update_apply] at hg
    split_ifs at hg
    exact hs id entity box hg
  | update j aabb moved =>
    obtain ⟨e, b, hj, -, hgiven⟩ := hstep
    rw [hgiven, Function.update_apply] at hg
    split_ifs at hg
    · obtain ⟨rfl, -⟩ := Prod.mk.inj (Option.some.inj hg)
      exact hs j e b hj
    · exact hs id entity box hg

/-- **When the query is right.**  In every state of a run whose entities are not negative, and
for every box: a single leaf has its own index as user data; or the root is a branch, a leaf
on its left is hit if one on its right is, and the stack suffices on its left. -/
theorem query_iff (hsize : 1 ≤ size) (h : (treeSystem K).Run (freshTree size) es s)
    (hentity : ∀ e ∈ es, e.2.NonNeg) (aabb : AABB2 K) :
    s.QueryCorrect aabb ↔ s.tree.StartsWell aabb := by
  obtain ⟨T, hT⟩ := tracked_run hsize h
  have hpos : ∀ entity, s.HitEntity aabb entity → 0 ≤ entity := fun entity ⟨id, box, hg, _⟩ =>
    nonneg_run h hentity id entity box hg
  cases T with
  | none =>
    have hroot : s.tree.root = Null := hT.holds.rooted
    exact iff_of_false hT.not_queryCorrect_none fun hw => hw.1 hroot
  | some τ =>
    cases τ with
    | leaf i a => exact hT.queryCorrect_leaf_iff hpos
    | node i b l r => exact hT.queryCorrect_branch_iff hpos

/-- Three leaves, and the one that is looked for lies below the left child of the root. -/
theorem query_iff_three_leaves : ∃ es s, (treeSystem ℚ).Run (freshTree 1) es s ∧ es.length = 3 ∧
    ¬(s.tree.node s.tree.root).IsLeaf ∧ s.QueryCorrect ⟨⟨0, 0⟩, ⟨1, 1⟩⟩ := by
  obtain ⟨s, hrun, hs⟩ := exists_run (freshTree 1 : TrackedTree ℚ)
    [.insert ⟨⟨0, 0⟩, ⟨1, 1⟩⟩ 7 0, .insert ⟨⟨20, 20⟩, ⟨21, 21⟩⟩ 8 1,
      .insert ⟨⟨40, 0⟩, ⟨41, 1⟩⟩ 9 3]
    (fun s => (s.tree.root ≠ Null ∧ ¬(s.tree.node s.tree.root).IsLeaf ∧
        (s.tree.node s.tree.root).left = 4) ∧ ¬(s.tree.node 4).IsLeaf ∧
      AABB2.testOverlap ⟨⟨0, 0⟩, ⟨1, 1⟩⟩ (s.tree.node 4).aabb = true ∧
      (s.tree.node (s.tree.node 4).left).IsLeaf ∧
      AABB2.testOverlap ⟨⟨0, 0⟩, ⟨1, 1⟩⟩ (s.tree.node (s.tree.node 4).left).aabb = true ∧
      (s.tree.node (s.tree.node 4).right).IsLeaf) (by decide +kernel)
  obtain ⟨⟨hroot, hbranch, hfour⟩, hnode, hover, hleft, hhit, hright⟩ := of_decide_eq_true hs
  refine ⟨_, s, hrun, by decide +kernel, hbranch, (query_iff le_rfl hrun (by decide +kernel) _).2 ?_⟩
  rw [StartsWell, if_neg hbranch, hfour, hits_branch hnode, hits_leaf hleft,
    crowded_branch hnode hover, crowded_leaf hright, crowded_leaf hleft]
  exact ⟨hroot, .inl (.inl hhit), by simp [KStackCapacity]⟩

/-- The box lies on the right leaf of the root, and is looked for on the left only. -/
theorem query_misses_right : ¬∀ (es : List (TrackedTree ℚ × TreeCall ℚ)) (s : TrackedTree ℚ),
    (treeSystem ℚ).Run (freshTree 1) es s → (∀ e ∈ es, e.2.NonNeg) →
      ∀ aabb, s.QueryCorrect aabb := by
  intro h
  obtain ⟨s, hrun, hs⟩ := exists_run (freshTree 1 : TrackedTree ℚ)
    [.insert ⟨⟨0, 0⟩, ⟨1, 1⟩⟩ 7 0, .insert ⟨⟨20, 20⟩, ⟨21, 21⟩⟩ 8 1]
    (fun s => (s.tree.query ⟨⟨20, 20⟩, ⟨21, 21⟩⟩).map Prod.fst = some Null ∧
      s.given 1 = some (8, ⟨⟨20, 20⟩, ⟨21, 21⟩⟩) ∧
      AABB2.testOverlap ⟨⟨20, 20⟩, ⟨21, 21⟩⟩ (s.tree.getFatAABB 1) = true) (by decide +kernel)
  obtain ⟨hquery, hgiven, hover⟩ := of_decide_eq_true hs
  obtain ⟨r, read, hq, -, -, hnull⟩ := h _ s hrun (by decide +kernel) ⟨⟨20, 20⟩, ⟨21, 21⟩⟩
  have hr : r = Null := by
    rw [hq] at hquery
    exact Option.some.inj hquery
  exact hnull.1 hr ⟨8, 1, ⟨⟨20, 20⟩, ⟨21, 21⟩⟩, hgiven, hover⟩

end Runs

end TrackedTree

end ClientServer
