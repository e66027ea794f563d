import ClientServer.AABBTree.Pool

/-!
# Linking and unlinking leaves

`InsertLeaf` and `RemoveLeaf` on a pool that holds a tree.

* `searchSibling_finds` : the search stops at a node of the tree.
* `Holds.syncHeirarchy` : `SyncHeirarchy` on a pool.
* `Holds.insertLeaf`, `Holds.removeLeaf` : a detached leaf becomes a leaf of the tree, and back,
  with its box and its user data; all other leaves stay, and so do the other detached nodes.
-/

namespace ClientServer

open BinTree BoxTree

namespace DynamicAABBTree

variable {K : Type*} {t : DynamicAABBTree K} {D : List ℤ} {τ σ : BoxTree K}
  {fs gs : List (Frame ℤ (LeafData K) (BranchData K))}

/-- A tree that may be empty has exact boxes and heights. -/
def ExactTree [LinearOrder K] : Option (BoxTree K) → Prop
  | none => True
  | some τ => Exact τ

/-- The second tree is the first with the leaf `id` beside the node `sibling`, as `SyncHeirarchy`
leaves it. -/
inductive Inserts [LinearOrder K] (id : ℤ) (a : LeafData K) (sibling : Option ℤ) :
    Option (BoxTree K) → Option (BoxTree K) → Prop
  | first : Inserts id a sibling none (some (.leaf id a))
  | beside {gs : List (Frame ℤ (LeafData K) (BranchData K))} {σ : BoxTree K} {np : ℤ}
      {b : BranchData K} : sibling = some σ.name → b.height = height σ + 1 →
      Inserts id a sibling (some (plug gs σ)) (some (climb (.right np b σ :: gs) (.leaf id a)))

theorem Inserts.congr [LinearOrder K] {id : ℤ} {a : LeafData K} {sibling sibling' : Option ℤ}
    {T T' : Option (BoxTree K)} (h : Inserts id a sibling T T') (heq : T ≠ none → sibling' = sibling) :
    Inserts id a sibling' T T' := by
  cases h with
  | first => exact .first
  | beside hsibling hb => exact .beside ((heq (Option.some_ne_none _)).trans hsibling) hb

/-- The second tree is the first without the leaf `id`, as `SyncHeirarchy` leaves it. -/
inductive Removes [LinearOrder K] (id : ℤ) (a : LeafData K) :
    Option (BoxTree K) → Option (BoxTree K) → Prop
  | last : Removes id a (some (.leaf id a)) none
  | lift {f : Frame ℤ (LeafData K) (BranchData K)}
      {gs : List (Frame ℤ (LeafData K) (BranchData K))} :
      Removes id a (some (plug (f :: gs) (.leaf id a))) (some (climb gs f.sibling))

/-! ### `SyncHeirarchy` -/

theorem Holds.syncHeirarchy [LinearOrder K] (h : t.Holds (some (plug fs τ)) D) (hτ : Exact τ)
    (hfs : ExactCtx fs) :
    ∃ t', DynamicAABBTree.syncHeirarchy t.size.toNat t (above Null fs) = some t' ∧
      t'.Holds (some (climb fs τ)) D ∧ ∀ j ∈ D, t'.node j = t.node j := by
  obtain ⟨hroot, hlinks⟩ := h.rooted
  obtain ⟨hfocus, hctx⟩ := linked_plug.1 hlinks
  have hperm := names_plug_perm fs τ
  have hn := (hperm.append_right D).nodup_iff.1 h.nodup
  have h0 := h.nonNeg.perm (hperm.append_right D)
  -- the nodes above the focus are nodes of the pool, so the fuel is enough
  have hlen : fs.length ≤ t.size.toNat := by
    have h₁ := length_le_length_ctxNames fs
    have h₂ : (plug fs τ).names.length ≤ t.size.toNat := h.length_names_le
    rw [hperm.length_eq, List.length_append] at h₂
    omega
  obtain ⟨t', hsync, hlinks', hroot', hframe, hshell⟩ := syncHeirarchy_refines hlen hfocus hctx
    hroot hτ hfs (List.nodup_append.1 hn).1 h0.of_append_left
  refine ⟨t', hsync, h.restructure hshell ⟨hroot', hlinks'⟩ ?_ fun j hj => hframe j ?_,
    fun j hj => hframe j fun hmem => ?_⟩
  · exact ((names_climb_perm fs τ).trans hperm.symm).append_right D
  · rw [← hperm.mem_iff]
    exact fun hmem => hj (List.mem_append_left _ hmem)
  · exact (List.nodup_append.1 hn).2.2 _ hmem _ hj rfl

/-! ### The search for a sibling -/

theorem Links.isLeaf_leaf {p i : ℤ} {a : LeafData K} (h : t.Links p (.leaf i a)) :
    (t.node i).IsLeaf := by
  rw [Node.IsLeaf, show t.node i = _ from h]
  rfl

theorem Links.not_isLeaf_node {p i : ℤ} {b : BranchData K} {l r : BoxTree K}
    (h : t.Links p (.node i b l r)) (h0 : NonNeg r.names) : ¬(t.node i).IsLeaf := by
  rw [Node.IsLeaf, h.1]
  exact h0.ne_null r.name_mem_names

section Search

variable [Field K] [LinearOrder K] (leafAABB : AABB2 K)

theorem descentStep_cases (i : ℤ) : t.descentStep leafAABB i = none ∨
    t.descentStep leafAABB i = some (t.node i).left ∨
    t.descentStep leafAABB i = some (t.node i).right := by
  simp only [descentStep]
  split_ifs <;> simp

/-- **The search stops at a node of the tree**, within as many turns as the tree has nodes. -/
theorem searchSibling_finds {p : ℤ} {fuel : ℕ} (h : t.Links p τ) (h0 : NonNeg τ.names)
    (hfuel : τ.names.length ≤ fuel) :
    ∃ gs σ, plug gs σ = τ ∧ t.searchSibling leafAABB fuel τ.name = some σ.name := by
  induction τ generalizing p fuel with
  | leaf i a =>
    obtain ⟨fuel, rfl⟩ : ∃ k, fuel = k + 1 := ⟨fuel - 1, by simp [names] at hfuel; omega⟩
    refine ⟨[], .leaf i a, rfl, ?_⟩
    rw [searchSibling, if_pos]
    exact h.isLeaf_leaf
  | node i b l r ihl ihr =>
    simp only [names, List.length_cons, List.length_append] at hfuel
    obtain ⟨fuel, rfl⟩ : ∃ k, fuel = k + 1 := ⟨fuel - 1, by omega⟩
    have hleaf := h.not_isLeaf_node h0.right
    obtain ⟨hi, hl, hr⟩ := h
    rw [searchSibling, name, if_neg hleaf]
    -- stop here, or go on to the left or to the right; the costs do not matter
    rcases descentStep_cases (t := t) leafAABB i with hstep | hstep | hstep
    · exact ⟨[], .node i b l r, rfl, by rw [hstep]; rfl⟩
    · have hfl : l.names.length ≤ fuel := by omega
      obtain ⟨gs, σ, hσ, hfind⟩ := ihl hl h0.left hfl
      refine ⟨gs ++ [.left i b r], σ, ?_, ?_⟩
      · rw [plug_append, hσ]; rfl
      · rw [hstep, hi]; exact hfind
    · have hfr : r.names.length ≤ fuel := by omega
      obtain ⟨gs, σ, hσ, hfind⟩ := ihr hr h0.right hfr
      refine ⟨gs ++ [.right i b l], σ, ?_, ?_⟩
      · rw [plug_append, hσ]; rfl
      · rw [hstep, hi]; exact hfind

variable {t' : DynamicAABBTree K} {p p' : ℤ}

theorem Links.descentStep_eq {i : ℤ} {b : BranchData K} {l r : BoxTree K}
    (h : t.Links p (.node i b l r)) (h' : t'.Links p' (.node i b l r)) :
    t'.descentStep leafAABB i = t.descentStep leafAABB i := by
  have hright : ∀ {τ : BoxTree K}, t.Links i τ → t'.Links i τ →
      (t'.node τ.name).right = (t.node τ.name).right := by
    intro τ hτ hτ'
    rw [Links.node_eq hτ hτ']
  obtain ⟨hi, (hl : t.Links i l), (hr : t.Links i r)⟩ := h
  obtain ⟨hi', (hl' : t'.Links i l), (hr' : t'.Links i r)⟩ := h'
  simp only [descentStep, descentCost, Node.IsLeaf, hi, hi', layout, hright hl hl', hright hr hr',
    hl.aabb, hl'.aabb, hr.aabb, hr'.aabb]

/-- Where the search stops depends on the tree only. -/
theorem Links.searchSibling_eq {fuel fuel' : ℕ} (h : t.Links p τ) (h' : t'.Links p' τ)
    (h0 : NonNeg τ.names) (hfuel : τ.names.length ≤ fuel) (hfuel' : τ.names.length ≤ fuel') :
    t'.searchSibling leafAABB fuel' τ.name = t.searchSibling leafAABB fuel τ.name := by
  induction τ generalizing p p' fuel fuel' with
  | leaf i a =>
    obtain ⟨fuel, rfl⟩ : ∃ k, fuel = k + 1 := ⟨fuel - 1, by simp [names] at hfuel; omega⟩
    obtain ⟨fuel', rfl⟩ : ∃ k, fuel' = k + 1 := ⟨fuel' - 1, by simp [names] at hfuel'; omega⟩
    rw [searchSibling, searchSibling, name, if_pos h.isLeaf_leaf, if_pos h'.isLeaf_leaf]
  | node i b l r ihl ihr =>
    simp only [names, List.length_cons, List.length_append] at hfuel hfuel'
    obtain ⟨fuel, rfl⟩ : ∃ k, fuel = k + 1 := ⟨fuel - 1, by omega⟩
    obtain ⟨fuel', rfl⟩ : ∃ k, fuel' = k + 1 := ⟨fuel' - 1, by omega⟩
    rw [searchSibling, searchSibling, name, if_neg (h.not_isLeaf_node h0.right),
      if_neg (h'.not_isLeaf_node h0.right), h.descentStep_eq leafAABB h']
    obtain ⟨hi, hl, hr⟩ := h
    obtain ⟨-, hl', hr'⟩ := h'
    -- both go the same way
    rcases descentStep_cases (t := t) leafAABB i with hstep | hstep | hstep
    · rw [hstep]
    · rw [hstep, hi]
      exact ihl hl hl' h0.left (by omega) (by omega)
    · rw [hstep, hi]
      exact ihr hr hr' h0.right (by omega) (by omega)

end Search

/-! ### Insertion -/

theorem perm_append_right_comm (is js ks : List ℤ) : (is ++ js ++ ks).Perm (is ++ ks ++ js) := by
  rw [List.append_assoc, List.append_assoc]
  exact List.perm_append_comm.append_left is

/-- The nodes that linking a leaf is about: the context, the focus, the new parent and the
leaf. -/
theorem linked_names_perm (np id : ℤ) (b : BranchData K) (a : LeafData K) :
    (treeNames (some (plug (.right np b σ :: gs) (.leaf id a))) ++ D).Perm
      (treeNames (some (plug gs σ)) ++ np :: id :: D) := by
  classical
  refine ((names_plug_perm _ _).append_right D).trans
    (.trans ?_ ((names_plug_perm gs σ).symm.append_right _))
  rw [List.perm_iff_count]
  intro x
  simp only [names, ctxNames, Frame.name, Frame.sibling, List.count_append, List.count_cons,
    List.count_nil]
  omega

theorem node_linkParent [LinearOrder K] {p np s id : ℤ} (box : AABB2 K)
    (hd : [p, np, s, id].Nodup) (t : DynamicAABBTree K) :
    let t' := t.linkParent id s np box p
    t'.node np = ⟨AABB2.union box (t.node s).aabb, p, s, id, (t.node s).height + 1⟩ ∧
    t'.node s = { t.node s with parent := np } ∧
    t'.node id = { t.node id with parent := np } ∧
    ∃ t₁ : DynamicAABBTree K, (∀ j, j ≠ np → t₁.node j = t.node j) ∧
      ∀ j, j ≠ np → j ≠ s → j ≠ id → t'.node j = (t₁.replaceChild p s np).node j := by
  simp only [List.nodup_cons, List.mem_cons, List.not_mem_nil, or_false, not_or, not_false_eq_true,
    List.nodup_nil, and_true] at hd
  obtain ⟨⟨hpn, hps, hpi⟩, ⟨hns, hni⟩, hsi⟩ := hd
  refine ⟨?_, ?_, ?_, t.modify np fun x =>
    { x with
      parent := p, left := -1, aabb := AABB2.union box (t.node s).aabb,
      height := (t.node s).height + 1 }, fun j hj => node_modify_of_ne _ _ hj,
    fun j hjn hjs hji => ?_⟩
  · simp only [linkParent, node_modify, hns, hni, ↓reduceIte,
      node_replaceChild_of_ne _ (Ne.symm hpn)]
  · simp only [linkParent, node_modify, hsi, Ne.symm hns, ↓reduceIte,
      node_replaceChild_of_ne _ (Ne.symm hps)]
  · simp only [linkParent, node_modify, Ne.symm hsi, Ne.symm hni, ↓reduceIte,
      node_replaceChild_of_ne _ (Ne.symm hpi)]
  · simp only [linkParent, node_modify_of_ne _ _ hji, node_modify_of_ne _ _ hjs,
      node_modify_of_ne _ _ hjn]

theorem root_linkParent [LinearOrder K] (t : DynamicAABBTree K) (p np s id : ℤ) (box : AABB2 K) :
    (t.linkParent id s np box p).root = if p = Null then np else t.root := by
  simp only [linkParent, root_modify, root_replaceChild]

theorem sameShell_linkParent [LinearOrder K] {p np s id : ℤ} {box : AABB2 K}
    (t : DynamicAABBTree K) : SameShell t (t.linkParent id s np box p) :=
  ((SameShell.refl t).modify.trans (sameShell_replaceChild _)).modify.modify.modify

/-- The root of a tree with another subtree at the focus: the root of that subtree, if there is nothing
above it. -/
theorem name_plug_above {τ : BoxTree K} {i : ℤ} (h : NonNeg (ctxNames gs)) (hi : i = τ.name) :
    (if above Null gs = Null then i else (plug gs σ).name) = (plug gs τ).name := by
  by_cases hnil : gs = []
  · subst hnil
    exact hi
  · rw [if_neg fun habs => hnil ((above_eq_null h).1 habs)]
    exact name_plug_of_ne_nil hnil

/-- **Linking a leaf** at `σ` under a new parent. -/
theorem Holds.linkParent [LinearOrder K] {np id : ℤ} (box : AABB2 K)
    (h : t.Holds (some (plug gs σ)) (np :: id :: D)) (hleaf : t.Fresh id) :
    ∃ b : BranchData K, b.height = (t.node σ.name).height + 1 ∧
      (t.linkParent id σ.name np box (above Null gs)).Holds
      (some (plug (.right np b σ :: gs) (.leaf id ⟨(t.node id).aabb, (t.node id).left⟩))) D ∧
      ∀ j ∈ D, (t.linkParent id σ.name np box (above Null gs)).node j = t.node j := by
  obtain ⟨hroot, hlinks⟩ := h.rooted
  obtain ⟨hfocus, hctx⟩ := linked_plug.1 hlinks
  have hperm := (names_plug_perm gs σ).append_right (np :: id :: D)
  have hswap := perm_append_right_comm σ.names (ctxNames gs) (np :: id :: D)
  have hn := hperm.nodup_iff.1 h.nodup
  have h0 := h.nonNeg.perm hperm
  have h0gs : NonNeg (ctxNames gs) := fun i hi => h0 i (by simp [hi])
  have habove : above Null gs ∉ σ.names ++ np :: id :: D := by
    refine above_not_mem (hswap.nodup_iff.1 hn) fun i hi => h0 i ?_
    exact hswap.mem_iff.2 (List.mem_append_left _ hi)
  have hσ := σ.name_mem_names
  simp only [List.nodup_append, List.nodup_cons, List.mem_append, List.mem_cons,
    not_or] at hn habove
  obtain ⟨⟨hnσ, hngs, hσgs⟩, ⟨⟨hni, hnD⟩, hiD, -⟩, hdis⟩ := hn
  have hnpσ : np ∉ σ.names := fun hm => hdis np (.inl hm) np (.inl rfl) rfl
  have hnpgs : np ∉ ctxNames gs := fun hm => hdis np (.inr hm) np (.inl rfl) rfl
  have hidσ : id ∉ σ.names := fun hm => hdis id (.inl hm) id (.inr (.inl rfl)) rfl
  have hidgs : id ∉ ctxNames gs := fun hm => hdis id (.inr hm) id (.inr (.inl rfl)) rfl
  have hd : [above Null gs, np, σ.name, id].Nodup := by
    simp only [List.nodup_cons, List.mem_cons, List.not_mem_nil, or_false, not_or,
      not_false_eq_true, List.nodup_nil, and_true]
    exact ⟨⟨habove.2.1, fun h => habove.1 (h ▸ hσ), habove.2.2.1⟩,
      ⟨fun h => hnpσ (h ▸ hσ), hni⟩, fun h => hidσ (h ▸ hσ)⟩
  obtain ⟨hnp, hs, hid, t₁, ht₁, ho⟩ := node_linkParent box hd t
  have hroot' := t.root_linkParent (above Null gs) np σ.name id box
  have hshell : SameShell t (t.linkParent id σ.name np box (above Null gs)) :=
    t.sameShell_linkParent
  generalize t.linkParent id σ.name np box (above Null gs) = t' at *
  have hframe : ∀ j, j ≠ np → j ≠ σ.name → j ≠ id → j ∉ ctxNames gs → t'.node j = t.node j :=
    fun j h₁ h₂ h₃ h₄ => (ho j h₁ h₂ h₃).trans
      ((t₁.node_replaceChild_above h₄).trans (ht₁ j h₁))
  refine ⟨⟨AABB2.union box (t.node σ.name).aabb, (t.node σ.name).height + 1⟩, rfl,
    h.restructure hshell ⟨?_, linked_plug.2 ⟨?_, ?_, ?_, ?_⟩⟩
      (linked_names_perm _ _ _ _) fun j hj => ?_, fun j hj => ?_⟩
  · rw [hroot', hroot]
    exact name_plug_above h0gs rfl
  · refine hid.trans ?_
    obtain ⟨hright, hheight⟩ := hleaf
    simp only [hright, hheight]
    rfl
  · exact hnp
  · refine Links.reparent hfocus hnσ (fun j hj hne => ?_) hs
    exact hframe j (ne_of_mem_of_not_mem hj hnpσ) hne (ne_of_mem_of_not_mem hj hidσ)
      fun hm => hσgs j hj j hm rfl
  · -- the link that led to `σ` now leads to the new parent
    have hctx₁ : t₁.LinksCtx σ.name gs := hctx.congr fun j hj =>
      ht₁ j (ne_of_mem_of_not_mem hj hnpgs)
    have hnew := linksCtx_replaceChild (c := np) hctx₁
      (List.nodup_cons.2 ⟨fun hm => hσgs _ hσ _ hm rfl, hngs⟩) h0gs
    exact hnew.congr fun j hj => ho j (ne_of_mem_of_not_mem hj hnpgs)
      (fun h => hσgs _ hσ j hj h.symm) (ne_of_mem_of_not_mem hj hidgs)
  · have hj' : j ∉ σ.names ++ ctxNames gs ++ np :: id :: D := fun hm => hj (hperm.mem_iff.2 hm)
    simp only [List.mem_append, List.mem_cons, not_or] at hj'
    exact hframe j hj'.2.1 (fun h => hj'.1.1 (h ▸ hσ)) hj'.2.2.1 hj'.1.2
  · refine hframe j (fun h => hnD (h ▸ hj)) ?_ (fun h => hiD (h ▸ hj)) fun hm => ?_
    · exact fun h => hdis _ (.inl hσ) j (.inr (.inr hj)) h.symm
    · exact hdis j (.inr hm) j (.inr (.inr hj)) rfl

/-- What an operation says about the leaf it took from the pool or put into it. -/
structure IsLeafOf (t : DynamicAABBTree K) (id : ℤ) (a : LeafData K) : Prop where
  fresh : t.Fresh id
  aabb : (t.node id).aabb = a.aabb
  userData : (t.node id).left = a.userData

theorem IsLeafOf.congr {t' : DynamicAABBTree K} {id : ℤ} {a : LeafData K} (h : t.IsLeafOf id a)
    (hc : t'.node id = t.node id) : t'.IsLeafOf id a := by
  obtain ⟨⟨hr, hh⟩, ha, hu⟩ := h
  exact ⟨⟨hc ▸ hr, hc ▸ hh⟩, hc ▸ ha, hc ▸ hu⟩

theorem Links.isLeafOf {p id : ℤ} {a : LeafData K} (h : t.Links p (.leaf id a)) :
    t.IsLeafOf id a := by
  have hid : t.node id = layout.leaf p a := h
  exact ⟨⟨hid ▸ rfl, hid ▸ rfl⟩, hid ▸ rfl, hid ▸ rfl⟩

theorem Holds.insertLeaf_empty [Field K] [LinearOrder K] {id : ℤ} {a : LeafData K}
    (h : t.Holds none (id :: D)) (hleaf : t.IsLeafOf id a) :
    ∃ t' T', t.insertLeaf id = some t' ∧ t'.Holds T' D ∧ ExactTree T' ∧
      (treeLeaves T').Perm [(id, a)] ∧ (∀ j ∈ D, t'.node j = t.node j) ∧
      Inserts id a (t.searchSibling (t.node id).aabb t.size.toNat t.root) none T' := by
  have hroot : t.root = Null := h.rooted
  have hid : id ∉ D := (List.nodup_cons.1 h.nodup).1
  obtain ⟨⟨hr, hh⟩, ha, hu⟩ := hleaf
  set t₁ : DynamicAABBTree K := { t with root := id } with ht₁
  have hnode : ∀ j, j ≠ id → (t₁.modify id fun x => { x with parent := Null }).node j = t.node j :=
    fun j hj => t₁.node_modify_of_ne _ hj
  refine ⟨t₁.modify id fun x => { x with parent := Null }, some (.leaf id a), ?_,
    h.restructure ⟨rfl, rfl, rfl, rfl⟩ ⟨rfl, ?_⟩ (.refl _) fun j hj => hnode j ?_, trivial,
    .refl _, fun j hj => hnode j (ne_of_mem_of_not_mem hj hid), .first⟩
  · rw [DynamicAABBTree.insertLeaf, if_pos hroot]
  · change (t₁.modify id fun x => { x with parent := Null }).node id = layout.leaf Null a
    rw [node_modify_self]
    change (⟨(t.node id).aabb, Null, (t.node id).left, (t.node id).right, (t.node id).height⟩ :
      Node K) = _
    rw [hr, hh, ha, hu]
    rfl
  · rintro rfl
    exact hj List.mem_cons_self

/-- `InsertLeaf`, after the search found `σ`. -/
theorem Holds.linkLeaf [Field K] [LinearOrder K] {id : ℤ} {a : LeafData K} {box : AABB2 K}
    (h : t.Holds (some (plug gs σ)) (id :: D)) (hT : Exact (plug gs σ))
    (hleaf : t.IsLeafOf id a) :
    ∃ t' T', t.linkLeaf id σ.name box = some t' ∧ t'.Holds T' D ∧ ExactTree T' ∧
      (treeLeaves T').Perm ((id, a) :: (plug gs σ).leaves) ∧ (∀ j ∈ D, t'.node j = t.node j) ∧
      Inserts id a (some σ.name) (some (plug gs σ)) T' := by
  have hparent : (t.node σ.name).parent = above Null gs :=
    Links.parent (linked_plug.1 h.rooted.2).1
  obtain ⟨hσ, hgs⟩ := exact_plug hT
  have hheight : (t.node σ.name).height = height σ :=
    Links.height (linked_plug.1 h.rooted.2).1
  obtain ⟨h₁, -, -, hframe₁⟩ := h.allocateNode
  have hσ₁ : t.allocateNode.1.node σ.name = t.node σ.name := by
    refine hframe₁ _ (List.mem_append_left _ ?_)
    exact (names_plug_perm gs σ).mem_iff.2 (List.mem_append_left _ σ.name_mem_names)
  have hleaf₁ : t.allocateNode.1.IsLeafOf id a :=
    hleaf.congr (hframe₁ id (List.mem_append_right _ List.mem_cons_self))
  obtain ⟨b, hb, h₂, hframe₂⟩ := h₁.linkParent box hleaf₁.fresh
  rw [hleaf₁.aabb, hleaf₁.userData] at h₂
  have hfs : ExactCtx (.right t.allocateNode.2 b σ :: gs) := by
    simpa only [ExactCtx, List.mem_cons, forall_eq_or_imp] using ⟨hσ, hgs⟩
  obtain ⟨t', hsync, h', hframe'⟩ := h₂.syncHeirarchy trivial hfs
  refine ⟨t', _, ?_, h', exact_climb trivial hfs, ?_, fun j hj => ?_,
    .beside rfl (by rw [hb, hσ₁, hheight])⟩
  · have hid := Links.parent (linked_plug.1 h₂.rooted.2).1
    simp only [DynamicAABBTree.linkLeaf, hparent]
    rw [show (DynamicAABBTree.node _ id).parent = _ from hid]
    exact hsync
  · exact (leaves_climb_perm _ _).trans ((leaves_plug_perm gs σ).symm.cons _)
  · rw [hframe' j hj, hframe₂ j hj, hframe₁ j (by simp [hj])]

/-- **`InsertLeaf`** makes a detached leaf a leaf of the tree. -/
theorem Holds.insertLeaf [Field K] [LinearOrder K] {T : Option (BoxTree K)} {id : ℤ}
    {a : LeafData K} (h : t.Holds T (id :: D)) (hT : ExactTree T) (hleaf : t.IsLeafOf id a) :
    ∃ t' T', t.insertLeaf id = some t' ∧ t'.Holds T' D ∧ ExactTree T' ∧
      (treeLeaves T').Perm ((id, a) :: treeLeaves T) ∧ (∀ j ∈ D, t'.node j = t.node j) ∧
      Inserts id a (t.searchSibling (t.node id).aabb t.size.toNat t.root) T T' := by
  cases T with
  | none => exact h.insertLeaf_empty hleaf
  | some τ =>
    have hn0 : NonNeg τ.names := h.nonNeg.of_append_left
    obtain ⟨gs, σ, rfl, hfind⟩ := searchSibling_finds (t.node id).aabb h.rooted.2 hn0
      h.length_names_le
    have hroot := h.rooted.1
    have hnull : t.root ≠ Null := hroot ▸ hn0.ne_null (name_mem_names _)
    rw [DynamicAABBTree.insertLeaf, if_neg hnull, hroot]
    simp only [hfind]
    exact h.linkLeaf hT hleaf

/-! ### Removal -/

theorem node_unlinkParent (t : DynamicAABBTree K) (p : ℤ) {s gp : ℤ} (hs : s ≠ gp) :
    (t.unlinkParent p s gp).node s = { t.node s with parent := gp } ∧
    ∀ j, j ≠ s → (t.unlinkParent p s gp).node j = (t.replaceChild gp p s).node j := by
  refine ⟨?_, fun j hj => ?_⟩
  · simp only [unlinkParent, node_modify_self, node_replaceChild_of_ne _ hs]
  · simp only [unlinkParent, node_modify_of_ne _ _ hj]

theorem root_unlinkParent (t : DynamicAABBTree K) (p s gp : ℤ) :
    (t.unlinkParent p s gp).root = if gp = Null then s else t.root := by
  simp only [unlinkParent, root_modify, root_replaceChild]

theorem sameShell_unlinkParent (t : DynamicAABBTree K) (p s gp : ℤ) :
    SameShell t (t.unlinkParent p s gp) :=
  (sameShell_replaceChild t).modify

/-- **Unlinking a leaf** together with its parent. -/
theorem Holds.unlinkParent {f : Frame ℤ (LeafData K) (BranchData K)} {id : ℤ} {a : LeafData K}
    (h : t.Holds (some (plug (f :: gs) (.leaf id a))) D) :
    (t.unlinkParent f.name f.sibling.name (above Null gs)).Holds (some (plug gs f.sibling))
      (f.name :: id :: D) ∧
      ∀ j ∈ id :: D, (t.unlinkParent f.name f.sibling.name (above Null gs)).node j = t.node j := by
  obtain ⟨hroot, hlinks⟩ := h.rooted
  obtain ⟨hfocus, hctx⟩ := linked_plug.1 hlinks
  obtain ⟨hbranch, hctx'⟩ := linked_frame_plug.2 ⟨hfocus, hctx⟩
  have hperm : (treeNames (some (plug (f :: gs) (.leaf id a))) ++ D).Perm
      (f.sibling.names ++ f.name :: id :: D ++ ctxNames gs) := by
    classical
    refine ((names_plug_perm _ _).append_right D).trans ?_
    rw [List.perm_iff_count]
    intro x
    simp only [names, ctxNames, List.count_append, List.count_cons, List.count_nil]
    omega
  have hn := hperm.nodup_iff.1 h.nodup
  have h0 := h.nonNeg.perm hperm
  have h0gs : NonNeg (ctxNames gs) := fun i hi => h0 i (by simp [hi])
  have habove : above Null gs ∉ f.sibling.names ++ f.name :: id :: D :=
    above_not_mem hn h0.of_append_left
  have hσ := f.sibling.name_mem_names
  have hsib : t.Links f.name f.sibling := by
    cases f with
    | left i b r => exact hbranch.2.2
    | right i b l => exact hbranch.2.1
  generalize f.sibling = σ at *
  simp only [List.nodup_append, List.nodup_cons, List.mem_append, List.mem_cons,
    not_or] at hn habove
  obtain ⟨⟨hnσ, ⟨⟨hfi, hfD⟩, hiD, -⟩, hσd⟩, hngs, hdis⟩ := hn
  have hfgs : f.name ∉ ctxNames gs := fun hm => hdis _ (.inr (.inl rfl)) _ hm rfl
  have hσgs : σ.name ≠ above Null gs := fun h => habove.1 (h ▸ hσ)
  obtain ⟨hs, ho⟩ := t.node_unlinkParent f.name hσgs
  have hroot' := t.root_unlinkParent f.name σ.name (above Null gs)
  have hshell := t.sameShell_unlinkParent f.name σ.name (above Null gs)
  generalize t.unlinkParent f.name σ.name (above Null gs) = t' at *
  have hframe : ∀ j, j ≠ σ.name → j ∉ ctxNames gs → t'.node j = t.node j := fun j h₁ h₂ =>
    (ho j h₁).trans (t.node_replaceChild_above h₂)
  refine ⟨h.restructure hshell ⟨?_, linked_plug.2 ⟨?_, ?_⟩⟩ ?_ fun j hj => ?_, fun j hj => ?_⟩
  · rw [hroot', hroot]
    exact name_plug_above h0gs rfl
  · exact hsib.reparent hnσ (fun j hj hne => hframe j hne fun hm => hdis j (.inl hj) j hm rfl) hs
  · exact (linksCtx_replaceChild hctx' (List.nodup_cons.2 ⟨hfgs, hngs⟩) h0gs).congr fun j hj =>
      ho j fun h => hdis _ (.inl hσ) j hj h.symm
  · exact ((names_plug_perm gs σ).append_right _).trans
      ((perm_append_right_comm _ _ _).trans hperm.symm)
  · rw [hperm.mem_iff] at hj
    simp only [List.mem_append, not_or] at hj
    exact hframe j (fun h => hj.1.1 (h ▸ hσ)) hj.2
  · rw [List.mem_cons] at hj
    exact hframe j (fun h => hσd _ hσ j (.inr hj) h.symm) fun hm => hdis j (.inr (.inr hj)) j hm rfl

theorem frame_links {f : Frame ℤ (LeafData K) (BranchData K)} {id : ℤ} {a : LeafData K}
    (h : t.Links Null (plug (f :: gs) (.leaf id a))) (hne : f.sibling.name ≠ id) :
    (t.node f.name).parent = above Null gs ∧
      (if (t.node f.name).left = id then (t.node f.name).right else (t.node f.name).left) =
        f.sibling.name := by
  have hbranch := (linked_plug.1 (show t.Links Null (plug gs (f.plug (.leaf id a))) from h)).1
  cases f with
  | left i b r =>
    rw [show t.node (Frame.left i b r).name = _ from hbranch.1]
    exact ⟨rfl, if_pos rfl⟩
  | right i b l =>
    rw [show t.node (Frame.right i b l).name = _ from hbranch.1]
    exact ⟨rfl, if_neg hne⟩

/-- **`RemoveLeaf`** detaches a leaf of the tree and frees its parent. -/
theorem Holds.removeLeaf [Field K] [LinearOrder K] {T : Option (BoxTree K)} {id : ℤ}
    {a : LeafData K} (h : t.Holds T D) (hT : ExactTree T) (hleaf : (id, a) ∈ treeLeaves T) :
    ∃ t' T', t.removeLeaf id = some t' ∧ t'.Holds T' (id :: D) ∧ ExactTree T' ∧
      (treeLeaves T).Perm ((id, a) :: treeLeaves T') ∧ t'.IsLeafOf id a ∧
      (∀ j ∈ D, t'.node j = t.node j) ∧ Removes id a T T' := by
  cases T with
  | none => exact absurd hleaf List.not_mem_nil
  | some τ =>
    obtain ⟨fs, rfl⟩ := exists_plug_leaf hleaf
    have hlinked := (linked_plug.1 h.rooted.2).1
    have hisLeaf : t.IsLeafOf id a := Links.isLeafOf hlinked
    -- the leaf is the root, or there is a branch over it
    cases fs with
    | nil =>
      have hroot : id = t.root := h.rooted.1.symm
      refine ⟨{ t with root := Null }, none, ?_, ?_, trivial, .refl _, hisLeaf.congr rfl,
        fun _ _ => rfl, .last⟩
      · rw [DynamicAABBTree.removeLeaf, if_pos hroot]
      · exact h.restructure ⟨rfl, rfl, rfl, rfl⟩ rfl (.refl _) fun _ _ => rfl
    | cons f gs =>
      obtain ⟨h₁, hframe₁⟩ := h.unlinkParent
      obtain ⟨h₂, hframe₂⟩ := h₁.deallocateNode
      have hexact := exact_plug (show Exact (plug gs (f.plug (.leaf id a))) from hT)
      have hsib : Exact f.sibling := by
        cases f with
        | left i b r => exact hexact.1.2.2
        | right i b l => exact hexact.1.2.1
      obtain ⟨t', hsync, h', hframe'⟩ := h₂.syncHeirarchy hsib hexact.2
      have hid : id ∉ ctxNames (f :: gs) := by
        have hperm := (names_plug_perm (f :: gs) (.leaf id a)).nodup_iff.1
          (List.nodup_append.1 h.nodup).1
        exact (List.nodup_cons.1 hperm).1
      have hroot : id ≠ t.root := by
        rw [h.rooted.1]
        exact fun habs => hid (habs ▸ name_plug_mem_ctxNames (List.cons_ne_nil f gs))
      have hbranch := frame_links h.rooted.2 fun habs => hid (by
        rw [← habs, ctxNames]
        exact List.mem_cons_of_mem _ (List.mem_append_left _ (name_mem_names _)))
      have hfne : ∀ j ∈ id :: D, j ≠ f.name := fun j hj hjf =>
        (List.nodup_cons.1 (List.nodup_append.1 h₁.nodup).2.1).1 (hjf ▸ hj)
      have hframe : ∀ j ∈ id :: D, t'.node j = t.node j := fun j hj => by
        rw [hframe' j hj, hframe₂ j (hfne j hj), hframe₁ j hj]
      refine ⟨t', _, ?_, h', exact_climb hsib hexact.2, ?_,
        hisLeaf.congr (hframe id List.mem_cons_self),
        fun j hj => hframe j (List.mem_cons_of_mem _ hj), .lift⟩
      · rw [DynamicAABBTree.removeLeaf, if_neg hroot]
        dsimp only
        rw [show (t.node id).parent = f.name from Links.parent hlinked, hbranch.1, hbranch.2]
        exact hsync
      · refine (leaves_plug_perm (f :: gs) _).trans (.cons _ ?_)
        exact (leaves_climb_perm gs f.sibling).symm

end DynamicAABBTree

end ClientServer
