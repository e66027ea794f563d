import ClientServer.Detour.FindPath
import Mathlib.Algebra.Order.Field.Rat
import Mathlib.Algebra.Order.Ring.Unbundled.Basic
import Mathlib.Logic.Relation

/-!
# What the path search keeps

The nodes of the search are a tree, by their parents.  A node that gets a new parent becomes cheaper,
and no node is cheaper than its parent; so the new parent is not below it, and the tree stays one,
whatever the search reopens.

* `SearchInv` : the invariant of the search.
* `SearchInv.expand_spec` : what the search does for one link, and `SearchInv.assigned` that this
  keeps the invariant.
* `SearchInv.foldl_expand` : the same for all links of a node.
* `SearchInv.m_size_openList_le` : the open list stays within its array.
-/

namespace ClientServer

/-! ### Flags -/

theorem open_and_not_closed : DT_NODE_OPEN &&& ~~~DT_NODE_CLOSED = DT_NODE_OPEN := by decide

theorem closed_and_not_closed : DT_NODE_CLOSED &&& ~~~DT_NODE_CLOSED = 0 := by decide

theorem open_ne_zero : DT_NODE_OPEN ≠ 0 := by decide

theorem closed_ne_zero : DT_NODE_CLOSED ≠ 0 := by decide

theorem closed_ne_open : DT_NODE_CLOSED ≠ DT_NODE_OPEN := by decide

namespace dtNodePool

variable {F : Type*} {p : dtNodePool F} {i j : ℕ} {n : dtNode F}

@[simp] theorem m_nodes_setNode_self : (p.setNode i n).m_nodes i = n := Function.update_self ..

theorem m_nodes_setNode_of_ne (h : j ≠ i) : (p.setNode i n).m_nodes j = p.m_nodes j :=
  Function.update_of_ne h ..

@[simp] theorem m_nodeCount_setNode : (p.setNode i n).m_nodeCount = p.m_nodeCount := rfl

theorem setNode_self : p.setNode i (p.m_nodes i) = p := by
  rw [setNode, Function.update_eq_self]

end dtNodePool

namespace PathQuery

variable {F : Type*} [Field F] [LinearOrder F] {q : PathQuery F} {s s' : PathSearch F}
  {best i j : ℕ} {ref : dtPolyRef} {link : dtLink} {cost heuristic : F}

/-! ### Links and costs -/

/-- A link of the polygon `r` that the search may follow. -/
structure Enters (q : PathQuery F) (r : dtPolyRef) (link : dtLink) : Prop where
  mem : link ∈ q.mesh.links r
  ne : link.ref ≠ 0
  pass : q.passFilter link.ref = true

/-- The search may go from one polygon to the other. -/
def Linked (q : PathQuery F) (r r' : dtPolyRef) : Prop := ∃ link, q.Enters r link ∧ link.ref = r'

/-- The node is of the polygon and the side that the link leads to. -/
def EnteredBy (n : dtNode F) (link : dtLink) : Prop :=
  n.id = link.ref ∧ n.state = link.crossSide &&& 3

/-- No distance and no area has a negative cost. -/
structure NonNeg (q : PathQuery F) : Prop where
  dist : ∀ a b, 0 ≤ q.dtVdist a b
  area : ∀ a, 0 ≤ q.filter.m_areaCost a

/-- The heuristic of a node at `pos`. -/
def heuristicAt (q : PathQuery F) (pos : dtVec F) (ref : dtPolyRef) : F :=
  if ref = q.endRef then 0 else q.dtVdist pos q.endPos * H_SCALE

/-- What a link adds to the cost. -/
def edgeCost (q : PathQuery F) (n n' : dtNode F) : F :=
  if n'.id = q.endRef then q.getCost n.pos n'.pos n.id + q.getCost n'.pos q.endPos n'.id
  else q.getCost n.pos n'.pos n.id

omit [LinearOrder F] in
theorem costs_eq (n n' : dtNode F) : q.costs n n'.pos n'.id =
    (n.cost + q.edgeCost n n', q.heuristicAt n'.pos n'.id) := by
  unfold costs edgeCost heuristicAt
  split_ifs <;> simp [add_assoc]

/-- Nodes at the same place of the same polygon and side. -/
structure SamePlace (n n' : dtNode F) : Prop where
  pos : n.pos = n'.pos
  id : n.id = n'.id
  state : n.state = n'.state

omit [LinearOrder F] in
theorem SamePlace.edgeCost {n n' m m' : dtNode F} (h : SamePlace n n') (hm : SamePlace m m') :
    q.edgeCost n m = q.edgeCost n' m' := by
  simp only [PathQuery.edgeCost, h.pos, h.id, hm.pos, hm.id]

omit [Field F] [LinearOrder F] in
theorem SamePlace.refl (n : dtNode F) : SamePlace n n := ⟨rfl, rfl, rfl⟩

omit [Field F] [LinearOrder F] in
theorem SamePlace.trans {n n' n'' : dtNode F} (h : SamePlace n n') (h' : SamePlace n' n'') :
    SamePlace n n'' :=
  ⟨h.pos.trans h'.pos, h.id.trans h'.id, h.state.trans h'.state⟩

omit [Field F] [LinearOrder F] in
theorem SamePlace.enteredBy {n n' : dtNode F} (h : SamePlace n n') (he : EnteredBy n' link) :
    EnteredBy n link :=
  ⟨h.id.trans he.1, h.state.trans he.2⟩

theorem NonNeg.getCost [IsStrictOrderedRing F] (h : q.NonNeg) (pa pb : dtVec F)
    (r : dtPolyRef) : 0 ≤ q.getCost pa pb r :=
  mul_nonneg (h.dist pa pb) (h.area _)

theorem NonNeg.edgeCost [IsStrictOrderedRing F] (h : q.NonNeg) (n n' : dtNode F) :
    0 ≤ q.edgeCost n n' := by
  unfold PathQuery.edgeCost
  split_ifs
  · exact add_nonneg (h.getCost _ _ _) (h.getCost _ _ _)
  · exact h.getCost _ _ _

/-! ### One assignment -/

/-- The node that `assign` writes. -/
def assignedNode (best : ℕ) (n : dtNode F) (ref : dtPolyRef) (cost heuristic : F) : dtNode F :=
  { n with
    pidx := best + 1, id := ref, flags := DT_NODE_OPEN, cost := cost, total := cost + heuristic }

theorem nodePool_assign (best : ℕ) (ref : dtPolyRef) (cost heuristic : F)
    (hflags : (s.nodePool.m_nodes i).flags = 0 ∨ (s.nodePool.m_nodes i).flags = DT_NODE_OPEN ∨
      (s.nodePool.m_nodes i).flags = DT_NODE_CLOSED) :
    (assign best s i ref cost heuristic).nodePool =
      s.nodePool.setNode i (assignedNode best (s.nodePool.m_nodes i) ref cost heuristic) := by
  rcases hflags with h | h | h <;> unfold assign assignedNode <;> dsimp only <;> rw [h]
  · split_ifs <;> simp_all
  · rw [open_and_not_closed]
    split_ifs <;> simp_all [open_ne_zero]
  · rw [closed_and_not_closed]
    split_ifs <;> simp_all

theorem openList_assign_open (h : (s.nodePool.m_nodes i).flags = DT_NODE_OPEN) :
    (assign best s i ref cost heuristic).openList =
      s.openList.modify (assign best s i ref cost heuristic).nodePool.totals i := by
  rw [nodePool_assign best ref cost heuristic (.inr (.inl h))]
  unfold assign assignedNode
  dsimp only
  rw [h, open_and_not_closed]
  split_ifs <;> simp_all [open_ne_zero]

theorem openList_assign_push (h : (s.nodePool.m_nodes i).flags = 0 ∨
    (s.nodePool.m_nodes i).flags = DT_NODE_CLOSED) :
    (assign best s i ref cost heuristic).openList =
      s.openList.push (assign best s i ref cost heuristic).nodePool.totals i := by
  rw [nodePool_assign best ref cost heuristic (h.imp_right .inr)]
  rcases h with h | h <;> unfold assign assignedNode <;> dsimp only <;> rw [h]
  · split_ifs <;> simp_all
  · rw [closed_and_not_closed]
    split_ifs <;> simp_all

theorem lastBestNode_assign : (assign best s i ref cost heuristic).lastBestNode = s.lastBestNode ∨
    (assign best s i ref cost heuristic).lastBestNode = i := by
  unfold assign
  dsimp only
  split_ifs <;> simp

theorem outOfNodes_assign : (assign best s i ref cost heuristic).outOfNodes = s.outOfNodes := by
  unfold assign
  dsimp only
  split_ifs <;> rfl

/-! ### The invariant -/

/-- `j` is the parent of `i`. -/
def Parent (s : PathSearch F) (i j : ℕ) : Prop := (s.nodePool.m_nodes i).pidx = j + 1

/-- `j` is `i` or above it. -/
def Above (s : PathSearch F) : ℕ → ℕ → Prop := Relation.ReflTransGen (Parent s)

/-- The invariant of the search: the pool, the open list with the open nodes, the totals, and the
tree of the nodes, along links of the mesh; a node costs at least what it costs by its parent. -/
structure SearchInv (q : PathQuery F) (s : PathSearch F) : Prop where
  chained : s.nodePool.Chained
  pos : 0 < s.nodePool.m_nodeCount
  flags : ∀ i < s.nodePool.m_nodeCount, (s.nodePool.m_nodes i).flags = DT_NODE_OPEN ∨
    (s.nodePool.m_nodes i).flags = DT_NODE_CLOSED
  state : ∀ i < s.nodePool.m_nodeCount,
    (s.nodePool.m_nodes i).state &&& 3 = (s.nodePool.m_nodes i).state
  heaped : s.openList.Heaped s.nodePool.totals
  nodup : s.openList.nodes.Nodup
  mem_iff : ∀ i, i ∈ s.openList.nodes ↔
    i < s.nodePool.m_nodeCount ∧ (s.nodePool.m_nodes i).flags = DT_NODE_OPEN
  root : (s.nodePool.m_nodes 0).id = q.startRef ∧ (s.nodePool.m_nodes 0).pos = q.startPos ∧
    (s.nodePool.m_nodes 0).pidx = 0 ∧ (s.nodePool.m_nodes 0).cost = 0 ∧
    (s.nodePool.m_nodes 0).state = 0
  total : ∀ i < s.nodePool.m_nodeCount, (s.nodePool.m_nodes i).total =
    (s.nodePool.m_nodes i).cost +
      q.heuristicAt (s.nodePool.m_nodes i).pos (s.nodePool.m_nodes i).id
  parent : ∀ i < s.nodePool.m_nodeCount, i ≠ 0 → ∃ j < s.nodePool.m_nodeCount, Parent s i j ∧
    (∃ link, q.Enters (s.nodePool.m_nodes j).id link ∧ EnteredBy (s.nodePool.m_nodes i) link) ∧
      (s.nodePool.m_nodes j).cost + q.edgeCost (s.nodePool.m_nodes j) (s.nodePool.m_nodes i) ≤
        (s.nodePool.m_nodes i).cost
  rooted : ∀ i < s.nodePool.m_nodeCount, Above s i 0
  best : s.lastBestNode < s.nodePool.m_nodeCount

/-- The node `i`, to which the link leads, was assigned the parent `best`: it is new, or got
cheaper. -/
structure Assigned (q : PathQuery F) (best : ℕ) (link : dtLink) (s s' : PathSearch F) (i : ℕ) :
    Prop where
  chained : s'.nodePool.Chained
  count : i < s.nodePool.m_nodeCount ∧ s'.nodePool.m_nodeCount = s.nodePool.m_nodeCount ∨
    i = s.nodePool.m_nodeCount ∧ s'.nodePool.m_nodeCount = s.nodePool.m_nodeCount + 1
  max : s'.nodePool.m_maxNodes = s.nodePool.m_maxNodes
  fresh : i = s.nodePool.m_nodeCount → s.nodePool.Lacks link.ref link.crossSide
  others : ∀ j, j ≠ i → s'.nodePool.m_nodes j = s.nodePool.m_nodes j
  enters : q.Enters (s.nodePool.m_nodes best).id link
  entered : EnteredBy (s'.nodePool.m_nodes i) link
  parent : Parent s' i best
  isOpen : (s'.nodePool.m_nodes i).flags = DT_NODE_OPEN
  cost : (s'.nodePool.m_nodes i).cost = (s.nodePool.m_nodes best).cost +
    q.edgeCost (s.nodePool.m_nodes best) (s'.nodePool.m_nodes i)
  total : (s'.nodePool.m_nodes i).total = (s'.nodePool.m_nodes i).cost +
    q.heuristicAt (s'.nodePool.m_nodes i).pos (s'.nodePool.m_nodes i).id
  better : i < s.nodePool.m_nodeCount →
    (s'.nodePool.m_nodes i).total < (s.nodePool.m_nodes i).total ∧
      SamePlace (s'.nodePool.m_nodes i) (s.nodePool.m_nodes i)
  heaped : s'.openList.Heaped s'.nodePool.totals
  nodup : s'.openList.nodes.Nodup
  mem_iff : ∀ j, j ∈ s'.openList.nodes ↔ j = i ∨ j ∈ s.openList.nodes
  best : s'.lastBestNode = s.lastBestNode ∨ s'.lastBestNode = i
  outOfNodes : s'.outOfNodes = s.outOfNodes

/-- The open list never has more nodes than the pool may have, for which it has room. -/
theorem SearchInv.m_size_openList_le (h : q.SearchInv s) :
    s.openList.m_size ≤ s.nodePool.m_maxNodes :=
  (dtNodeQueue.m_size_le h.nodup fun i hi => ((h.mem_iff i).1 hi).1).trans h.chained.count

theorem SearchInv.parent_spec (h : q.SearchInv s) (hi : i < s.nodePool.m_nodeCount)
    (hp : Parent s i j) : j < s.nodePool.m_nodeCount ∧
      (∃ link, q.Enters (s.nodePool.m_nodes j).id link ∧ EnteredBy (s.nodePool.m_nodes i) link) ∧
        (s.nodePool.m_nodes j).cost + q.edgeCost (s.nodePool.m_nodes j) (s.nodePool.m_nodes i) ≤
          (s.nodePool.m_nodes i).cost := by
  have hne : i ≠ 0 := by
    rintro rfl
    exact absurd (hp.symm.trans h.root.2.2.1) (Nat.succ_ne_zero j)
  obtain ⟨k, hk, hpk, hspec⟩ := h.parent i hi hne
  obtain rfl : k = j := Nat.succ.inj (hpk.symm.trans hp)
  exact ⟨hk, hspec⟩

section Assigned

variable [IsStrictOrderedRing F]

theorem SearchInv.above_le (h : q.SearchInv s) (hq : q.NonNeg) (hi : i < s.nodePool.m_nodeCount)
    (ha : Above s i j) :
    j < s.nodePool.m_nodeCount ∧ (s.nodePool.m_nodes j).cost ≤ (s.nodePool.m_nodes i).cost := by
  induction ha with
  | refl => exact ⟨hi, le_rfl⟩
  | tail _ hp ih =>
    obtain ⟨hlt, -, hle⟩ := h.parent_spec ih.1 hp
    exact ⟨hlt, ((le_add_of_nonneg_right (hq.edgeCost _ _)).trans hle).trans ih.2⟩

omit [Field F] [LinearOrder F] [IsStrictOrderedRing F] in
/-- Above a node that is not below `i`, all parents are as they were. -/
theorem above_of_not_above {k : ℕ} (hna : ¬Above s k i) (hsame : ∀ j, j ≠ i →
    s'.nodePool.m_nodes j = s.nodePool.m_nodes j) (ha : Above s k j) : Above s' k j := by
  induction ha using Relation.ReflTransGen.head_induction_on with
  | refl => exact .refl
  | @head k l hp _ ih =>
    have hki : k ≠ i := by
      rintro rfl
      exact hna .refl
    refine .head ?_ (ih fun hl => hna (.head hp hl))
    rwa [Parent, hsame k hki]

theorem SearchInv.cost_lt (h : q.SearchInv s) (ha : q.Assigned best link s s' i)
    (hi : i < s.nodePool.m_nodeCount) :
    (s'.nodePool.m_nodes i).cost < (s.nodePool.m_nodes i).cost := by
  obtain ⟨hlt, hplace⟩ := ha.better hi
  rw [h.total i hi, ha.total, hplace.pos, hplace.id] at hlt
  exact lt_of_add_lt_add_right hlt

/-- **The new parent is not below the node.** -/
theorem SearchInv.not_above (h : q.SearchInv s) (hq : q.NonNeg)
    (hbest : best < s.nodePool.m_nodeCount) (ha : q.Assigned best link s s' i) :
    ¬Above s best i := by
  intro habove
  obtain ⟨hi, hle⟩ := h.above_le hq hbest habove
  have hlt := h.cost_lt ha hi
  have hedge := hq.edgeCost (s.nodePool.m_nodes best) (s'.nodePool.m_nodes i)
  rw [ha.cost] at hlt
  exact absurd hlt (not_lt.2 (hle.trans (le_add_of_nonneg_right hedge)))

omit [IsStrictOrderedRing F] in
theorem Assigned.samePlace (ha : q.Assigned best link s s' i) (hj : j < s.nodePool.m_nodeCount) :
    SamePlace (s'.nodePool.m_nodes j) (s.nodePool.m_nodes j) := by
  by_cases hji : j = i
  · subst hji
    exact (ha.better hj).2
  · rw [ha.others j hji]
    exact .refl _

theorem SearchInv.cost_le (h : q.SearchInv s) (ha : q.Assigned best link s s' i)
    (hj : j < s.nodePool.m_nodeCount) :
    (s'.nodePool.m_nodes j).cost ≤ (s.nodePool.m_nodes j).cost := by
  by_cases hji : j = i
  · subst hji
    exact (h.cost_lt ha hj).le
  · rw [ha.others j hji]

theorem SearchInv.assigned_ne (h : q.SearchInv s) (hq : q.NonNeg)
    (hbest : best < s.nodePool.m_nodeCount) (ha : q.Assigned best link s s' i) :
    best ≠ i ∧ 0 ≠ i := by
  have hna := h.not_above hq hbest ha
  constructor <;> rintro rfl
  · exact hna .refl
  · exact hna (h.rooted best hbest)

/-- **An assignment keeps the invariant.** -/
theorem SearchInv.assigned (h : q.SearchInv s) (hq : q.NonNeg)
    (hbest : best < s.nodePool.m_nodeCount) (ha : q.Assigned best link s s' i) :
    q.SearchInv s' := by
  have hna := h.not_above hq hbest ha
  obtain ⟨hbi, h0i⟩ := h.assigned_ne hq hbest ha
  have hcount := ha.count
  have hi : i < s'.nodePool.m_nodeCount := by omega
  have hold : ∀ j, j ≠ i → j < s'.nodePool.m_nodeCount → j < s.nodePool.m_nodeCount := by omega
  constructor
  case chained => exact ha.chained
  case pos => omega
  case heaped => exact ha.heaped
  case nodup => exact ha.nodup
  case flags =>
    intro j hj
    by_cases hji : j = i
    · rw [hji]
      exact .inl ha.isOpen
    · rw [ha.others j hji]
      exact h.flags j (hold j hji hj)
  case state =>
    intro j hj
    by_cases hji : j = i
    · rw [hji, ha.entered.2, UInt8.and_assoc, UInt8.and_self]
    · rw [ha.others j hji]
      exact h.state j (hold j hji hj)
  case mem_iff =>
    intro j
    rw [ha.mem_iff]
    by_cases hji : j = i
    · simp [hji, hi, ha.isOpen]
    · rw [ha.others j hji, h.mem_iff j, or_iff_right hji]
      exact and_congr_left fun _ => ⟨fun hj => by omega, hold j hji⟩
  case root => rw [ha.others 0 h0i]; exact h.root
  case total =>
    intro j hj
    by_cases hji : j = i
    · rw [hji, ha.total]
    · rw [ha.others j hji]
      exact h.total j (hold j hji hj)
  case parent =>
    intro k hk hk0
    by_cases hki : k = i
    · subst hki
      refine ⟨best, by omega, ha.parent, ⟨link, ?_, ha.entered⟩, ?_⟩ <;> rw [ha.others best hbi]
      · exact ha.enters
      · exact ha.cost.ge
    · obtain ⟨j, hj, hp, ⟨l, hl, hel⟩, hle⟩ := h.parent k (hold k hki hk) hk0
      have hplace := ha.samePlace hj
      refine ⟨j, by omega, by rwa [Parent, ha.others k hki], ⟨l, ?_, ?_⟩, ?_⟩
      · rwa [hplace.id]
      · rwa [ha.others k hki]
      · rw [ha.others k hki, hplace.edgeCost (.refl _)]
        exact (add_le_add_left (h.cost_le ha hj) _).trans hle
  case rooted =>
    -- the way up from the new parent avoids the node; so does what comes before the node
    have htop : Above s' i 0 :=
      .head ha.parent (above_of_not_above hna ha.others (h.rooted best hbest))
    intro k hk
    by_cases hki : k = i
    · exact hki ▸ htop
    · have hup := h.rooted k (hold k hki hk)
      clear hk hki
      induction hup using Relation.ReflTransGen.head_induction_on with
      | refl => exact .refl
      | @head k l hp _ ih =>
        by_cases hki : k = i
        · exact hki ▸ htop
        · exact .head (by rwa [Parent, ha.others k hki]) ih
  case best =>
    have hlast := h.best
    rcases ha.best with hb | hb <;> omega

end Assigned

/-! ### One link -/

/-- `assign` is an assignment, if the node is new or gets cheaper. -/
theorem SearchInv.assign (h : q.SearchInv s) {t : PathSearch F} (hchained : t.nodePool.Chained)
    (hcount : i < s.nodePool.m_nodeCount ∧ t = s ∨
      i = s.nodePool.m_nodeCount ∧ t.nodePool.m_nodeCount = s.nodePool.m_nodeCount + 1 ∧
        (t.nodePool.m_nodes i).flags = 0)
    (hmax : t.nodePool.m_maxNodes = s.nodePool.m_maxNodes)
    (hfresh : i = s.nodePool.m_nodeCount → s.nodePool.Lacks link.ref link.crossSide)
    (hothers : ∀ j, j ≠ i → t.nodePool.m_nodes j = s.nodePool.m_nodes j)
    (hlist : t.openList = s.openList) (hbest : t.lastBestNode = s.lastBestNode)
    (hout : t.outOfNodes = s.outOfNodes) (hentered : EnteredBy (t.nodePool.m_nodes i) link)
    (henters : q.Enters (s.nodePool.m_nodes best).id link)
    (hcosts : (cost, heuristic) =
      q.costs (s.nodePool.m_nodes best) (t.nodePool.m_nodes i).pos link.ref)
    (hbetter : i < s.nodePool.m_nodeCount →
      cost + heuristic < (s.nodePool.m_nodes i).total) :
    q.Assigned best link s (assign best t i link.ref cost heuristic) i := by
  -- a new node is not in the open list, and an old one is if it is open
  have hflags : (t.nodePool.m_nodes i).flags = DT_NODE_OPEN ∧ i < s.nodePool.m_nodeCount ∨
      ((t.nodePool.m_nodes i).flags = 0 ∨ (t.nodePool.m_nodes i).flags = DT_NODE_CLOSED) ∧
        i ∉ s.openList.nodes := by
    rcases hcount with ⟨hi, rfl⟩ | ⟨hi, -, hzero⟩
    · rcases h.flags i hi with hop | hcl
      · exact .inl ⟨hop, hi⟩
      · refine .inr ⟨.inr hcl, fun hmem => ?_⟩
        exact absurd (hcl.symm.trans ((h.mem_iff i).1 hmem).2) closed_ne_open
    · exact .inr ⟨.inl hzero, fun hmem => absurd hi ((h.mem_iff i).1 hmem).1.ne⟩
  have hpool := nodePool_assign best link.ref cost heuristic (s := t) (i := i) (by tauto)
  generalize hs' : PathQuery.assign best t i link.ref cost heuristic = s' at hpool
  have hself : s'.nodePool.m_nodes i =
      assignedNode best (t.nodePool.m_nodes i) link.ref cost heuristic := by
    rw [hpool, dtNodePool.m_nodes_setNode_self]
  have hplace : SamePlace (s'.nodePool.m_nodes i) (t.nodePool.m_nodes i) := by
    rw [hself]
    exact ⟨rfl, hentered.1.symm, rfl⟩
  have hcost : (cost, heuristic) = ((s.nodePool.m_nodes best).cost +
      q.edgeCost (s.nodePool.m_nodes best) (s'.nodePool.m_nodes i),
        q.heuristicAt (s'.nodePool.m_nodes i).pos (s'.nodePool.m_nodes i).id) := by
    rw [hcosts, ← hentered.1, costs_eq, hplace.pos, hplace.id,
      SamePlace.edgeCost (.refl _) hplace]
  have hsame : ∀ j, j ≠ i → s'.nodePool.m_nodes j = s.nodePool.m_nodes j := fun j hj => by
    rw [hpool, dtNodePool.m_nodes_setNode_of_ne hj, hothers j hj]
  have htotals : ∀ j, j ≠ i → s'.nodePool.totals j = s.nodePool.totals j := fun j hj =>
    congrArg dtNode.total (hsame j hj)
  have hlistspec : s'.openList.Heaped s'.nodePool.totals ∧ s'.openList.nodes.Nodup ∧
      ∀ j, j ∈ s'.openList.nodes ↔ j = i ∨ j ∈ s.openList.nodes := by
    rcases hflags with ⟨hop, hi⟩ | ⟨hfl, hnot⟩
    · -- it moves in the open list
      have hts : t = s := (hcount.resolve_right fun hnew => hi.ne hnew.1).2
      subst hts
      have hmove : s'.openList = t.openList.modify s'.nodePool.totals i :=
        hs' ▸ openList_assign_open hop
      obtain ⟨hheap, hnodes⟩ := h.heaped.modify h.nodup i s'.nodePool.totals
        (by rw [dtNodePool.totals, hself]; exact (hbetter hi).le) htotals
      have hmem : i ∈ t.openList.nodes := (h.mem_iff i).2 ⟨hi, hop⟩
      rw [hmove]
      refine ⟨hheap, hnodes ▸ h.nodup, fun j => ?_⟩
      rw [hnodes]
      exact ⟨.inr, fun hj => hj.elim (fun hji => hji ▸ hmem) id⟩
    · -- it goes to the open list
      have hmove : s'.openList = s.openList.push s'.nodePool.totals i :=
        hlist ▸ hs' ▸ openList_assign_push hfl
      have hheap : s.openList.Heaped s'.nodePool.totals :=
        h.heaped.congr fun j hj => htotals j (ne_of_mem_of_not_mem hj hnot)
      obtain ⟨hpush, hnodes⟩ := hheap.push i
      rw [hmove]
      exact ⟨hpush, hnodes ▸ Multiset.nodup_cons.2 ⟨hnot, h.nodup⟩, fun j => by
        rw [hnodes, Multiset.mem_cons]⟩
  obtain ⟨hheap, hnodup, hmem⟩ := hlistspec
  constructor
  case chained =>
    rw [hpool]
    exact hchained.setNode (by rw [hentered.1]; rfl)
  case count =>
    rw [hpool, dtNodePool.m_nodeCount_setNode]
    rcases hcount with ⟨hi, rfl⟩ | ⟨hi, hc, -⟩
    · exact .inl ⟨hi, rfl⟩
    · exact .inr ⟨hi, hc⟩
  case max => rw [hpool]; exact hmax
  case fresh => exact hfresh
  case others => exact hsame
  case enters => exact henters
  case entered => exact hplace.enteredBy hentered
  case parent => rw [Parent, hself, assignedNode]
  case isOpen => rw [hself, assignedNode]
  case cost =>
    refine Eq.trans ?_ (congrArg Prod.fst hcost)
    rw [hself, assignedNode]
  case total =>
    refine Eq.trans ?_ (congrArg (fun c : F × F => (s'.nodePool.m_nodes i).cost + c.2) hcost)
    rw [hself, assignedNode]
  case better =>
    intro hi
    have hts : t = s := (hcount.resolve_right fun hnew => hi.ne hnew.1).2
    subst hts
    refine ⟨?_, hplace⟩
    rw [hself]
    exact hbetter hi
  case heaped => exact hheap
  case nodup => exact hnodup
  case mem_iff => exact hmem
  case best => exact hbest ▸ hs' ▸ lastBestNode_assign
  case outOfNodes => exact hs' ▸ outOfNodes_assign.trans hout

/-- The node that the link leads to costs at most what it costs by this link. -/
def Relaxed (q : PathQuery F) (s : PathSearch F) (i : ℕ) (link : dtLink) : Prop :=
  ∃ j < s.nodePool.m_nodeCount, EnteredBy (s.nodePool.m_nodes j) link ∧
    (s.nodePool.m_nodes j).cost ≤ (s.nodePool.m_nodes i).cost +
      q.edgeCost (s.nodePool.m_nodes i) (s.nodePool.m_nodes j)

/-- A node that there was already is left alone, as it costs no more, or gets cheaper. -/
theorem SearchInv.visit_old [IsStrictOrderedRing F] (h : q.SearchInv s)
    (hi : i < s.nodePool.m_nodeCount) (hentered : EnteredBy (s.nodePool.m_nodes i) link)
    (henters : q.Enters (s.nodePool.m_nodes best).id link) :
    q.visit best s i link.ref = s ∧ q.Relaxed s best link ∨
      q.Assigned best link s (q.visit best s i link.ref) i := by
  have hne : (s.nodePool.m_nodes i).flags ≠ 0 := by
    rcases h.flags i hi with hfl | hfl <;> rw [hfl]
    · exact open_ne_zero
    · exact closed_ne_zero
  -- it is skipped if it has no greater total, and so no greater cost
  have hskip : (q.costs (s.nodePool.m_nodes best) (s.nodePool.m_nodes i).pos link.ref).1 +
      (q.costs (s.nodePool.m_nodes best) (s.nodePool.m_nodes i).pos link.ref).2 ≥
        (s.nodePool.m_nodes i).total → q.Relaxed s best link := by
    intro hge
    rw [← hentered.1, costs_eq, h.total i hi] at hge
    exact ⟨i, hi, hentered, le_of_add_le_add_right hge⟩
  unfold visit
  simp only [if_neg hne, dtNodePool.setNode_self]
  generalize hc : q.costs (s.nodePool.m_nodes best) (s.nodePool.m_nodes i).pos link.ref = c
    at hskip
  split_ifs with h1 h2
  · exact .inl ⟨rfl, hskip h1.2⟩
  · exact .inl ⟨rfl, hskip h2.2⟩
  · refine .inr (h.assign h.chained (.inl ⟨hi, rfl⟩) rfl (fun hnew => absurd hnew hi.ne)
      (fun _ _ => rfl) rfl rfl rfl hentered henters hc.symm fun _ => not_le.1 fun hle => ?_)
    -- it is open or closed, so one of the tests has compared the totals
    rcases h.flags i hi with hfl | hfl
    · exact h1 ⟨by rw [hfl]; exact open_ne_zero, hle⟩
    · exact h2 ⟨by rw [hfl]; exact closed_ne_zero, hle⟩

theorem SearchInv.visit_new (h : q.SearchInv s) (hbest : best < s.nodePool.m_nodeCount)
    (hroom : s.nodePool.m_nodeCount < s.nodePool.m_maxNodes)
    (hlacks : s.nodePool.Lacks link.ref link.crossSide)
    (henters : q.Enters (s.nodePool.m_nodes best).id link) :
    q.Assigned best link s (q.visit best
      { s with nodePool := (s.nodePool.newNode link.ref link.crossSide).2 }
        s.nodePool.m_nodeCount link.ref) s.nodePool.m_nodeCount := by
  have hnodes := h.chained.m_nodes_newNode hroom link.ref link.crossSide
  have hself : (s.nodePool.newNode link.ref link.crossSide).2.m_nodes s.nodePool.m_nodeCount =
      dtNodePool.initNode (s.nodePool.m_nodes s.nodePool.m_nodeCount) link.ref link.crossSide := by
    rw [hnodes, Function.update_self]
  have hother : ∀ j, j ≠ s.nodePool.m_nodeCount →
      (s.nodePool.newNode link.ref link.crossSide).2.m_nodes j = s.nodePool.m_nodes j :=
    fun j hj => by rw [hnodes, Function.update_of_ne hj]
  have hzero : (dtNodePool.initNode (s.nodePool.m_nodes s.nodePool.m_nodeCount) link.ref
      link.crossSide).flags = 0 := rfl
  unfold visit
  simp only [hself, hzero, hother best hbest.ne, if_true, UInt8.zero_and, ne_eq, not_true_eq_false,
    false_and, if_false]
  refine h.assign ?_ (.inr ⟨rfl, rfl, ?_⟩) rfl (fun _ => hlacks) (fun j hj => ?_) rfl rfl rfl ?_
    henters ?_ fun hlt => absurd hlt (lt_irrefl _)
  · refine (h.chained.newNode hroom).setNode ?_
    rw [hself]
  · rw [dtNodePool.m_nodes_setNode_self]
  · rw [dtNodePool.m_nodes_setNode_of_ne hj, hother j hj]
  · rw [dtNodePool.m_nodes_setNode_self]
    exact ⟨rfl, rfl⟩
  · rw [dtNodePool.m_nodes_setNode_self]

/-- The link leads to a new node, and there is no room for it. -/
structure Overflows (q : PathQuery F) (best : ℕ) (link : dtLink) (s : PathSearch F) : Prop where
  enters : q.Enters (s.nodePool.m_nodes best).id link
  lacks : s.nodePool.Lacks link.ref link.crossSide
  full : s.nodePool.m_nodeCount = s.nodePool.m_maxNodes

/-- **What is done for one link**: nothing, as the neighbour may not be entered or costs no more
already; or it does not fit into the pool; or it is assigned. -/
theorem SearchInv.expand_spec [IsStrictOrderedRing F] (h : q.SearchInv s)
    (hbest : best < s.nodePool.m_nodeCount) (pr : dtPolyRef)
    (hlink : link ∈ q.mesh.links (s.nodePool.m_nodes best).id) :
    q.expand best pr s link = s ∧ (q.Enters (s.nodePool.m_nodes best).id link →
        link.ref = pr ∨ q.Relaxed s best link) ∨
      (q.expand best pr s link = { s with outOfNodes := true } ∧ q.Overflows best link s) ∨
      ∃ i, q.Assigned best link s (q.expand best pr s link) i := by
  unfold expand
  by_cases hskip : link.ref = 0 ∨ link.ref = pr
  · simp only [hskip, if_true, true_and]
    exact .inl fun hl => .inl (hskip.resolve_left hl.ne)
  by_cases hpass : q.passFilter link.ref = true
  swap
  · simp only [hskip, hpass, if_false, Bool.false_eq_true, true_and]
    exact .inl fun hl => absurd hl.pass hpass
  have henters : q.Enters (s.nodePool.m_nodes best).id link :=
    ⟨hlink, fun h0 => hskip (.inl h0), hpass⟩
  simp only [hskip, hpass, if_false, if_true]
  rcases h.chained.getNode_cases link.ref link.crossSide with
    ⟨i, hi, hid, hstate, -, heq⟩ | ⟨hlacks, -, ⟨hfull, heq⟩ | ⟨hroom, heq⟩⟩ <;> simp only [heq]
  · have hentered : EnteredBy (s.nodePool.m_nodes i) link :=
      ⟨hid, by rw [← h.state i hi, hstate]⟩
    rcases h.visit_old hi hentered henters with ⟨hsame, hrelaxed⟩ | ha
    · exact .inl ⟨hsame, fun _ => .inr hrelaxed⟩
    · exact .inr (.inr ⟨i, ha⟩)
  · exact .inr (.inl ⟨trivial, henters, hlacks, hfull⟩)
  · exact .inr (.inr ⟨_, h.visit_new hbest hroom hlacks henters⟩)

/-! ### All links of a node -/

/-- From `s` to `s'` by links of the node `best`. -/
inductive Expansions (q : PathQuery F) (best : ℕ) (s : PathSearch F) : PathSearch F → Prop
  | refl : Expansions q best s s
  | out {t : PathSearch F} {link : dtLink} : Expansions q best s t → q.Overflows best link t →
      Expansions q best s { t with outOfNodes := true }
  | assign {t t' : PathSearch F} {link : dtLink} {i : ℕ} :
      Expansions q best s t → q.Assigned best link t t' i → Expansions q best s t'

/-- What the search keeps: the places of the nodes, and that there were too few.  No node gets more
expensive. -/
structure Keeps (s s' : PathSearch F) : Prop where
  count : s.nodePool.m_nodeCount ≤ s'.nodePool.m_nodeCount
  max : s'.nodePool.m_maxNodes = s.nodePool.m_maxNodes
  place : ∀ i < s.nodePool.m_nodeCount, SamePlace (s'.nodePool.m_nodes i) (s.nodePool.m_nodes i)
  cost : ∀ i < s.nodePool.m_nodeCount,
    (s'.nodePool.m_nodes i).cost ≤ (s.nodePool.m_nodes i).cost
  out : s.outOfNodes = true → s'.outOfNodes = true

/-- What no link changes: it closes no node. -/
structure Grows (s s' : PathSearch F) : Prop extends Keeps s s' where
  closed : ∀ i < s'.nodePool.m_nodeCount, (s'.nodePool.m_nodes i).flags = DT_NODE_CLOSED →
    i < s.nodePool.m_nodeCount ∧ s'.nodePool.m_nodes i = s.nodePool.m_nodes i

/-- The search is done with the link of the node `i`: there were too few nodes; or the link is
relaxed; or it leads back to the polygon of a node that `i` can be reached by. -/
def Settled (q : PathQuery F) (s : PathSearch F) (i : ℕ) (link : dtLink) : Prop :=
  s.outOfNodes = true ∨ q.Relaxed s i link ∨ ∃ j < s.nodePool.m_nodeCount,
    (s.nodePool.m_nodes j).id = link.ref ∧
      (s.nodePool.m_nodes j).cost + q.edgeCost (s.nodePool.m_nodes j) (s.nodePool.m_nodes i) ≤
        (s.nodePool.m_nodes i).cost

/-- The polygon of a settled link has a node, or there were too few. -/
theorem Settled.seen (h : q.Settled s i link) (hout : s.outOfNodes = false) :
    ∃ j < s.nodePool.m_nodeCount, (s.nodePool.m_nodes j).id = link.ref := by
  rcases h with hout' | ⟨j, hj, hentered, -⟩ | ⟨j, hj, hid, -⟩
  · exact absurd (hout'.symm.trans hout) Bool.noConfusion
  · exact ⟨j, hj, hentered.1⟩
  · exact ⟨j, hj, hid⟩

omit [Field F] in
theorem Keeps.trans {s'' : PathSearch F} (h : Keeps s s') (h' : Keeps s' s'') : Keeps s s'' where
  count := h.count.trans h'.count
  max := h'.max.trans h.max
  place i hi := (h'.place i (hi.trans_le h.count)).trans (h.place i hi)
  cost i hi := (h'.cost i (hi.trans_le h.count)).trans (h.cost i hi)
  out hs := h'.out (h.out hs)

omit [Field F] in
theorem Grows.refl (s : PathSearch F) : Grows s s :=
  ⟨⟨le_rfl, rfl, fun _ _ => .refl _, fun _ _ => le_rfl, id⟩, fun _ hi _ => ⟨hi, rfl⟩⟩

omit [Field F] in
theorem Grows.trans {s'' : PathSearch F} (h : Grows s s') (h' : Grows s' s'') : Grows s s'' where
  toKeeps := h.toKeeps.trans h'.toKeeps
  closed i hi hc := by
    obtain ⟨hi', heq'⟩ := h'.closed i hi hc
    obtain ⟨hi'', heq⟩ := h.closed i hi' (heq' ▸ hc)
    exact ⟨hi'', heq'.trans heq⟩

theorem Expansions.trans {s'' : PathSearch F} (h : q.Expansions best s s')
    (h' : q.Expansions best s' s'') : q.Expansions best s s'' := by
  induction h' with
  | refl => exact h
  | out _ ho ih => exact ih.out ho
  | assign _ ha ih => exact ih.assign ha

section Grows

variable [IsStrictOrderedRing F]

theorem SearchInv.grows (h : q.SearchInv s) (ha : q.Assigned best link s s' i) : Grows s s' where
  count := by
    have hcount := ha.count
    omega
  max := ha.max
  place _ hj := ha.samePlace hj
  cost _ hj := h.cost_le ha hj
  closed j hj hc := by
    have hcount := ha.count
    have hji : j ≠ i := by
      rintro rfl
      exact absurd (hc.symm.trans ha.isOpen) closed_ne_open
    exact ⟨by omega, ha.others j hji⟩
  out hs := ha.outOfNodes.trans hs

theorem SearchInv.relaxed (h : q.SearchInv s) (hq : q.NonNeg)
    (hbest : best < s.nodePool.m_nodeCount) (ha : q.Assigned best link s s' i) :
    q.Relaxed s' best link := by
  have hcount := ha.count
  refine ⟨i, by omega, ha.entered, ?_⟩
  rw [ha.cost, ha.others best (h.assigned_ne hq hbest ha).1]

/-- What is settled stays settled, while the node itself does not change. -/
theorem Keeps.settled (hg : Keeps s s') (hi : s'.nodePool.m_nodes i = s.nodePool.m_nodes i)
    (h : q.Settled s i link) : q.Settled s' i link := by
  rcases h with hout | ⟨j, hj, hentered, hle⟩ | ⟨j, hj, hid, hle⟩
  · exact .inl (hg.out hout)
  · refine .inr (.inl ⟨j, hj.trans_le hg.count, (hg.place j hj).enteredBy hentered, ?_⟩)
    rw [hi, SamePlace.edgeCost (.refl _) (hg.place j hj)]
    exact (hg.cost j hj).trans hle
  · refine .inr (.inr ⟨j, hj.trans_le hg.count, (hg.place j hj).id.trans hid, ?_⟩)
    rw [hi, (hg.place j hj).edgeCost (.refl _)]
    exact (add_le_add_left (hg.cost j hj) _).trans hle

/-- **The links of a node keep the invariant**, and leave the node itself alone. -/
theorem Expansions.searchInv (he : q.Expansions best s s') (h : q.SearchInv s) (hq : q.NonNeg)
    (hbest : best < s.nodePool.m_nodeCount) :
    q.SearchInv s' ∧ Grows s s' ∧ s'.nodePool.m_nodes best = s.nodePool.m_nodes best := by
  induction he with
  | refl => exact ⟨h, .refl s, rfl⟩
  | out _ _ ih =>
    obtain ⟨ht, hgrows, hsame⟩ := ih
    refine ⟨⟨ht.chained, ht.pos, ht.flags, ht.state, ht.heaped, ht.nodup, ht.mem_iff, ht.root,
      ht.total, ht.parent, ht.rooted, ht.best⟩, ?_, hsame⟩
    exact hgrows.trans ⟨⟨le_rfl, rfl, fun _ _ => .refl _, fun _ _ => le_rfl, fun _ => rfl⟩,
      fun _ hi _ => ⟨hi, rfl⟩⟩
  | @assign t t' link i _ ha ih =>
    obtain ⟨ht, hgrows, hsame⟩ := ih
    have hlt := hbest.trans_le hgrows.count
    have hne := (ht.assigned_ne hq hlt ha).1
    exact ⟨ht.assigned hq hlt ha, hgrows.trans (ht.grows ha), (ha.others best hne).trans hsame⟩

/-- The loop over the links settles every one that may be followed, but for those back to the
polygon `pr`. -/
theorem SearchInv.foldl_expand (h : q.SearchInv s) (hq : q.NonNeg)
    (hbest : best < s.nodePool.m_nodeCount) (pr : dtPolyRef) {links : List dtLink}
    (hlinks : ∀ link ∈ links, link ∈ q.mesh.links (s.nodePool.m_nodes best).id) :
    q.Expansions best s (links.foldl (q.expand best pr) s) ∧
      ∀ link ∈ links, q.Enters (s.nodePool.m_nodes best).id link →
        link.ref = pr ∨ q.Settled (links.foldl (q.expand best pr) s) best link := by
  induction links generalizing s with
  | nil => exact ⟨.refl, by simp⟩
  | cons link links ih =>
    rw [List.forall_mem_cons] at hlinks
    -- the first link
    have hone : q.Expansions best s (q.expand best pr s link) ∧
        (q.Enters (s.nodePool.m_nodes best).id link →
          link.ref = pr ∨ q.Settled (q.expand best pr s link) best link) := by
      rcases h.expand_spec hbest pr hlinks.1 with ⟨heq, hrelaxed⟩ | ⟨heq, ho⟩ | ⟨i, ha⟩
      · rw [heq]
        exact ⟨.refl, fun hl => (hrelaxed hl).imp_right fun hr => .inr (.inl hr)⟩
      · rw [heq]
        exact ⟨.out .refl ho, fun _ => .inr (.inl rfl)⟩
      · exact ⟨.assign .refl ha, fun _ => .inr (.inr (.inl (h.relaxed hq hbest ha)))⟩
    obtain ⟨hs', hgrows, hsame⟩ := hone.1.searchInv h hq hbest
    have hlt := hbest.trans_le hgrows.count
    obtain ⟨hrest, hsettled⟩ := ih hs' hlt (by rw [hsame]; exact hlinks.2)
    obtain ⟨-, hgrows', hsame'⟩ := hrest.searchInv hs' hq hlt
    rw [List.foldl_cons, List.forall_mem_cons]
    rw [hsame] at hsettled
    exact ⟨hone.1.trans hrest, fun hl => (hone.2 hl).imp_right (hgrows'.settled hsame'), hsettled⟩

end Grows

end PathQuery

end ClientServer
