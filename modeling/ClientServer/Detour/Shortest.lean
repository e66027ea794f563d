import ClientServer.Detour.Entries
import Mathlib.Tactic.Linarith

/-!
# The path that is found is a shortest one

A node lies where its polygon was entered first.  With every entry at its place, a walk over the
mesh has a length, and where all areas cost the same no walk to the end is shorter than the path
that is found.

Of every walk to the end there is an open node that is no further away than the walk (as closed nodes
are done with their links), and the heuristic does not overestimate what is left; so when the goal
is the least open node, no walk is shorter.

* `Walk`, `walkLength` : walks to the end.
* `LoopInv.exists_open` : **the open node** a walk has.
* `findPath_shortest` : **the path is a shortest walk**.
-/

namespace ClientServer

namespace PathQuery

variable {F : Type*} [Field F] [LinearOrder F] {q : PathQuery F} {s s' t : PathSearch F}
  {best i j : ℕ} {link : dtLink} {P : dtPolyRef × UInt8 → dtVec F} {a : dtVec F}
  {es : List (dtPolyRef × UInt8)}

/-- A metric, and the costs of all areas as the constructor of the filter has set them. -/
structure Metric (q : PathQuery F) : Prop where
  nonneg : ∀ a b, 0 ≤ q.dtVdist a b
  self : ∀ a, q.dtVdist a a = 0
  triangle : ∀ a b c, q.dtVdist a c ≤ q.dtVdist a b + q.dtVdist b c
  area : ∀ a, q.filter.m_areaCost a = 1

/-- Every node is where its entry is. -/
def Places (s : PathSearch F) (P : dtPolyRef × UInt8 → dtVec F) : Prop :=
  ∀ i < s.nodePool.m_nodeCount, P (entry (s.nodePool.m_nodes i)) = (s.nodePool.m_nodes i).pos

/-- A walk from the polygon `r` to the end, by its entries. -/
def Walk (q : PathQuery F) : dtPolyRef → List (dtPolyRef × UInt8) → Prop
  | r, [] => r = q.endRef
  | r, e :: es => (∃ link, q.Enters r link ∧ e = (link.ref, link.crossSide &&& 3)) ∧ q.Walk e.1 es

/-- The length of a walk from the point `a`. -/
def walkLength (q : PathQuery F) (P : dtPolyRef × UInt8 → dtVec F) :
    dtVec F → List (dtPolyRef × UInt8) → F
  | a, [] => q.dtVdist a q.endPos
  | a, e :: es => q.dtVdist a (P e) + q.walkLength P (P e) es

/-- The entries on the way down to a node, but for the first. -/
def entriesTo (s : PathSearch F) (l : List ℕ) : List (dtPolyRef × UInt8) :=
  l.reverse.tail.map fun j => entry (s.nodePool.m_nodes j)

omit [Field F] [LinearOrder F] in
theorem entriesTo_cons_cons (s : PathSearch F) (i k : ℕ) (l : List ℕ) :
    entriesTo s (i :: k :: l) = entriesTo s (k :: l) ++ [entry (s.nodePool.m_nodes i)] := by
  rw [entriesTo, List.reverse_cons, List.tail_append_of_ne_nil (by simp), List.map_append]
  rfl

/-! ### Distances -/

section Metric

variable [IsStrictOrderedRing F] (hm : q.Metric)
include hm

theorem Metric.nonNeg : q.NonNeg := ⟨hm.nonneg, fun a => (hm.area a).ge.trans' zero_le_one⟩

omit [IsStrictOrderedRing F] in
theorem Metric.getCost (a b : dtVec F) (r : dtPolyRef) : q.getCost a b r = q.dtVdist a b := by
  rw [PathQuery.getCost, hm.area, mul_one]

theorem Metric.dist_le_edgeCost (n n' : dtNode F) : q.dtVdist n.pos n'.pos ≤ q.edgeCost n n' := by
  unfold PathQuery.edgeCost
  simp only [hm.getCost]
  split_ifs
  · exact le_add_of_nonneg_right (hm.nonneg _ _)
  · exact le_rfl

omit [IsStrictOrderedRing F] in
theorem Metric.edgeCost_of_ne (n : dtNode F) {n' : dtNode F} (hne : n'.id ≠ q.endRef) :
    q.edgeCost n n' = q.dtVdist n.pos n'.pos := by
  rw [PathQuery.edgeCost, if_neg hne, hm.getCost]

omit [IsStrictOrderedRing F] in
theorem Metric.edgeCost_end (n : dtNode F) {n' : dtNode F} (hend : n'.id = q.endRef) :
    q.edgeCost n n' = q.dtVdist n.pos n'.pos + q.dtVdist n'.pos q.endPos := by
  rw [PathQuery.edgeCost, if_pos hend, hm.getCost, hm.getCost]

/-- A link costs its length, and at the end the rest of the way. -/
theorem Metric.edgeCost_le (n n' : dtNode F) : q.edgeCost n n' + q.heuristicAt n'.pos n'.id ≤
    q.dtVdist n.pos n'.pos + q.dtVdist n'.pos q.endPos := by
  unfold PathQuery.edgeCost heuristicAt H_SCALE
  simp only [hm.getCost]
  split_ifs
  · rw [add_zero]
  · have := hm.nonneg n'.pos q.endPos
    linarith

theorem Metric.heuristicAt_le (n : dtNode F) :
    q.heuristicAt n.pos n.id ≤ q.dtVdist n.pos q.endPos := by
  have := hm.nonneg n.pos q.endPos
  unfold PathQuery.heuristicAt H_SCALE
  split_ifs
  · exact this
  · linarith

theorem Metric.dist_le_walkLength (a : dtVec F) (es : List (dtPolyRef × UInt8)) :
    q.dtVdist a q.endPos ≤ q.walkLength P a es := by
  induction es generalizing a with
  | nil => exact le_rfl
  | cons e es ih => exact (hm.triangle a (P e) q.endPos).trans (add_le_add_right (ih (P e)) _)

/-- Of a walk that starts at a closed node, there is an open node with no greater total. -/
theorem LoopInv.exists_open (h : q.LoopInv s) (hout : s.outOfNodes = false) (hP : Places s P)
    (hi : i < s.nodePool.m_nodeCount) (hcl : (s.nodePool.m_nodes i).flags = DT_NODE_CLOSED)
    (hw : q.Walk (s.nodePool.m_nodes i).id es) :
    ∃ j < s.nodePool.m_nodeCount, (s.nodePool.m_nodes j).flags = DT_NODE_OPEN ∧
      (s.nodePool.m_nodes j).total ≤ (s.nodePool.m_nodes i).cost +
        q.dtVdist (s.nodePool.m_nodes i).pos a + q.walkLength P a es := by
  induction es generalizing i a with
  | nil => exact absurd hw (h.explored i hi hcl).1
  | cons e es ih =>
    obtain ⟨⟨link, hl, rfl⟩, hw⟩ := hw
    have htri := hm.triangle (s.nodePool.m_nodes i).pos a (P (link.ref, link.crossSide &&& 3))
    rw [walkLength]
    rcases (h.explored i hi hcl).2 link hl with hout' | ⟨j, hj, hentered, hle⟩ | ⟨j, hj, hid, hle⟩
    · exact absurd (hout'.symm.trans hout) Bool.noConfusion
    · -- the node that the link leads to
      have hentry : entry (s.nodePool.m_nodes j) = (link.ref, link.crossSide &&& 3) :=
        Prod.ext hentered.1 hentered.2
      rw [← hentry] at hw htri ⊢
      rw [hP j hj] at htri ⊢
      rcases h.inv.flags j hj with hop | hclj
      · refine ⟨j, hj, hop, ?_⟩
        have hedge := hm.edgeCost_le (s.nodePool.m_nodes i) (s.nodePool.m_nodes j)
        have hrest := hm.dist_le_walkLength (P := P) (s.nodePool.m_nodes j).pos es
        rw [h.inv.total j hj]
        linarith
      · obtain ⟨k, hk, hop, htotal⟩ := ih (a := (s.nodePool.m_nodes j).pos) hj hclj hw
        refine ⟨k, hk, hop, htotal.trans ?_⟩
        have hedge := hm.edgeCost_of_ne (s.nodePool.m_nodes i) (h.explored j hj hclj).1
        have hself := hm.self (s.nodePool.m_nodes j).pos
        linarith
    · -- back to where the node has its cost from: it is as if the walk had not come here
      have hedge := hm.dist_le_edgeCost (s.nodePool.m_nodes j) (s.nodePool.m_nodes i)
      rcases h.inv.flags j hj with hop | hclj
      · refine ⟨j, hj, hop, ?_⟩
        have hheuristic := hm.heuristicAt_le (s.nodePool.m_nodes j)
        have htri₁ := hm.triangle (s.nodePool.m_nodes j).pos (s.nodePool.m_nodes i).pos q.endPos
        have htri₂ := hm.triangle (s.nodePool.m_nodes i).pos a q.endPos
        have hrest := hm.dist_le_walkLength (P := P) a ((link.ref, link.crossSide &&& 3) :: es)
        rw [walkLength] at hrest
        rw [h.inv.total j hj]
        linarith
      · obtain ⟨k, hk, hop, htotal⟩ :=
          ih (a := P (link.ref, link.crossSide &&& 3)) hj hclj (hid.symm ▸ hw)
        refine ⟨k, hk, hop, htotal.trans ?_⟩
        have htri' := hm.triangle (s.nodePool.m_nodes j).pos (s.nodePool.m_nodes i).pos
          (P (link.ref, link.crossSide &&& 3))
        linarith

/-- **No walk to the end is shorter** than the goal is far away when it is the least open node. -/
theorem LoopInv.goal_le (h : q.LoopInv t) (hc : q.Closes t s best)
    (hend : (t.nodePool.m_nodes best).id = q.endRef) (hout : t.outOfNodes = false)
    (hP : Places t P) (hw : q.Walk q.startRef es) :
    (t.nodePool.m_nodes best).cost ≤ q.walkLength P q.startPos es := by
  obtain ⟨hid, hpos, -, hcost, -⟩ := h.inv.root
  -- the walk has an open node: the first one, or one after it
  have hopen : ∃ j < t.nodePool.m_nodeCount, (t.nodePool.m_nodes j).flags = DT_NODE_OPEN ∧
      (t.nodePool.m_nodes j).total ≤ q.walkLength P q.startPos es := by
    rcases h.inv.flags 0 h.inv.pos with hop | hcl
    · refine ⟨0, h.inv.pos, hop, ?_⟩
      have hheuristic := hm.heuristicAt_le (t.nodePool.m_nodes 0)
      rw [h.inv.total 0 h.inv.pos, hcost, zero_add]
      rw [hpos] at hheuristic ⊢
      exact hheuristic.trans (hm.dist_le_walkLength q.startPos es)
    · obtain ⟨j, hj, hop, hle⟩ := h.exists_open hm hout hP h.inv.pos hcl (hid.symm ▸ hw)
        (a := q.startPos)
      rw [hcost, hpos, hm.self, add_zero, zero_add] at hle
      exact ⟨j, hj, hop, hle⟩
  obtain ⟨j, hj, hop, hle⟩ := hopen
  have htotal := h.inv.total best hc.lt
  rw [heuristicAt, if_pos hend, add_zero] at htotal
  exact htotal ▸ (hc.least j hj hop).trans hle

/-! ### The way that is found -/

/-- The way down to a node is no longer than the node is far away. -/
theorem SearchInv.walk_entriesTo (h : q.SearchInv s) (hP : Places s P) {l : List ℕ}
    (hasc : s.nodePool.Ascends (i :: l)) (hlast : (i :: l).getLast? = some 0)
    (hlt : ∀ j ∈ i :: l, j < s.nodePool.m_nodeCount) (hw : q.Walk (s.nodePool.m_nodes i).id es) :
    q.Walk q.startRef (entriesTo s (i :: l) ++ es) ∧
      q.walkLength P q.startPos (entriesTo s (i :: l) ++ es) ≤
        (s.nodePool.m_nodes i).cost + q.walkLength P (s.nodePool.m_nodes i).pos es := by
  induction l generalizing i es with
  | nil =>
    obtain rfl : i = 0 := Option.some.inj hlast
    obtain ⟨hid, hpos, -, hcost, -⟩ := h.root
    rw [hcost, hpos, zero_add]
    exact ⟨hid ▸ hw, le_rfl⟩
  | cons k l ih =>
    have hi := hlt i List.mem_cons_self
    obtain ⟨-, ⟨link, hl, hentered⟩, hle⟩ :=
      h.parent_spec hi (dtNodePool.parentNode_eq_some.1 hasc.1)
    have hwk : q.Walk (s.nodePool.m_nodes k).id (entry (s.nodePool.m_nodes i) :: es) :=
      ⟨⟨link, hl, Prod.ext hentered.1 hentered.2⟩, hw⟩
    obtain ⟨hwalk, hlen⟩ := ih hasc.2
      (by rwa [List.getLast?_cons_cons] at hlast)
      (fun j hj => hlt j (List.mem_cons_of_mem _ hj)) hwk
    rw [entriesTo_cons_cons, List.append_assoc]
    refine ⟨hwalk, le_trans hlen ?_⟩
    have hedge := hm.dist_le_edgeCost (s.nodePool.m_nodes k) (s.nodePool.m_nodes i)
    rw [walkLength, hP i hi]
    linarith

theorem SearchInv.walk_goal (h : q.SearchInv s) (hP : Places s P) (hne : q.startRef ≠ q.endRef)
    {l : List ℕ} (hasc : s.nodePool.Ascends (i :: l)) (hlast : (i :: l).getLast? = some 0)
    (hlt : ∀ j ∈ i :: l, j < s.nodePool.m_nodeCount)
    (hend : (s.nodePool.m_nodes i).id = q.endRef) :
    q.Walk q.startRef (entriesTo s (i :: l)) ∧
      q.walkLength P q.startPos (entriesTo s (i :: l)) ≤ (s.nodePool.m_nodes i).cost := by
  cases l with
  | nil =>
    obtain rfl : i = 0 := Option.some.inj hlast
    exact absurd (h.root.1.symm.trans hend) hne
  | cons k l =>
    -- the last link ends with the rest of the way
    have hi := hlt i List.mem_cons_self
    obtain ⟨-, ⟨link, hl, hentered⟩, hle⟩ :=
      h.parent_spec hi (dtNodePool.parentNode_eq_some.1 hasc.1)
    have hwk : q.Walk (s.nodePool.m_nodes k).id [entry (s.nodePool.m_nodes i)] :=
      ⟨⟨link, hl, Prod.ext hentered.1 hentered.2⟩, hend⟩
    obtain ⟨hwalk, hlen⟩ := h.walk_entriesTo hm hP hasc.2
      (by rwa [List.getLast?_cons_cons] at hlast)
      (fun j hj => hlt j (List.mem_cons_of_mem _ hj)) hwk
    rw [entriesTo_cons_cons]
    refine ⟨hwalk, le_trans hlen ?_⟩
    rwa [walkLength, walkLength, hP i hi, ← hm.edgeCost_end _ hend]

omit hm [Field F] [LinearOrder F] [IsStrictOrderedRing F] in
/-- With one node an entry, every entry has a place. -/
theorem Keyed.exists_places (h : Keyed s) : ∃ P, Places s P := by
  classical
  refine ⟨fun e => if he : ∃ i < s.nodePool.m_nodeCount, entry (s.nodePool.m_nodes i) = e then
    (s.nodePool.m_nodes he.choose).pos else (s.nodePool.m_nodes 0).pos, fun i hi => ?_⟩
  have he : ∃ j < s.nodePool.m_nodeCount,
      entry (s.nodePool.m_nodes j) = entry (s.nodePool.m_nodes i) := ⟨i, hi, rfl⟩
  dsimp only
  rw [dif_pos he, h he.choose_spec.1 hi he.choose_spec.2]

omit hm [IsStrictOrderedRing F] in
/-- The polygons on the way down are those of its entries. -/
theorem corridorTo_eq {l : List ℕ} (h : q.SearchInv s) (hlast : l.getLast? = some 0) :
    corridorTo s l = q.startRef :: (entriesTo s l).map Prod.fst := by
  have hhead : l.reverse = 0 :: l.reverse.tail := by
    rw [← List.head?_reverse] at hlast
    exact (List.cons_head?_tail hlast).symm
  rw [corridorTo, entriesTo, hhead, List.map_cons, h.root.1, List.tail_cons, List.map_map]
  rfl

/-- **The path that is found is a shortest walk** to the end. -/
theorem findPath_shortest {pool : dtNodePool F} {openList : dtNodeQueue} {maxPath fuel : ℕ}
    {r : PathResult} (hside : q.Sided) (hne : q.startRef ≠ q.endRef) (hpos : 0 < pool.m_maxNodes)
    (hmax : pool.m_maxNodes ≤ DT_NULL_IDX)
    (h : q.findPath pool openList maxPath fuel = some (some r)) (hwhole : r.partialResult = false)
    (hout : r.outOfNodes = false) :
    ∃ s es, (q.init pool openList).bind (q.searchLoop fuel) = some s ∧ (∃ P, Places s P) ∧
      q.Walk q.startRef es ∧ r.path = (q.startRef :: es.map Prod.fst).take maxPath ∧
      ∀ P, Places s P → ∀ es', q.Walk q.startRef es' →
        q.walkLength P q.startPos es ≤ q.walkLength P q.startPos es' := by
  have hq := hm.nonNeg
  obtain ⟨s, l, hs, hup, rfl⟩ := findPath_cases hq hne hpos hmax h
  obtain ⟨s₀, t, hsearch⟩ := exists_searches hq hne hpos hmax hs
  have hinv := hsearch.ends.searchInv hsearch.loopInv
  have hend : (s.nodePool.m_nodes s.lastBestNode).id = q.endRef := by simpa using hwhole
  have hwithin : q.Within Set.univ := ⟨trivial, fun _ _ _ _ => trivial⟩
  obtain ⟨hasc, hlast, hlt⟩ := hup
  obtain ⟨P₀, hP₀⟩ := (hsearch.fits hq hside hwithin).keyed.exists_places
  refine ⟨s, entriesTo s (s.lastBestNode :: l), hs, ⟨P₀, hP₀⟩,
    (hinv.walk_goal hm hP₀ hne hasc hlast hlt hend).1, ?_, fun P hP es' hw => ?_⟩
  · exact congrArg (List.take maxPath) (corridorTo_eq hinv hlast)
  · refine (hinv.walk_goal hm hP hne hasc hlast hlt hend).2.trans ?_
    -- the goal is the last node that was closed
    obtain ⟨u, best, hc, hgoal, rfl⟩ := hsearch.ends.exists_closes hsearch.loopInv hend
    rw [closed_same dtNode.cost (fun _ => rfl) hc.node hc.others]
    have hPt : Places t P := fun i hi => by
      rw [← (hc.keeps.place i hi).entry, ← (hc.keeps.place i hi).pos]
      exact hP i (hc.count.symm ▸ hi)
    exact hsearch.loopInv.goal_le hm hc hgoal (hc.out.symm.trans hout) hPt hw

end Metric

theorem metric_fourRooms (endRef : dtPolyRef) : (fourRooms endRef).Metric where
  nonneg := (nonNeg_fourRooms endRef).dist
  self a := by simp [fourRooms]
  triangle a b c := by
    unfold fourRooms
    dsimp only
    split_ifs <;> linarith
  area _ := rfl

/-- Past the pillar on the shorter side. -/
theorem findPath_shortest_rooms : ∃ s es,
    ((fourRooms 4).init (dtNodePool.oneBucket 8) ⟨fun _ => 0, 8, 0⟩).bind
        ((fourRooms 4).searchLoop 9) = some s ∧ (∃ P, Places s P) ∧ (fourRooms 4).Walk 1 es ∧
      [1, 3, 4] = ((1 :: es.map Prod.fst).take 4 : List dtPolyRef) ∧
      ∀ P, Places s P → ∀ es', (fourRooms 4).Walk 1 es' →
        (fourRooms 4).walkLength P ⟨0, 0, 0⟩ es ≤ (fourRooms 4).walkLength P ⟨0, 0, 0⟩ es' := by
  have h : (fourRooms 4).findPath (dtNodePool.oneBucket 8) ⟨fun _ => 0, 8, 0⟩ 4 9 =
      some (some ⟨[1, 3, 4], false, false, false⟩) := by decide +kernel
  exact findPath_shortest (metric_fourRooms 4) (sided_fourRooms 4) (by decide) (by decide)
    (by decide) h rfl rfl

end PathQuery

end ClientServer
