import ClientServer.Detour.PathFound
import Mathlib.Data.Prod.Lex
import Mathlib.Data.Set.Card
import Mathlib.Data.Set.Finite.List
import Mathlib.Order.CompletePartialOrder
import Mathlib.Order.WellFounded

/-!
# The search comes to an end

The search may open a node again whenever it gets cheaper, so that the number of passes is not
bounded by the number of nodes.  But the cost of a node is always the cost of some way to the first
node on which no node comes twice: a node that came again would have been cheaper already.  There
are finitely many such ways, and a node that is assigned again passes to a cheaper one.

* `Trail` : a way a node has its cost from.
* `SearchInv.trailed` : an assignment keeps that there is one.
* `rank` : what every pass makes smaller.
* `findPath_terminates` : **the search ends**, whatever the mesh and the costs.
-/

namespace ClientServer

namespace PathQuery

variable {F : Type*} [Field F] [LinearOrder F] {q : PathQuery F} {s s' t : PathSearch F}
  {best i j : ℕ} {link : dtLink} {l : List ℕ}

/-! ### Trails -/

/-- What a way costs that leads to the first of these nodes. -/
def trailCost (q : PathQuery F) (m : ℕ → dtNode F) : List ℕ → F
  | [] => 0
  | [_] => 0
  | i :: j :: l => trailCost q m (j :: l) + q.edgeCost (m j) (m i)

/-- Lists without repetition of the first `n` nodes. -/
def trails (n : ℕ) : Set (List ℕ) := {l | l.Nodup ∧ ∀ j ∈ l, j < n}

theorem finite_trails (n : ℕ) : (trails n).Finite := by
  refine ((List.finite_length_le (Fin n) n).image (List.map Fin.val)).subset ?_
  rintro l ⟨hnodup, hlt⟩
  have hsub : l.Subperm (List.range n) :=
    hnodup.subperm fun j hj => List.mem_range.2 (hlt j hj)
  refine ⟨l.pmap Fin.mk hlt, ?_, ?_⟩
  · simpa using hsub.length_le
  · simp [List.map_pmap]

/-- The node `i` has its cost from the way `l`, and no node on it costs more than by this way. -/
structure Trail (q : PathQuery F) (s : PathSearch F) (i : ℕ) (l : List ℕ) : Prop where
  mem : l ∈ trails s.nodePool.m_nodeCount
  head : l.head? = some i
  cost : q.trailCost s.nodePool.m_nodes l = (s.nodePool.m_nodes i).cost
  le : ∀ k m, k :: m <:+ l →
    (s.nodePool.m_nodes k).cost ≤ q.trailCost s.nodePool.m_nodes (k :: m)

/-- Every node has its cost from some way. -/
def Trailed (q : PathQuery F) (s : PathSearch F) : Prop :=
  ∀ i < s.nodePool.m_nodeCount, ∃ l, q.Trail s i l

omit [LinearOrder F] in
theorem trailCost_congr {m m' : ℕ → dtNode F} (h : ∀ j ∈ l, SamePlace (m' j) (m j)) :
    q.trailCost m' l = q.trailCost m l := by
  induction l with
  | nil => rfl
  | cons i l ih =>
    cases l with
    | nil => rfl
    | cons j l =>
      rw [trailCost, trailCost, ih fun k hk => h k (List.mem_cons_of_mem _ hk),
        (h j (by simp)).edgeCost (h i (by simp))]

section Trail

variable [IsStrictOrderedRing F]

theorem NonNeg.trailCost_suffix (hq : q.NonNeg) (m : ℕ → dtNode F) {l' : List ℕ} (h : l' <:+ l)
    (hne : l' ≠ []) : q.trailCost m l' ≤ q.trailCost m l := by
  induction l with
  | nil => exact absurd (List.suffix_nil.1 h) hne
  | cons i l ih =>
    rcases List.suffix_cons_iff.1 h with rfl | h
    · exact le_rfl
    · cases l with
      | nil => exact absurd (List.suffix_nil.1 h) hne
      | cons j l => exact (ih h).trans (le_add_of_nonneg_right (hq.edgeCost _ _))

/-- **An assigned node is not on the way to its new parent.** -/
theorem SearchInv.notMem_trail (h : q.SearchInv s) (hq : q.NonNeg)
    (ha : q.Assigned best link s s' i) (hl : q.Trail s best l) : i ∉ l := by
  intro hmem
  obtain ⟨a, b, rfl⟩ := List.append_of_mem hmem
  have hsuffix : i :: b <:+ a ++ i :: b := List.suffix_append _ _
  have hlt := h.cost_lt ha (hl.mem.2 i hmem)
  rw [ha.cost] at hlt
  have hle := (hl.le i b hsuffix).trans
    ((hq.trailCost_suffix _ hsuffix (List.cons_ne_nil _ _)).trans_eq hl.cost)
  exact absurd hlt (not_lt.2 (hle.trans (le_add_of_nonneg_right (hq.edgeCost _ _))))

theorem SearchInv.trail_assigned (h : q.SearchInv s) (hq : q.NonNeg)
    (hbest : best < s.nodePool.m_nodeCount) (ha : q.Assigned best link s s' i)
    (hl : q.Trail s best l) : q.Trail s' i (i :: l) := by
  have hnot := h.notMem_trail hq ha hl
  have hbi := (h.assigned_ne hq hbest ha).1
  have hcount := ha.count
  obtain ⟨l', rfl⟩ : ∃ l', l = best :: l' := ⟨l.tail, (List.cons_head?_tail hl.head).symm⟩
  have hsame : ∀ j ∈ best :: l', s'.nodePool.m_nodes j = s.nodePool.m_nodes j := fun j hj =>
    ha.others j (ne_of_mem_of_not_mem hj hnot)
  have hcost : ∀ m, m <:+ best :: l' →
      q.trailCost s'.nodePool.m_nodes m = q.trailCost s.nodePool.m_nodes m := fun m hm =>
    trailCost_congr fun j hj => by
      rw [hsame j (hm.subset hj)]
      exact .refl _
  have hself : q.trailCost s'.nodePool.m_nodes (i :: best :: l') = (s'.nodePool.m_nodes i).cost := by
    rw [trailCost, hcost _ List.suffix_rfl, hl.cost, ha.others best hbi, ha.cost]
  refine ⟨⟨List.nodup_cons.2 ⟨hnot, hl.mem.1⟩, ?_⟩, rfl, hself, fun k m hkm => ?_⟩
  · rw [List.forall_mem_cons]
    exact ⟨by omega, fun j hj => (hl.mem.2 j hj).trans_le (by omega)⟩
  · rcases List.suffix_cons_iff.1 hkm with heq | hkm
    · obtain ⟨rfl, rfl⟩ := List.cons.inj heq
      exact hself.ge
    · rw [hcost _ hkm, hsame k (hkm.subset List.mem_cons_self)]
      exact hl.le k m hkm

/-- The other ways stay, and get no more expensive. -/
theorem SearchInv.trail_other (h : q.SearchInv s) (ha : q.Assigned best link s s' i) (hji : j ≠ i)
    (hl : q.Trail s j l) : q.Trail s' j l := by
  have hcount := ha.count
  have hcost : ∀ m, m <:+ l →
      q.trailCost s'.nodePool.m_nodes m = q.trailCost s.nodePool.m_nodes m := fun m hm =>
    trailCost_congr fun k hk => ha.samePlace (hl.mem.2 k (hm.subset hk))
  refine ⟨⟨hl.mem.1, fun k hk => (hl.mem.2 k hk).trans_le (by omega)⟩, hl.head, ?_,
    fun k m hkm => ?_⟩
  · rw [hcost _ List.suffix_rfl, hl.cost, ha.others j hji]
  · rw [hcost _ hkm]
    exact (h.cost_le ha (hl.mem.2 k (hkm.subset List.mem_cons_self))).trans (hl.le k m hkm)

/-- **An assignment keeps that every node has its cost from some way.** -/
theorem SearchInv.trailed (h : q.SearchInv s) (hq : q.NonNeg)
    (hbest : best < s.nodePool.m_nodeCount) (ha : q.Assigned best link s s' i)
    (ht : q.Trailed s) : q.Trailed s' := by
  intro j hj
  by_cases hji : j = i
  · subst hji
    obtain ⟨l, hl⟩ := ht best hbest
    exact ⟨j :: l, h.trail_assigned hq hbest ha hl⟩
  · have hcount := ha.count
    obtain ⟨l, hl⟩ := ht j (by omega)
    exact ⟨l, h.trail_other ha hji hl⟩

end Trail

/-! ### What gets smaller -/

/-- Ways that are cheaper than the node they lead to. -/
def cheaper (q : PathQuery F) (s : PathSearch F) : Set (List ℕ) :=
  {l ∈ trails s.nodePool.m_nodeCount | ∃ i, l.head? = some i ∧
    q.trailCost s.nodePool.m_nodes l < (s.nodePool.m_nodes i).cost}

/-- Room for nodes, cheaper ways, open nodes. -/
noncomputable def rank (q : PathQuery F) (s : PathSearch F) : ℕ ×ₗ ℕ ×ₗ ℕ :=
  toLex (s.nodePool.m_maxNodes - s.nodePool.m_nodeCount,
    toLex ((q.cheaper s).ncard, s.openList.m_size))

theorem rank_lt_of_count (hmax : s'.nodePool.m_maxNodes = s.nodePool.m_maxNodes)
    (hlt : s.nodePool.m_nodeCount < s'.nodePool.m_nodeCount)
    (hle : s'.nodePool.m_nodeCount ≤ s'.nodePool.m_maxNodes) : q.rank s' < q.rank s := by
  refine Prod.Lex.toLex_lt_toLex.2 (.inl ?_)
  dsimp only
  omega

theorem rank_lt_of_cheaper (hmax : s'.nodePool.m_maxNodes = s.nodePool.m_maxNodes)
    (hcount : s'.nodePool.m_nodeCount = s.nodePool.m_nodeCount)
    (hlt : q.cheaper s' ⊂ q.cheaper s) : q.rank s' < q.rank s := by
  have hfinite : (q.cheaper s).Finite := (finite_trails _).subset (Set.sep_subset _ _)
  refine Prod.Lex.toLex_lt_toLex.2 (.inr ⟨by rw [hmax, hcount], ?_⟩)
  exact Prod.Lex.toLex_lt_toLex.2 (.inl (Set.ncard_lt_ncard hlt hfinite))

theorem rank_lt_of_size (hmax : s'.nodePool.m_maxNodes = s.nodePool.m_maxNodes)
    (hcount : s'.nodePool.m_nodeCount = s.nodePool.m_nodeCount)
    (heq : q.cheaper s' = q.cheaper s) (hlt : s'.openList.m_size < s.openList.m_size) :
    q.rank s' < q.rank s := by
  refine Prod.Lex.toLex_lt_toLex.2 (.inr ⟨by rw [hmax, hcount], ?_⟩)
  exact Prod.Lex.toLex_lt_toLex.2 (.inr ⟨by rw [heq], hlt⟩)

section Rank

variable [IsStrictOrderedRing F]

/-- **An assignment makes the rank smaller.** -/
theorem SearchInv.rank_assigned (h : q.SearchInv s) (hq : q.NonNeg)
    (hbest : best < s.nodePool.m_nodeCount) (ha : q.Assigned best link s s' i)
    (ht : q.Trailed s) : q.rank s' < q.rank s := by
  rcases ha.count with ⟨hi, hcount⟩ | ⟨-, hcount⟩
  · refine rank_lt_of_cheaper ha.max hcount ((Set.ssubset_iff_of_subset ?_).2 ?_)
    · rintro l ⟨hl, k, hk, hlt⟩
      rw [hcount] at hl
      refine ⟨hl, k, hk, ?_⟩
      rw [← trailCost_congr fun j hj => ha.samePlace (hl.2 j hj)]
      exact hlt.trans_le (h.cost_le ha (hl.2 k (List.mem_of_mem_head? hk)))
    · -- the way by the new parent was cheaper, and is no more
      obtain ⟨l, hl⟩ := ht best hbest
      have htrail := h.trail_assigned hq hbest ha hl
      have hmem := hcount ▸ htrail.mem
      refine ⟨i :: l, ⟨hmem, i, rfl, ?_⟩, fun ⟨_, k, hk, hlt⟩ => ?_⟩
      · rw [← trailCost_congr fun j hj => ha.samePlace (hmem.2 j hj), htrail.cost]
        exact h.cost_lt ha hi
      · obtain rfl := Option.some.inj hk
        exact absurd htrail.cost hlt.ne
  · exact rank_lt_of_count ha.max (by omega) ha.chained.count

theorem Expansions.rank_le (he : q.Expansions best s s') (h : q.SearchInv s) (hq : q.NonNeg)
    (hbest : best < s.nodePool.m_nodeCount) (ht : q.Trailed s) :
    q.Trailed s' ∧ q.rank s' ≤ q.rank s := by
  induction he with
  | refl => exact ⟨ht, le_rfl⟩
  | out _ _ ih =>
    exact ⟨fun i hi => (ih.1 i hi).imp fun _ hl => ⟨hl.mem, hl.head, hl.cost, hl.le⟩, ih.2⟩
  | assign he ha ih =>
    obtain ⟨hinv, hgrows, -⟩ := he.searchInv h hq hbest
    have hlt := hbest.trans_le hgrows.count
    exact ⟨hinv.trailed hq hlt ha ih.1, (hinv.rank_assigned hq hlt ha ih.1).le.trans ih.2⟩

omit [IsStrictOrderedRing F] in
theorem Closes.rank_lt (h : q.Closes s s' best) (ht : q.Trailed s) :
    q.Trailed s' ∧ q.rank s' < q.rank s := by
  have hcost := closed_same dtNode.cost (fun _ => rfl) h.node h.others
  have htrail : ∀ l ∈ trails s.nodePool.m_nodeCount,
      q.trailCost s'.nodePool.m_nodes l = q.trailCost s.nodePool.m_nodes l := fun l hl =>
    trailCost_congr fun j hj => h.keeps.place j (hl.2 j hj)
  constructor
  · intro i hi
    obtain ⟨l, hl⟩ := ht i (h.count ▸ hi)
    refine ⟨l, h.count.symm ▸ hl.mem, hl.head, ?_, fun k m hkm => ?_⟩
    · rw [htrail l hl.mem, hcost, hl.cost]
    · rw [htrail _ ⟨hkm.sublist.nodup hl.mem.1, fun j hj => hl.mem.2 j (hkm.subset hj)⟩, hcost]
      exact hl.le k m hkm
  · refine rank_lt_of_size h.max h.count ?_ (by have hsize := h.size; omega)
    unfold cheaper
    rw [h.count]
    ext l
    refine and_congr_right fun hl => exists_congr fun k => ?_
    rw [htrail l hl, hcost]

/-- **Every pass makes the rank smaller.** -/
theorem Passes.rank_lt (hp : q.Passes s s' best) (hq : q.NonNeg) (ht : q.Trailed s) :
    q.Trailed s' ∧ q.rank s' < q.rank s := by
  obtain ⟨t, hc, he⟩ := hp.middle
  obtain ⟨htrailed, hlt⟩ := hc.rank_lt ht
  obtain ⟨htrailed', hle⟩ := he.rank_le hc.inv hq (hc.count ▸ hc.lt) htrailed
  exact ⟨htrailed', hle.trans_lt hlt⟩

theorem LoopInv.exists_fuel (h : q.LoopInv s) (hq : q.NonNeg) (ht : q.Trailed s) :
    ∃ n, ∀ fuel ≥ n, ∃ s', q.searchLoop fuel s = some s' := by
  induction hr : q.rank s using WellFoundedLT.induction generalizing s with
  | ind r ih =>
    rcases h.inv.turn_spec hq with ⟨-, heq⟩ | ⟨best, -, ⟨t, -, -, heq⟩ | ⟨t, heq, hp⟩⟩
    · refine ⟨1, fun fuel hfuel => ⟨s, ?_⟩⟩
      obtain ⟨k, rfl⟩ := Nat.exists_eq_add_of_le' hfuel
      rw [PathQuery.searchLoop, heq]
    · refine ⟨1, fun fuel hfuel => ⟨{ t with lastBestNode := best }, ?_⟩⟩
      obtain ⟨k, rfl⟩ := Nat.exists_eq_add_of_le' hfuel
      rw [PathQuery.searchLoop, heq]
    · obtain ⟨htrailed, hlt⟩ := hp.rank_lt hq ht
      obtain ⟨n, hn⟩ := ih _ (hr ▸ hlt) (h.passes hq hp) htrailed rfl
      refine ⟨n + 1, fun fuel hfuel => ?_⟩
      obtain ⟨k, rfl⟩ := Nat.exists_eq_add_of_le' hfuel
      obtain ⟨s', hs'⟩ := hn (k + n) (Nat.le_add_left n k)
      refine ⟨s', ?_⟩
      rw [← Nat.add_assoc, PathQuery.searchLoop, heq]
      exact hs'

omit [IsStrictOrderedRing F] in
/-- The first node has its cost from the way with no link. -/
theorem trailed_init (h : q.LoopInv s) (hone : s.nodePool.m_nodeCount = 1) : q.Trailed s := by
  intro i hi
  obtain rfl : i = 0 := by omega
  refine ⟨[0], ⟨List.nodup_singleton 0, by simpa using hi⟩, rfl, ?_, fun k m hkm => ?_⟩
  · exact h.inv.root.2.2.2.1.symm
  · obtain ⟨rfl, rfl⟩ : k = 0 ∧ m = [] := by
      rcases List.suffix_cons_iff.1 hkm with heq | hnil
      · exact List.cons.inj heq
      · exact absurd (List.suffix_nil.1 hnil) (List.cons_ne_nil k m)
    exact h.inv.root.2.2.2.1.le

theorem exists_result {pool : dtNodePool F} (openList : dtNodeQueue) {maxPath : ℕ}
    (hvalid : ¬(q.mesh.isValidPolyRef q.startRef = false ∨ q.mesh.isValidPolyRef q.endRef = false ∨
      maxPath = 0)) (hq : q.NonNeg) (hpos : 0 < pool.m_maxNodes)
    (hmax : pool.m_maxNodes ≤ DT_NULL_IDX) :
    ∃ n, ∀ fuel ≥ n, ∃ r, q.findPath pool openList maxPath fuel = some (some r) := by
  have hcheck : (!q.mesh.isValidPolyRef q.startRef || !q.mesh.isValidPolyRef q.endRef ||
      decide (maxPath = 0)) = false := by
    simpa [not_or, and_assoc] using hvalid
  by_cases hne : q.startRef = q.endRef
  · refine ⟨0, fun fuel _ => ⟨⟨[q.startRef], false, false, false⟩, ?_⟩⟩
    rw [findPath, hcheck, if_neg Bool.false_ne_true, if_pos hne]
  obtain ⟨s₀, hinit, hloopInv, hone, -⟩ := loopInv_init hne hpos hmax openList
  obtain ⟨n, hn⟩ := hloopInv.exists_fuel hq (trailed_init hloopInv hone)
  refine ⟨max n (pool.m_maxNodes + 1), fun fuel hfuel => ?_⟩
  obtain ⟨s, hs⟩ := hn fuel (le_of_max_le_left hfuel)
  have hbind : (q.init pool openList).bind (q.searchLoop fuel) = some s := by
    rw [hinit, Option.bind_some, hs]
  -- the way back has no more nodes than the pool
  obtain ⟨s₁, t, hsearch⟩ := exists_searches hq hne hpos hmax hbind
  have hinv := hsearch.ends.searchInv hsearch.loopInv
  obtain ⟨l, hasc, hlast, hlt⟩ := hinv.exists_ascends hinv.best
  have hlen := (hinv.corridor hasc hlast hlt).2.trans hinv.chained.count
  rw [hsearch.ends.keeps.max, hsearch.keeps.max, hsearch.max, corridorTo, List.length_map,
    List.length_reverse, List.length_cons] at hlen
  have hlong : l.length < fuel := by omega
  rw [findPath, hcheck, if_neg Bool.false_ne_true, if_neg hne, hbind]
  simp only [hasc.getPathToNode, if_pos hlong]
  exact ⟨_, rfl⟩

/-- **`findPath` returns**, whatever the mesh and the costs. -/
theorem findPath_terminates {pool : dtNodePool F} (openList : dtNodeQueue) (maxPath : ℕ)
    (hq : q.NonNeg) (hpos : 0 < pool.m_maxNodes) (hmax : pool.m_maxNodes ≤ DT_NULL_IDX) :
    ∃ n, ∀ fuel ≥ n, ∃ r, q.findPath pool openList maxPath fuel = some r := by
  by_cases hvalid : q.mesh.isValidPolyRef q.startRef = false ∨
      q.mesh.isValidPolyRef q.endRef = false ∨ maxPath = 0
  · exact ⟨0, fun fuel _ => ⟨none, findPath_eq_none_iff.2 hvalid⟩⟩
  · obtain ⟨n, hn⟩ := exists_result openList hvalid hq hpos hmax
    refine ⟨n, fun fuel hfuel => ?_⟩
    obtain ⟨r, hr⟩ := hn fuel hfuel
    exact ⟨some r, hr⟩

end Rank

/-- Around the pillar. -/
theorem findPath_terminates_rooms : ∃ n, ∀ fuel ≥ n, ∃ r,
    (fourRooms 4).findPath (dtNodePool.oneBucket 2) ⟨fun _ => 0, 2, 0⟩ 4 fuel = some r :=
  findPath_terminates _ _ (nonNeg_fourRooms 4) (by decide) (by decide)

end PathQuery

end ClientServer
