import ClientServer.Detour.SearchRun

/-!
# The path that is found

When the search is over, the path is read off the parents of the best node, and cut off where the
buffer ends.

* `dtNodePool.Ascends` : the way up from a node, and `Ascends.getPathToNode` what `getPathToNode`
  makes of it.
* `SearchInv.exists_ascends` : every node of the search has such a way; no node comes twice on it.
* `findPath_corridor` : **what `findPath` returns**: a corridor from the start, to the end if that
  can be reached at all.
-/

namespace ClientServer

/-! ### The way up -/

namespace dtNodePool

variable {F : Type*} {p : dtNodePool F} {i j : ℕ} {l : List ℕ}

/-- Each of these nodes is followed by its parent, up to a node that has none. -/
def Ascends (p : dtNodePool F) : List ℕ → Prop
  | [] => True
  | i :: l => p.parentNode i = l.head? ∧ p.Ascends l

theorem parentNode_eq_some : p.parentNode i = some j ↔ (p.m_nodes i).pidx = j + 1 := by
  unfold parentNode
  split_ifs with h
  · simp [h]
  · simp only [Option.some.injEq]
    omega

theorem Ascends.of_append (l' : List ℕ) (h : p.Ascends (l' ++ l)) : p.Ascends l := by
  induction l' with
  | nil => exact h
  | cons i l' ih => exact ih h.2

theorem Ascends.unique {l l' : List ℕ} (h : p.Ascends (i :: l)) (h' : p.Ascends (i :: l')) :
    l = l' := by
  induction l generalizing i l' with
  | nil =>
    have hhead := h.1.symm.trans h'.1
    cases l' with
    | nil => rfl
    | cons j l' => cases hhead
  | cons j l ih =>
    have hhead := h.1.symm.trans h'.1
    cases l' with
    | nil => cases hhead
    | cons j' l' =>
      obtain rfl : j = j' := Option.some.inj hhead
      rw [ih h.2 h'.2]

/-- No node comes twice: it would have a shorter way up. -/
theorem Ascends.nodup (h : p.Ascends l) : l.Nodup := by
  induction l with
  | nil => exact List.nodup_nil
  | cons i l ih =>
    refine List.nodup_cons.2 ⟨fun hmem => ?_, ih h.2⟩
    obtain ⟨a, b, rfl⟩ := List.append_of_mem hmem
    have hb := Ascends.of_append a h.2
    have hlen := congrArg List.length (h.unique hb)
    simp at hlen
    omega

theorem Ascends.isChain (h : p.Ascends l) :
    l.IsChain fun i j => (p.m_nodes i).pidx = j + 1 := by
  induction l with
  | nil => exact .nil
  | cons i l ih =>
    cases l with
    | nil => exact .singleton i
    | cons j l => exact .cons_cons (parentNode_eq_some.1 h.1) (ih h.2)

theorem Ascends.pathLength (h : p.Ascends (i :: l)) (fuel : ℕ) :
    p.pathLength fuel i = if l.length < fuel then some (l.length + 1) else none := by
  induction fuel generalizing i l with
  | zero => rfl
  | succ fuel ih =>
    rw [dtNodePool.pathLength, h.1]
    cases l with
    | nil => simp
    | cons j l =>
      simp only [List.head?_cons, ih h.2, List.length_cons]
      split_ifs <;> first | rfl | omega

theorem Ascends.advance (h : p.Ascends l) (n : ℕ) :
    p.advance n l.head? = (l.drop n).head? := by
  induction n generalizing l with
  | zero => rfl
  | succ n ih =>
    cases l with
    | nil => rfl
    | cons i l =>
      rw [List.head?_cons, dtNodePool.advance, Option.bind_some, h.1, ih h.2, List.drop_succ_cons]

theorem Ascends.writePath (h : p.Ascends l) {n : ℕ} (hn : n ≤ l.length) (path : List dtPolyRef) :
    p.writePath n l.head? path =
      some (((l.take n).map fun i => (p.m_nodes i).id).reverse ++ path) := by
  induction n generalizing l path with
  | zero => simp [dtNodePool.writePath]
  | succ n ih =>
    cases l with
    | nil => simp at hn
    | cons i l =>
      rw [List.head?_cons, dtNodePool.writePath, Option.bind_some, h.1,
        ih h.2 (Nat.le_of_succ_le_succ hn)]
      simp

/-- **`getPathToNode` returns the way down to the node**, as far as it fits. -/
theorem Ascends.getPathToNode (h : p.Ascends (i :: l)) (fuel maxPath : ℕ) :
    p.getPathToNode fuel i maxPath =
      if l.length < fuel then
        some (((i :: l).reverse.map fun j => (p.m_nodes j).id).take maxPath,
          decide (maxPath < l.length + 1))
      else none := by
  rw [dtNodePool.getPathToNode, h.pathLength]
  split_ifs with hfuel
  · have hadv := h.advance (l.length + 1 - maxPath)
    have hdrop : p.Ascends ((i :: l).drop (l.length + 1 - maxPath)) :=
      Ascends.of_append ((i :: l).take (l.length + 1 - maxPath)) (by rwa [List.take_append_drop])
    have hwrite := hdrop.writePath (n := min (l.length + 1) maxPath)
      (by rw [List.length_drop, List.length_cons]; omega) []
    rw [List.head?_cons] at hadv
    simp only [hadv, hwrite, Option.map_some, List.append_nil]
    -- the last entries of the way up are the first ones of the way down
    rw [List.take_of_length_le (by rw [List.length_drop, List.length_cons]; omega),
      ← List.map_reverse, ← List.map_take, List.reverse_drop, List.length_cons]
    congr 3
    rcases Nat.le_total maxPath (l.length + 1) with hle | hle
    · rw [Nat.sub_sub_self hle]
    · rw [Nat.sub_eq_zero_of_le hle, Nat.sub_zero, List.take_of_length_le (by simp),
        List.take_of_length_le (by simpa using hle)]
  · rfl

end dtNodePool

namespace PathQuery

variable {F : Type*} [Field F] [LinearOrder F] {q : PathQuery F} {s s' : PathSearch F} {i : ℕ}

/-- The polygons down to a node, given the way up from it. -/
def corridorTo (s : PathSearch F) (l : List ℕ) : List dtPolyRef :=
  l.reverse.map fun j => (s.nodePool.m_nodes j).id

theorem SearchInv.exists_ascends (h : q.SearchInv s) (hi : i < s.nodePool.m_nodeCount) :
    ∃ l, s.nodePool.Ascends (i :: l) ∧ (i :: l).getLast? = some 0 ∧
      ∀ j ∈ i :: l, j < s.nodePool.m_nodeCount := by
  have hup := h.rooted i hi
  induction hup using Relation.ReflTransGen.head_induction_on with
  | refl =>
    refine ⟨[], ⟨?_, trivial⟩, rfl, by simpa using hi⟩
    rw [dtNodePool.parentNode, if_pos h.root.2.2.1]
    rfl
  | @head i k hp _ ih =>
    obtain ⟨l, hasc, hlast, hlt⟩ := ih (h.parent_spec hi hp).1
    refine ⟨k :: l, ⟨dtNodePool.parentNode_eq_some.2 hp, hasc⟩, ?_, ?_⟩
    · rw [List.getLast?_cons_cons, hlast]
    · exact List.forall_mem_cons.2 ⟨hi, hlt⟩

/-- The way to a node is a corridor, with no more polygons than there are nodes. -/
theorem SearchInv.corridor (h : q.SearchInv s) {l : List ℕ} (hasc : s.nodePool.Ascends (i :: l))
    (hlast : (i :: l).getLast? = some 0) (hlt : ∀ j ∈ i :: l, j < s.nodePool.m_nodeCount) :
    Detour.Corridor q.Linked q.startRef (s.nodePool.m_nodes i).id (corridorTo s (i :: l)) ∧
      (corridorTo s (i :: l)).length ≤ s.nodePool.m_nodeCount := by
  refine ⟨⟨?_, ?_, ?_⟩, ?_⟩
  · rw [corridorTo, List.isChain_map, List.isChain_reverse]
    refine hasc.isChain.imp_of_mem_imp fun a b ha _ hp => ?_
    obtain ⟨-, ⟨link, hl, hel⟩, -⟩ := h.parent_spec (hlt a ha) hp
    exact ⟨link, hl, hel.1.symm⟩
  · rw [corridorTo, List.head?_map, List.head?_reverse, hlast, Option.map_some, h.root.1]
  · simp [corridorTo]
  · rw [corridorTo, List.length_map, List.length_reverse]
    have hsub : (i :: l).Subperm (List.range s.nodePool.m_nodeCount) :=
      hasc.nodup.subperm fun j hj => List.mem_range.2 (hlt j hj)
    exact hsub.length_le.trans_eq List.length_range

omit [Field F] [LinearOrder F] in
theorem reachable_of_corridor {r : dtPolyRef} {path : List dtPolyRef}
    (h : Detour.Corridor q.Linked q.startRef r path) : q.Reachable r := by
  obtain ⟨hchain, hhead, hlast⟩ := h
  cases path with
  | nil => cases hhead
  | cons a path =>
    obtain rfl : a = q.startRef := Option.some.inj hhead
    refine List.relationReflTransGen_of_exists_isChain_cons path hchain ?_
    rwa [List.getLast?_eq_some_getLast (List.cons_ne_nil _ _), Option.some.injEq] at hlast

/-- When `findPath` fails: the call is not valid. -/
theorem findPath_eq_none_iff {pool : dtNodePool F} {openList : dtNodeQueue} {maxPath fuel : ℕ} :
    q.findPath pool openList maxPath fuel = some none ↔
      q.mesh.isValidPolyRef q.startRef = false ∨ q.mesh.isValidPolyRef q.endRef = false ∨
        maxPath = 0 := by
  unfold findPath
  cases (q.init pool openList).bind (q.searchLoop fuel) <;> split_ifs <;> simp_all [or_assoc]

theorem findPath_same {pool : dtNodePool F} {openList : dtNodeQueue} {maxPath fuel : ℕ}
    {r : PathResult} (hne : q.startRef = q.endRef)
    (h : q.findPath pool openList maxPath fuel = some (some r)) :
    0 < maxPath ∧ r = ⟨[q.startRef], false, false, false⟩ := by
  unfold findPath at h
  split_ifs at h with hvalid
  · exact absurd (Option.some.inj h) (Option.some_ne_none r).symm
  · simp only [Bool.or_eq_true, decide_eq_true_eq, not_or] at hvalid
    exact ⟨Nat.pos_of_ne_zero hvalid.2, (Option.some.inj (Option.some.inj h)).symm⟩

variable [IsStrictOrderedRing F]

/-- A search that went from `s₀` by passes to `t`, and ended in `s`. -/
structure Searches (q : PathQuery F) (pool : dtNodePool F) (s₀ t s : PathSearch F) : Prop where
  begins : q.LoopInv s₀
  one : s₀.nodePool.m_nodeCount = 1
  max : s₀.nodePool.m_maxNodes = pool.m_maxNodes
  out : s₀.outOfNodes = false
  reaches : q.Reaches s₀ t
  loopInv : q.LoopInv t
  keeps : Keeps s₀ t
  ends : q.Ends t s

theorem exists_searches {pool : dtNodePool F} {openList : dtNodeQueue} {fuel : ℕ} (hq : q.NonNeg)
    (hne : q.startRef ≠ q.endRef) (hpos : 0 < pool.m_maxNodes)
    (hmax : pool.m_maxNodes ≤ DT_NULL_IDX)
    (h : (q.init pool openList).bind (q.searchLoop fuel) = some s) :
    ∃ s₀ t, q.Searches pool s₀ t s := by
  obtain ⟨s₀, hinit, hloopInv, hone, hmax₀, hout⟩ := loopInv_init hne hpos hmax openList
  rw [hinit, Option.bind_some] at h
  obtain ⟨t, hreaches, hends⟩ := hloopInv.searchLoop hq h
  obtain ⟨ht, hkeeps⟩ := hloopInv.reaches hq hreaches
  exact ⟨s₀, t, hloopInv, hone, hmax₀, hout, hreaches, ht, hkeeps, hends⟩

/-- The way to the best node, once the search is over. -/
structure WayUp (s : PathSearch F) (l : List ℕ) : Prop where
  ascends : s.nodePool.Ascends (s.lastBestNode :: l)
  last : (s.lastBestNode :: l).getLast? = some 0
  lt : ∀ j ∈ s.lastBestNode :: l, j < s.nodePool.m_nodeCount

/-- What `findPath` returns is read off the state in which the search ended. -/
theorem findPath_cases {pool : dtNodePool F} {openList : dtNodeQueue} {maxPath fuel : ℕ}
    {r : PathResult} (hq : q.NonNeg) (hne : q.startRef ≠ q.endRef) (hpos : 0 < pool.m_maxNodes)
    (hmax : pool.m_maxNodes ≤ DT_NULL_IDX)
    (h : q.findPath pool openList maxPath fuel = some (some r)) :
    ∃ s l, (q.init pool openList).bind (q.searchLoop fuel) = some s ∧ WayUp s l ∧
      r = ⟨(corridorTo s (s.lastBestNode :: l)).take maxPath,
        decide (maxPath < (corridorTo s (s.lastBestNode :: l)).length),
        decide ((s.nodePool.m_nodes s.lastBestNode).id ≠ q.endRef), s.outOfNodes⟩ := by
  unfold findPath at h
  split_ifs at h with hvalid
  · exact absurd (Option.some.inj h) (Option.some_ne_none r).symm
  · cases hs : (q.init pool openList).bind (q.searchLoop fuel) with
    | none => rw [hs] at h; cases h
    | some s =>
      obtain ⟨s₀, t, hsearch⟩ := exists_searches hq hne hpos hmax hs
      have hinv := hsearch.ends.searchInv hsearch.loopInv
      obtain ⟨l, hasc, hlast, hlt⟩ := hinv.exists_ascends hinv.best
      rw [hs] at h
      simp only [hasc.getPathToNode] at h
      by_cases hfuel : l.length < fuel
      · rw [if_pos hfuel] at h
        obtain rfl := Option.some.inj (Option.some.inj h)
        exact ⟨s, l, rfl, ⟨hasc, hlast, hlt⟩, by simp [corridorTo]⟩
      · rw [if_neg hfuel] at h
        cases h

omit [IsStrictOrderedRing F] in
/-- The way to the best node is a corridor, as long as there are nodes at most. -/
theorem Searches.corridor {pool : dtNodePool F} {s₀ t : PathSearch F} {l : List ℕ}
    (h : q.Searches pool s₀ t s) (hup : WayUp s l) :
    Detour.Corridor q.Linked q.startRef (s.nodePool.m_nodes s.lastBestNode).id
        (corridorTo s (s.lastBestNode :: l)) ∧
      (corridorTo s (s.lastBestNode :: l)).length ≤ s.nodePool.m_nodeCount :=
  (h.ends.searchInv h.loopInv).corridor hup.ascends hup.last hup.lt

omit [IsStrictOrderedRing F] in
/-- With nodes enough, the best node is at the end iff the end can be reached. -/
theorem Searches.reachable_iff {pool : dtNodePool F} {s₀ t : PathSearch F} {l : List ℕ}
    (h : q.Searches pool s₀ t s) (hup : WayUp s l) (hout : s.outOfNodes = false) :
    (s.nodePool.m_nodes s.lastBestNode).id = q.endRef ↔ q.Reachable q.endRef := by
  constructor
  · intro hend
    exact reachable_of_corridor (hend ▸ (h.corridor hup).1)
  · intro hreach
    by_contra hpartial
    exact h.ends.not_reachable h.loopInv hpartial hout hreach

/-- **What `findPath` returns.** -/
theorem findPath_corridor {pool : dtNodePool F} {openList : dtNodeQueue} {maxPath fuel : ℕ}
    {r : PathResult} (hq : q.NonNeg) (hpos : 0 < pool.m_maxNodes)
    (hmax : pool.m_maxNodes ≤ DT_NULL_IDX)
    (h : q.findPath pool openList maxPath fuel = some (some r)) :
    ∃ lastRef corridor, Detour.Corridor q.Linked q.startRef lastRef corridor ∧
      corridor.length ≤ pool.m_maxNodes ∧ r.path = corridor.take maxPath ∧
      r.bufferTooSmall = decide (maxPath < corridor.length) ∧
      (r.partialResult = false ↔ lastRef = q.endRef) ∧
      (r.outOfNodes = false → (r.partialResult = false ↔ q.Reachable q.endRef)) := by
  by_cases hne : q.startRef = q.endRef
  · -- the start is the end
    obtain ⟨hmaxPath, rfl⟩ := findPath_same hne h
    have hreach : q.Reachable q.endRef := hne ▸ Relation.ReflTransGen.refl
    refine ⟨q.startRef, [q.startRef], ⟨.singleton _, rfl, rfl⟩, hpos, ?_, ?_, ?_, ?_⟩
    · exact (List.take_of_length_le hmaxPath).symm
    · simpa using hmaxPath.ne'
    · simp [hne]
    · simp [hreach]
  · obtain ⟨s, l, hs, hup, rfl⟩ := findPath_cases hq hne hpos hmax h
    obtain ⟨s₀, t, hsearch⟩ := exists_searches hq hne hpos hmax hs
    obtain ⟨hcorridor, hlen⟩ := hsearch.corridor hup
    have hcount := (hsearch.ends.searchInv hsearch.loopInv).chained.count
    rw [hsearch.ends.keeps.max, hsearch.keeps.max, hsearch.max] at hcount
    refine ⟨_, _, hcorridor, hlen.trans hcount, rfl, rfl, by simp, fun hout => ?_⟩
    simpa using hsearch.reachable_iff hup hout

theorem nonNeg_fourRooms (endRef : dtPolyRef) : (fourRooms endRef).NonNeg where
  dist a b := by
    unfold fourRooms
    dsimp only
    split_ifs with h
    · exact sub_nonneg.2 h
    · exact sub_nonneg.2 (not_le.1 h).le
  area _ := zero_le_one

/-- Past the pillar, in a buffer for two polygons. -/
theorem findPath_corridor_rooms : ∃ lastRef corridor,
    Detour.Corridor (fourRooms 4).Linked 1 lastRef corridor ∧ corridor.length ≤ 8 ∧
      [1, 3] = corridor.take 2 ∧ true = decide (2 < corridor.length) ∧
      (false = false ↔ lastRef = 4) ∧
      (false = false → (false = false ↔ (fourRooms 4).Reachable 4)) := by
  have h : (fourRooms 4).findPath (dtNodePool.oneBucket 8) ⟨fun _ => 0, 8, 0⟩ 2 9 =
      some (some ⟨[1, 3], true, false, false⟩) := by decide +kernel
  exact findPath_corridor (nonNeg_fourRooms 4) (by decide) (by decide) h

end PathQuery

end ClientServer
