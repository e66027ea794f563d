import ClientServer.Detour.SearchTermination
import Mathlib.Data.Finset.Card

/-!
# The nodes a search needs

A node of the search stands for an entry: a polygon with the side by which it is entered.  There is
one node an entry; so the search has nodes enough if the pool has room for all entries that can be
reached.

* `Keyed` : one node an entry.
* `Within` : a set of entries that the search does not leave.
* `findPath_complete` : **with nodes enough, `findPath` finds a whole corridor whenever there is
  one**, if it fits into the buffer.
-/

namespace ClientServer

namespace PathQuery

variable {F : Type*} [Field F] [LinearOrder F] {q : PathQuery F} {s s' t : PathSearch F}
  {best i : ℕ} {link : dtLink} {K : Set (dtPolyRef × UInt8)}

/-- The entry of a node. -/
def entry (n : dtNode F) : dtPolyRef × UInt8 := (n.id, n.state)

/-- One node an entry. -/
def Keyed (s : PathSearch F) : Prop :=
  Set.InjOn (fun i => entry (s.nodePool.m_nodes i)) {i | i < s.nodePool.m_nodeCount}

/-- The sides of all links: either none or one of eight. -/
def Sided (q : PathQuery F) : Prop :=
  ∀ r, ∀ link ∈ q.mesh.links r, link.side = 0xff ∨ link.side < 8

/-- Entries that contain the start, and all that they lead to. -/
structure Within (q : PathQuery F) (K : Set (dtPolyRef × UInt8)) : Prop where
  start : (q.startRef, 0) ∈ K
  step : ∀ e ∈ K, ∀ link, q.Enters e.1 link → (link.ref, link.crossSide) ∈ K

/-- The nodes have one entry each, in `K`; and if `K` is no larger than the pool, there were nodes
enough. -/
structure Fits (K : Set (dtPolyRef × UInt8)) (s : PathSearch F) : Prop where
  keyed : Keyed s
  mem : ∀ i < s.nodePool.m_nodeCount, entry (s.nodePool.m_nodes i) ∈ K
  enough : ∀ L : Finset (dtPolyRef × UInt8), ↑L = K → L.card ≤ s.nodePool.m_maxNodes →
    s.outOfNodes = false

omit [Field F] [LinearOrder F] in
theorem Sided.crossSide (h : q.Sided) {r : dtPolyRef} (hl : link ∈ q.mesh.links r) :
    link.crossSide &&& 3 = link.crossSide := by
  refine dtNodePool.and_three ?_
  unfold dtLink.crossSide
  rcases h r link hl with hside | hside
  · simp [hside]
  · split_ifs
    · rw [UInt8.lt_iff_toNat_lt] at hside ⊢
      rw [UInt8.toNat_shiftRight, Nat.shiftRight_eq_div_pow]
      exact Nat.div_lt_of_lt_mul hside
    · decide

omit [Field F] [LinearOrder F] in
/-- There are no more nodes than entries. -/
theorem Fits.count_le {L : Finset (dtPolyRef × UInt8)} (h : Fits ↑L s) :
    s.nodePool.m_nodeCount ≤ L.card := by
  have hcard := Finset.card_le_card_of_injOn (s := Finset.range s.nodePool.m_nodeCount)
    (fun i => entry (s.nodePool.m_nodes i)) (fun i hi => h.mem i (Finset.mem_range.1 hi))
    fun i hi j hj hij => h.keyed (Finset.mem_range.1 hi) (Finset.mem_range.1 hj) hij
  rwa [Finset.card_range] at hcard

omit [Field F] [LinearOrder F] in
theorem Fits.not_overflows {L : Finset (dtPolyRef × UInt8)} (h : Fits ↑L s) (hL : q.Within ↑L)
    (hroom : L.card ≤ s.nodePool.m_maxNodes) (hbest : best < s.nodePool.m_nodeCount) :
    ¬q.Overflows best link s := by
  intro ho
  have hmem : (link.ref, link.crossSide) ∈ L := hL.step _ (h.mem best hbest) link ho.enters
  -- the nodes have the other entries
  have hcard := Finset.card_le_card_of_injOn (s := Finset.range s.nodePool.m_nodeCount)
    (t := L.erase (link.ref, link.crossSide)) (fun i => entry (s.nodePool.m_nodes i))
    (fun i hi => Finset.mem_erase.2 ⟨fun heq => ho.lacks i (Finset.mem_range.1 hi)
      (congrArg Prod.fst heq) (congrArg Prod.snd heq), h.mem i (Finset.mem_range.1 hi)⟩)
    fun i hi j hj hij => h.keyed (Finset.mem_range.1 hi) (Finset.mem_range.1 hj) hij
  rw [Finset.card_range, Finset.card_erase_of_mem hmem] at hcard
  have hpos : 0 < L.card := Finset.card_pos.2 ⟨_, hmem⟩
  have hfull := ho.full
  omega

omit [Field F] [LinearOrder F] in
theorem SamePlace.entry {n n' : dtNode F} (h : SamePlace n n') :
    PathQuery.entry n = PathQuery.entry n' :=
  Prod.ext h.id h.state

omit [Field F] [LinearOrder F] in
theorem Fits.congr (h : Fits K s) (hcount : s'.nodePool.m_nodeCount = s.nodePool.m_nodeCount)
    (hplace : ∀ i < s.nodePool.m_nodeCount,
      SamePlace (s'.nodePool.m_nodes i) (s.nodePool.m_nodes i))
    (hmax : s'.nodePool.m_maxNodes = s.nodePool.m_maxNodes)
    (hout : s'.outOfNodes = s.outOfNodes) : Fits K s' := by
  constructor
  case keyed =>
    intro i hi j hj hij
    have hi' : i < s.nodePool.m_nodeCount := hcount ▸ hi
    have hj' : j < s.nodePool.m_nodeCount := hcount ▸ hj
    exact h.keyed hi' hj' ((hplace i hi').entry.symm.trans (hij.trans (hplace j hj').entry))
  case mem =>
    intro i hi
    rw [(hplace i (hcount ▸ hi)).entry]
    exact h.mem i (hcount ▸ hi)
  case enough =>
    rw [hmax, hout]
    exact h.enough

/-- An assignment makes one new entry at most, and that is new indeed. -/
theorem Fits.assigned (h : Fits K s) (hside : q.Sided) (hK : q.Within K)
    (hbest : best < s.nodePool.m_nodeCount) (ha : q.Assigned best link s s' i) : Fits K s' := by
  rcases ha.count with ⟨-, hcount⟩ | ⟨hi, hcount⟩
  · exact h.congr hcount (fun j hj => ha.samePlace hj) ha.max ha.outOfNodes
  · have hentry : entry (s'.nodePool.m_nodes s.nodePool.m_nodeCount) = (link.ref, link.crossSide) :=
      hi ▸ Prod.ext ha.entered.1 (ha.entered.2.trans (hside.crossSide ha.enters.mem))
    -- no other node has this entry
    have hnew : ∀ j < s.nodePool.m_nodeCount,
        entry (s'.nodePool.m_nodes j) ≠ (link.ref, link.crossSide) := by
      intro j hj heq
      rw [(ha.samePlace hj).entry] at heq
      exact ha.fresh hi j hj (congrArg Prod.fst heq) (congrArg Prod.snd heq)
    have hlt : ∀ j < s'.nodePool.m_nodeCount,
        j < s.nodePool.m_nodeCount ∨ j = s.nodePool.m_nodeCount := by omega
    constructor
    case keyed =>
      intro j hj k hk hjk
      dsimp only at hjk
      rcases hlt j hj with hj' | rfl <;> rcases hlt k hk with hk' | rfl
      · rw [(ha.samePlace hj').entry, (ha.samePlace hk').entry] at hjk
        exact h.keyed hj' hk' hjk
      · exact absurd (hjk.trans hentry) (hnew j hj')
      · exact absurd (hjk.symm.trans hentry) (hnew k hk')
      · rfl
    case mem =>
      intro j hj
      rcases hlt j hj with hj' | rfl
      · rw [(ha.samePlace hj').entry]
        exact h.mem j hj'
      · rw [hentry]
        exact hK.step _ (h.mem best hbest) link ha.enters
    case enough =>
      rw [ha.max, ha.outOfNodes]
      exact h.enough

/-! ### Over a search -/

section Search

variable [IsStrictOrderedRing F]

theorem Expansions.fits (he : q.Expansions best s s') (h : q.SearchInv s) (hq : q.NonNeg)
    (hside : q.Sided) (hK : q.Within K) (hbest : best < s.nodePool.m_nodeCount) (hf : Fits K s) :
    Fits K s' := by
  induction he with
  | refl => exact hf
  | @out t link he ho ih =>
    obtain ⟨-, hgrows, -⟩ := he.searchInv h hq hbest
    refine ⟨ih.keyed, ih.mem, fun L hL hroom => ?_⟩
    subst hL
    exact absurd ho (ih.not_overflows hK hroom (hbest.trans_le hgrows.count))
  | assign he ha ih =>
    obtain ⟨-, hgrows, -⟩ := he.searchInv h hq hbest
    exact ih.assigned hside hK (hbest.trans_le hgrows.count) ha

/-- **Every search keeps to the entries it can reach.** -/
theorem Reaches.fits (hr : q.Reaches s s') (hq : q.NonNeg) (hside : q.Sided) (hK : q.Within K)
    (hf : Fits K s) : Fits K s' := by
  induction hr with
  | refl => exact hf
  | @tail t s' hr hp ih =>
    obtain ⟨best, hp⟩ := hp
    obtain ⟨u, hc, he⟩ := hp.middle
    have hu : Fits K u := ih.congr hc.count (fun i hi => hc.keeps.place i hi) hc.max hc.out
    exact he.fits hc.inv hq hside hK (hc.count ▸ hc.lt) hu

omit [IsStrictOrderedRing F] in
theorem Ends.fits (h : q.Ends t s') (hf : Fits K t) : Fits K s' := by
  cases h with
  | exhausted => exact hf
  | goal hc =>
    have hu := hf.congr hc.count (fun i hi => hc.keeps.place i hi) hc.max hc.out
    exact ⟨hu.keyed, hu.mem, hu.enough⟩

/-- **A search keeps to the entries it can reach**, with one node each. -/
theorem Searches.fits {pool : dtNodePool F} {s₀ : PathSearch F} (h : q.Searches pool s₀ t s)
    (hq : q.NonNeg) (hside : q.Sided) (hK : q.Within K) : Fits K s := by
  refine h.ends.fits (h.reaches.fits hq hside hK ⟨?_, ?_, fun _ _ _ => h.out⟩)
  · intro i hi j hj _
    rw [Set.mem_ofPred_eq, h.one, Nat.lt_one_iff] at hi hj
    rw [hi, hj]
  · intro i hi
    rw [h.one, Nat.lt_one_iff] at hi
    have hroot := h.begins.inv.root
    rw [hi, entry, hroot.1, hroot.2.2.2.2]
    exact hK.start

/-- What is a whole path: neither the nodes nor the buffer were too few, and it leads to the end if
that can be reached. -/
structure Whole (q : PathQuery F) (r : PathResult) : Prop where
  outOfNodes : r.outOfNodes = false
  bufferTooSmall : r.bufferTooSmall = false
  partialResult_iff : r.partialResult = false ↔ q.Reachable q.endRef
  corridor : ∃ lastRef, Detour.Corridor q.Linked q.startRef lastRef r.path ∧
    (q.Reachable q.endRef → lastRef = q.endRef)

/-- With nodes enough, and a buffer for them, what `findPath` returns is whole. -/
theorem whole_of_findPath {pool : dtNodePool F} {openList : dtNodeQueue} {maxPath fuel : ℕ}
    {r : PathResult} {L : Finset (dtPolyRef × UInt8)} (hq : q.NonNeg) (hside : q.Sided)
    (hL : q.Within ↑L) (hroom : L.card ≤ pool.m_maxNodes) (hmax : pool.m_maxNodes ≤ DT_NULL_IDX)
    (hbuffer : L.card ≤ maxPath)
    (h : q.findPath pool openList maxPath fuel = some (some r)) : q.Whole r := by
  have hpos : 0 < pool.m_maxNodes := (Finset.card_pos.2 ⟨_, hL.start⟩).trans_le hroom
  by_cases hne : q.startRef = q.endRef
  · -- the start is the end
    obtain ⟨-, rfl⟩ := findPath_same hne h
    have hreach : q.Reachable q.endRef := hne ▸ Relation.ReflTransGen.refl
    exact ⟨rfl, rfl, iff_of_true rfl hreach, q.startRef, ⟨.singleton _, rfl, rfl⟩, fun _ => hne⟩
  · obtain ⟨s, l, hs, hup, rfl⟩ := findPath_cases hq hne hpos hmax h
    obtain ⟨s₀, t, hsearch⟩ := exists_searches hq hne hpos hmax hs
    obtain ⟨hcorridor, hlen⟩ := hsearch.corridor hup
    have hf := hsearch.fits hq hside hL
    have hout : s.outOfNodes = false := hf.enough L rfl <| by
      rwa [hsearch.ends.keeps.max, hsearch.keeps.max, hsearch.max]
    have hbuf : (corridorTo s (s.lastBestNode :: l)).length ≤ maxPath :=
      (hlen.trans hf.count_le).trans hbuffer
    have hreach := hsearch.reachable_iff hup hout
    refine ⟨hout, decide_eq_false (not_lt.2 hbuf), by simpa using hreach, _, ?_, hreach.2⟩
    rwa [List.take_of_length_le hbuf]

/-- **With nodes enough, `findPath` is complete**: a valid call returns, after finitely many passes, a
whole path, and this leads to the end if that can be reached. -/
theorem findPath_complete {pool : dtNodePool F} (openList : dtNodeQueue) {maxPath : ℕ}
    {L : Finset (dtPolyRef × UInt8)} (hstart : q.mesh.isValidPolyRef q.startRef = true)
    (hend : q.mesh.isValidPolyRef q.endRef = true) (hq : q.NonNeg) (hside : q.Sided)
    (hL : q.Within ↑L) (hroom : L.card ≤ pool.m_maxNodes) (hmax : pool.m_maxNodes ≤ DT_NULL_IDX)
    (hbuffer : L.card ≤ maxPath) :
    ∃ n, ∀ fuel ≥ n, ∃ r, q.findPath pool openList maxPath fuel = some (some r) ∧ q.Whole r := by
  have hcard : 0 < L.card := Finset.card_pos.2 ⟨_, hL.start⟩
  have hvalid : ¬(q.mesh.isValidPolyRef q.startRef = false ∨
      q.mesh.isValidPolyRef q.endRef = false ∨ maxPath = 0) := by
    rw [hstart, hend]
    simp only [Bool.true_eq_false, false_or]
    omega
  obtain ⟨n, hn⟩ := exists_result openList hvalid hq (hcard.trans_le hroom) hmax
  refine ⟨n, fun fuel hfuel => ?_⟩
  obtain ⟨r, hr⟩ := hn fuel hfuel
  exact ⟨r, hr, whole_of_findPath hq hside hL hroom hmax hbuffer hr⟩

theorem sided_fourRooms (endRef : dtPolyRef) : (fourRooms endRef).Sided := by
  intro r link hl
  simp only [fourRooms] at hl
  split_ifs at hl <;> simp at hl <;> rcases hl with rfl | rfl <;> exact .inl rfl

/-- The rooms on this side of the pillar and past it. -/
theorem findPath_complete_rooms : ∃ n, ∀ fuel ≥ n, ∃ r,
    (fourRooms 4).findPath (dtNodePool.oneBucket 8) ⟨fun _ => 0, 8, 0⟩ 4 fuel = some (some r) ∧
      (fourRooms 4).Whole r := by
  have hL : (fourRooms 4).Within
      ({(1, 0), (2, 0), (3, 0), (4, 0)} : Finset (dtPolyRef × UInt8)) := by
    refine ⟨by simp [fourRooms], fun e he link hl => ?_⟩
    have hlink := hl.mem
    simp only [Finset.coe_insert, Finset.coe_singleton, Set.mem_insert_iff,
      Set.mem_singleton_iff] at he
    rcases he with rfl | rfl | rfl | rfl <;> simp [fourRooms] at hlink <;>
      rcases hlink with rfl | rfl <;> simp [dtLink.crossSide]
  exact findPath_complete _ (by decide) (by decide) (nonNeg_fourRooms 4) (sided_fourRooms 4) hL
    (by decide) (by decide) (by decide)

end Search

end PathQuery

end ClientServer
