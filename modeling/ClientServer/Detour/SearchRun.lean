import ClientServer.Detour.Search

/-!
# Runs of the path search

Every pass of the loop closes the open node with the least total, unless that is the goal.  A node
is closed once all its links were looked at; so when no open node is left, everything that can be
reached was seen.

* `SearchInv.closes`, `SearchInv.turn_spec` : what a pass does.
* `LoopInv.passes` : **every pass keeps the invariant of the loop**.
* `LoopInv.searchLoop`, `Ends` : where the loop ends.
* `Ends.not_reachable` : what holds when the loop ends without the goal.
-/

namespace ClientServer

namespace PathQuery

variable {F : Type*} [Field F] [LinearOrder F] {q : PathQuery F} {s s' : PathSearch F}
  {best i : ℕ}

/-! ### Closing a node -/

/-- The node `best` was closed. -/
structure Closes (q : PathQuery F) (s s' : PathSearch F) (best : ℕ) : Prop where
  lt : best < s.nodePool.m_nodeCount
  isOpen : (s.nodePool.m_nodes best).flags = DT_NODE_OPEN
  least : ∀ j < s.nodePool.m_nodeCount, (s.nodePool.m_nodes j).flags = DT_NODE_OPEN →
    (s.nodePool.m_nodes best).total ≤ (s.nodePool.m_nodes j).total
  inv : q.SearchInv s'
  count : s'.nodePool.m_nodeCount = s.nodePool.m_nodeCount
  max : s'.nodePool.m_maxNodes = s.nodePool.m_maxNodes
  node : s'.nodePool.m_nodes best = { s.nodePool.m_nodes best with flags := DT_NODE_CLOSED }
  others : ∀ j, j ≠ best → s'.nodePool.m_nodes j = s.nodePool.m_nodes j
  size : s'.openList.m_size + 1 = s.openList.m_size
  out : s'.outOfNodes = s.outOfNodes

omit [Field F] [LinearOrder F] in
theorem closed_same {α : Type*} (f : dtNode F → α)
    (hf : ∀ n : dtNode F, f { n with flags := DT_NODE_CLOSED } = f n) {m m' : ℕ → dtNode F}
    (hnode : m' best = { m best with flags := DT_NODE_CLOSED })
    (hother : ∀ j, j ≠ best → m' j = m j) (j : ℕ) : f (m' j) = f (m j) := by
  by_cases hj : j = best
  · rw [hj, hnode, hf]
  · rw [hother j hj]

theorem Closes.keeps (h : q.Closes s s' best) : Keeps s s' where
  count := h.count.ge
  max := h.max
  place j _ := ⟨closed_same dtNode.pos (fun _ => rfl) h.node h.others j,
    closed_same dtNode.id (fun _ => rfl) h.node h.others j,
    closed_same dtNode.state (fun _ => rfl) h.node h.others j⟩
  cost j _ := (closed_same dtNode.cost (fun _ => rfl) h.node h.others j).le
  out hs := h.out.trans hs

/-- **Closing a node keeps the invariant.** -/
theorem SearchInv.closes (h : q.SearchInv s) (hpos : 0 < s.openList.m_size) :
    q.Closes s (close s).2 (close s).1 := by
  obtain ⟨hheap, hcons, hleast⟩ := h.heaped.pop hpos
  have hmem : (close s).1 ∈ s.openList.nodes := by
    rw [← hcons]
    exact Multiset.mem_cons_self _ _
  obtain ⟨hlt, hopen⟩ := (h.mem_iff _).1 hmem
  have hflags : (DT_NODE_OPEN &&& ~~~DT_NODE_OPEN) ||| DT_NODE_CLOSED = DT_NODE_CLOSED := by decide
  have hpool : (close s).2.nodePool = s.nodePool.setNode (close s).1
      { s.nodePool.m_nodes (close s).1 with
        flags := ((s.nodePool.m_nodes (close s).1).flags &&& ~~~DT_NODE_OPEN) ||| DT_NODE_CLOSED } :=
    rfl
  have hnode : (close s).2.nodePool.m_nodes (close s).1 =
      { s.nodePool.m_nodes (close s).1 with flags := DT_NODE_CLOSED } := by
    rw [hpool, dtNodePool.m_nodes_setNode_self, hopen, hflags]
  have hother : ∀ j, j ≠ (close s).1 →
      (close s).2.nodePool.m_nodes j = s.nodePool.m_nodes j := fun j hj =>
    dtNodePool.m_nodes_setNode_of_ne hj
  have hlist : (close s).2.openList = (s.openList.pop s.nodePool.totals).2 := rfl
  generalize hs' : (close s).2 = s' at hnode hother hlist ⊢
  generalize hb : (close s).1 = best at hnode hother hmem hlt hopen ⊢
  have hcount : s'.nodePool.m_nodeCount = s.nodePool.m_nodeCount := hs' ▸ rfl
  have hid := closed_same dtNode.id (fun _ => rfl) hnode hother
  have htotal := closed_same dtNode.total (fun _ => rfl) hnode hother
  have hpidx := closed_same dtNode.pidx (fun _ => rfl) hnode hother
  have hcost := closed_same dtNode.cost (fun _ => rfl) hnode hother
  have hplace : ∀ j, SamePlace (s'.nodePool.m_nodes j) (s.nodePool.m_nodes j) := fun j =>
    ⟨closed_same dtNode.pos (fun _ => rfl) hnode hother j, hid j,
      closed_same dtNode.state (fun _ => rfl) hnode hother j⟩
  have hparent : Parent s' = Parent s := by
    funext i j
    rw [Parent, hpidx, Parent]
  have hnodes : s'.openList.nodes = s.openList.nodes.erase best := by
    rw [hlist, ← hcons, ← hb]
    exact (Multiset.erase_cons_head _ _).symm
  refine ⟨hlt, hopen, fun j hj hjo => ?_, ?_, hcount, hs' ▸ rfl, hnode, hother, ?_, hs' ▸ rfl⟩
  · rw [← hb]
    exact hleast j ((h.mem_iff j).2 ⟨hj, hjo⟩)
  · constructor
    case chained =>
      rw [← hs']
      exact h.chained.setNode rfl
    case pos => rw [hcount]; exact h.pos
    case flags =>
      intro j hj
      by_cases hjb : j = best
      · rw [hjb, hnode]
        exact .inr rfl
      · rw [hother j hjb]
        exact h.flags j (hcount ▸ hj)
    case state =>
      intro j hj
      rw [(hplace j).state]
      exact h.state j (hcount ▸ hj)
    case heaped =>
      have htotals : s'.nodePool.totals = s.nodePool.totals := funext htotal
      rw [hlist, htotals]
      exact hheap
    case nodup =>
      rw [hnodes]
      exact h.nodup.erase _
    case mem_iff =>
      intro j
      rw [hnodes, h.nodup.mem_erase_iff, h.mem_iff, hcount]
      by_cases hjb : j = best
      · simp [hjb, hnode, closed_ne_open]
      · simp [hjb, hother j hjb]
    case root => rw [hid, hpidx, hcost, (hplace 0).pos, (hplace 0).state]; exact h.root
    case total =>
      intro j hj
      rw [htotal, hcost, (hplace j).pos, hid]
      exact h.total j (hcount ▸ hj)
    case parent =>
      intro j hj h0
      obtain ⟨k, hk, hp, ⟨link, hl, hel⟩, hle⟩ := h.parent j (hcount ▸ hj) h0
      refine ⟨k, hcount ▸ hk, hparent ▸ hp, ⟨link, by rwa [hid], (hplace j).enteredBy hel⟩, ?_⟩
      rwa [hcost, hcost, (hplace k).edgeCost (hplace j)]
    case rooted =>
      intro j hj
      rw [Above, hparent]
      exact h.rooted j (hcount ▸ hj)
    case best =>
      rw [hcount, ← hs']
      exact h.best
  · rw [hlist, dtNodeQueue.m_size_pop]
    omega

/-! ### One pass -/

/-- What is closed is not the goal, and all its links are settled. -/
def Explored (q : PathQuery F) (s : PathSearch F) : Prop :=
  ∀ i < s.nodePool.m_nodeCount, (s.nodePool.m_nodes i).flags = DT_NODE_CLOSED →
    (s.nodePool.m_nodes i).id ≠ q.endRef ∧
      ∀ link, q.Enters (s.nodePool.m_nodes i).id link → q.Settled s i link

/-- The invariant of the loop. -/
structure LoopInv (q : PathQuery F) (s : PathSearch F) : Prop where
  inv : q.SearchInv s
  explored : q.Explored s

/-- A pass that does not end the loop: a node that is not the goal is closed, and all its links get
settled. -/
structure Passes (q : PathQuery F) (s s' : PathSearch F) (best : ℕ) : Prop where
  middle : ∃ t, q.Closes s t best ∧ q.Expansions best t s'
  notEnd : (s.nodePool.m_nodes best).id ≠ q.endRef
  settled : ∀ link, q.Enters (s.nodePool.m_nodes best).id link → q.Settled s' best link

section Turn

variable [IsStrictOrderedRing F]

/-- **One pass of the loop.** -/
theorem SearchInv.turn_spec (h : q.SearchInv s) (hq : q.NonNeg) :
    s.openList.m_size = 0 ∧ q.turn s = (false, s) ∨
      ∃ best, best = (s.openList.pop s.nodePool.totals).1 ∧
        ((∃ t, q.Closes s t best ∧ (s.nodePool.m_nodes best).id = q.endRef ∧
            q.turn s = (false, { t with lastBestNode := best })) ∨
          ∃ s', q.turn s = (true, s') ∧ q.Passes s s' best) := by
  by_cases hempty : s.openList.empty = true
  · refine .inl ⟨dtNodeQueue.empty_iff.1 hempty, ?_⟩
    rw [turn, if_pos hempty]
  have hpos : 0 < s.openList.m_size :=
    Nat.pos_of_ne_zero fun h0 => hempty (dtNodeQueue.empty_iff.2 h0)
  have hc := h.closes hpos
  refine .inr ⟨(close s).1, rfl, ?_⟩
  have hid := closed_same dtNode.id (fun _ => rfl) hc.node hc.others (close s).1
  rw [turn, if_neg hempty]
  dsimp only
  rw [hid]
  by_cases hend : (s.nodePool.m_nodes (close s).1).id = q.endRef
  · rw [if_pos hend]
    exact .inl ⟨_, hc, hend, rfl⟩
  · rw [if_neg hend]
    refine .inr ⟨_, rfl, ?_⟩
    have hlt : (close s).1 < (close s).2.nodePool.m_nodeCount := hc.count ▸ hc.lt
    have hlinks : ∀ link ∈ q.mesh.links (s.nodePool.m_nodes (close s).1).id,
        link ∈ q.mesh.links ((close s).2.nodePool.m_nodes (close s).1).id := by
      rw [hid]
      exact fun _ hl => hl
    obtain ⟨hexp, hsettled⟩ :=
      hc.inv.foldl_expand hq hlt (parentRef (close s).2.nodePool (close s).1) hlinks
    obtain ⟨-, hgrows, hsame⟩ := hexp.searchInv hc.inv hq hlt
    refine ⟨⟨_, hc, hexp⟩, hend, fun link hl => ?_⟩
    refine (hsettled link hl.mem (hid.symm ▸ hl)).elim (fun hpr => ?_) id
    -- a link back to the parent, by which the node has its cost
    rw [parentRef] at hpr
    split_ifs at hpr with hp0
    · exact absurd hpr hl.ne
    · have hne : (close s).1 ≠ 0 := by
        intro h0
        rw [h0] at hp0
        exact hp0 (h0 ▸ hc.inv.root.2.2.1)
      obtain ⟨j, hj, hp, -, hle⟩ := hc.inv.parent _ hlt hne
      rw [show ((close s).2.nodePool.m_nodes (close s).1).pidx - 1 = j by
        unfold Parent at hp
        omega] at hpr
      exact hgrows.settled hsame (.inr (.inr ⟨j, hj, hpr.symm, hle⟩))

theorem Passes.keeps (hp : q.Passes s s' best) (hq : q.NonNeg) : Keeps s s' := by
  obtain ⟨t, hc, hexp⟩ := hp.middle
  obtain ⟨-, hgrows, -⟩ := hexp.searchInv hc.inv hq (hc.count ▸ hc.lt)
  exact hc.keeps.trans hgrows.toKeeps

/-- **A pass keeps the invariant of the loop.** -/
theorem LoopInv.passes (h : q.LoopInv s) (hq : q.NonNeg) (hp : q.Passes s s' best) :
    q.LoopInv s' := by
  have hkeeps := hp.keeps hq
  obtain ⟨t, hc, hexp⟩ := hp.middle
  obtain ⟨hinv, hgrows, -⟩ := hexp.searchInv hc.inv hq (hc.count ▸ hc.lt)
  refine ⟨hinv, fun i hi hcl => ?_⟩
  by_cases hib : i = best
  · subst hib
    rw [(hkeeps.place i hc.lt).id]
    exact ⟨hp.notEnd, hp.settled⟩
  · obtain ⟨hit, hsame⟩ := hgrows.closed i hi hcl
    have hsame' := hsame.trans (hc.others i hib)
    rw [hsame'] at hcl ⊢
    obtain ⟨hne, hsettled⟩ := h.explored i (hc.count ▸ hit) hcl
    exact ⟨hne, fun link hl => hkeeps.settled hsame' (hsettled link hl)⟩

end Turn

/-! ### The first node -/

/-- **The search begins with the invariant**, whatever the last one left behind. -/
theorem loopInv_init {pool : dtNodePool F} (hne : q.startRef ≠ q.endRef)
    (hpos : 0 < pool.m_maxNodes) (hmax : pool.m_maxNodes ≤ DT_NULL_IDX) (openList : dtNodeQueue) :
    ∃ s, q.init pool openList = some s ∧ q.LoopInv s ∧ s.nodePool.m_nodeCount = 1 ∧
      s.nodePool.m_maxNodes = pool.m_maxNodes ∧ s.outOfNodes = false := by
  have hchained : pool.clear.Chained := dtNodePool.chained_clear hmax
  have hcount : pool.clear.m_nodeCount = 0 := rfl
  rcases hchained.getNode_cases q.startRef 0 with
    ⟨i, hi, -⟩ | ⟨-, -, ⟨hfull, -⟩ | ⟨hroom, heq⟩⟩
  · exact absurd hi (Nat.not_lt_zero i)
  · exact absurd hfull hpos.ne
  have hnew : (pool.clear.newNode q.startRef 0).2.Chained := hchained.newNode hroom
  have hself : (pool.clear.newNode q.startRef 0).2.m_nodes 0 =
      dtNodePool.initNode (pool.clear.m_nodes 0) q.startRef 0 := by
    rw [hchained.m_nodes_newNode hroom, hcount, Function.update_self]
  unfold init
  rw [heq, hcount]
  dsimp only
  rw [hself]
  refine ⟨_, rfl, ⟨?_, fun i hi hcl => ?_⟩, rfl, rfl, rfl⟩
  · -- there is one node, and it is open
    have hpush : ∀ total : ℕ → F, (openList.clear.push total 0).Heaped total ∧
        (openList.clear.push total 0).nodes = {0} := fun total =>
      (dtNodeQueue.heaped_clear (q := openList)).push 0
    constructor
    case chained => exact hnew.setNode (by rw [hself]; rfl)
    case pos => exact Nat.one_pos
    case heaped => exact (hpush _).1
    case nodup =>
      rw [(hpush _).2]
      exact Multiset.nodup_singleton 0
    case best => exact Nat.one_pos
    case root => simp [dtNodePool.initNode]
    case flags =>
      intro i hi
      obtain rfl := Nat.lt_one_iff.1 hi
      simp
    case state =>
      intro i hi
      obtain rfl := Nat.lt_one_iff.1 hi
      simp [dtNodePool.initNode]
    case mem_iff =>
      intro i
      rw [(hpush _).2]
      constructor
      · intro hmem
        obtain rfl : i = 0 := by simpa using hmem
        exact ⟨Nat.one_pos, by simp⟩
      · rintro ⟨hi, -⟩
        obtain rfl := Nat.lt_one_iff.1 hi
        exact Multiset.mem_cons_self _ _
    case total =>
      intro i hi
      obtain rfl := Nat.lt_one_iff.1 hi
      simp [heuristicAt, hne]
    case parent =>
      intro i hi h0
      exact absurd (Nat.lt_one_iff.1 hi) h0
    case rooted =>
      intro i hi
      obtain rfl := Nat.lt_one_iff.1 hi
      exact .refl
  · obtain rfl := Nat.lt_one_iff.1 hi
    simp only [dtNodePool.m_nodes_setNode_self] at hcl
    exact absurd hcl.symm closed_ne_open

/-! ### The end of the loop -/

/-- The polygon can be reached from the start. -/
def Reachable (q : PathQuery F) (r : dtPolyRef) : Prop :=
  Relation.ReflTransGen q.Linked q.startRef r

/-- From `s` to `s'` by passes. -/
def Reaches (q : PathQuery F) : PathSearch F → PathSearch F → Prop :=
  Relation.ReflTransGen fun s s' => ∃ best, q.Passes s s' best

/-- The loop ends in `t`: there is no open node left, or the goal is closed. -/
inductive Ends (q : PathQuery F) (t : PathSearch F) : PathSearch F → Prop
  | exhausted : t.openList.m_size = 0 → Ends q t t
  | goal {u : PathSearch F} {best : ℕ} : q.Closes t u best →
      (t.nodePool.m_nodes best).id = q.endRef → Ends q t { u with lastBestNode := best }

theorem SearchInv.closed_of_empty (h : q.SearchInv s) (hempty : s.openList.m_size = 0)
    (hi : i < s.nodePool.m_nodeCount) : (s.nodePool.m_nodes i).flags = DT_NODE_CLOSED := by
  refine (h.flags i hi).resolve_left fun hop => ?_
  have hcard := Multiset.card_pos_iff_exists_mem.2 ⟨i, (h.mem_iff i).2 ⟨hi, hop⟩⟩
  rw [dtNodeQueue.card_nodes] at hcard
  omega

theorem LoopInv.seen_of_reachable (h : q.LoopInv s) (hempty : s.openList.m_size = 0)
    (hout : s.outOfNodes = false) {r : dtPolyRef} (hr : q.Reachable r) :
    ∃ j < s.nodePool.m_nodeCount, (s.nodePool.m_nodes j).id = r ∧
      (s.nodePool.m_nodes j).flags = DT_NODE_CLOSED := by
  have hclosed : ∀ j < s.nodePool.m_nodeCount,
      (s.nodePool.m_nodes j).flags = DT_NODE_CLOSED := fun j hj => h.inv.closed_of_empty hempty hj
  have hseen : ∃ j < s.nodePool.m_nodeCount, (s.nodePool.m_nodes j).id = r := by
    induction hr with
    | refl => exact ⟨0, h.inv.pos, h.inv.root.1⟩
    | tail _ hl ih =>
      obtain ⟨j, hj, rfl⟩ := ih
      obtain ⟨link, hl, rfl⟩ := hl
      exact ((h.explored j hj (hclosed j hj)).2 link hl).seen hout
  obtain ⟨j, hj, hid⟩ := hseen
  exact ⟨j, hj, hid, hclosed j hj⟩

section Loop

variable [IsStrictOrderedRing F]

theorem LoopInv.reaches (h : q.LoopInv s) (hq : q.NonNeg) (hr : q.Reaches s s') :
    q.LoopInv s' ∧ Keeps s s' := by
  induction hr with
  | refl => exact ⟨h, (Grows.refl s).toKeeps⟩
  | tail _ hp ih =>
    obtain ⟨best, hp⟩ := hp
    exact ⟨ih.1.passes hq hp, ih.2.trans (hp.keeps hq)⟩

/-- **Where the loop ends.** -/
theorem LoopInv.searchLoop (h : q.LoopInv s) (hq : q.NonNeg) {fuel : ℕ}
    (hs : q.searchLoop fuel s = some s') : ∃ t, q.Reaches s t ∧ q.Ends t s' := by
  induction fuel generalizing s with
  | zero => cases hs
  | succ fuel ih =>
    rw [PathQuery.searchLoop] at hs
    rcases h.inv.turn_spec hq with ⟨hempty, heq⟩ | ⟨best, -, ⟨t, hc, hend, heq⟩ | ⟨t, heq, hp⟩⟩ <;>
      simp only [heq] at hs
    · obtain rfl := Option.some.inj hs
      exact ⟨s, .refl, .exhausted hempty⟩
    · obtain rfl := Option.some.inj hs
      exact ⟨s, .refl, .goal hc hend⟩
    · obtain ⟨t', hreaches, hends⟩ := ih (h.passes hq hp) hs
      exact ⟨t', .head ⟨best, hp⟩ hreaches, hends⟩

omit [IsStrictOrderedRing F] in
theorem Ends.keeps {t : PathSearch F} (h : q.Ends t s') : Keeps t s' := by
  cases h with
  | exhausted => exact (Grows.refl _).toKeeps
  | goal hc => exact ⟨hc.keeps.count, hc.keeps.max, hc.keeps.place, hc.keeps.cost, hc.keeps.out⟩

omit [IsStrictOrderedRing F] in
theorem Ends.searchInv {t : PathSearch F} (h : q.Ends t s') (ht : q.LoopInv t) :
    q.SearchInv s' := by
  cases h with
  | exhausted => exact ht.inv
  | goal hc =>
    have hu := hc.inv
    exact ⟨hu.chained, hu.pos, hu.flags, hu.state, hu.heaped, hu.nodup, hu.mem_iff, hu.root,
      hu.total, hu.parent, hu.rooted, hc.count ▸ hc.lt⟩

omit [IsStrictOrderedRing F] in
/-- **A loop that does not end with the goal has seen all that can be reached.** -/
theorem Ends.not_reachable {t : PathSearch F} (h : q.Ends t s') (ht : q.LoopInv t)
    (hne : (s'.nodePool.m_nodes s'.lastBestNode).id ≠ q.endRef) (hout : s'.outOfNodes = false) :
    ¬q.Reachable q.endRef := by
  cases h with
  | exhausted hempty =>
    intro hreach
    obtain ⟨j, hj, hid, hcl⟩ := ht.seen_of_reachable hempty hout hreach
    exact (ht.explored j hj hcl).1 hid
  | goal hc hend => exact absurd ((hc.keeps.place _ hc.lt).id.trans hend) hne

omit [IsStrictOrderedRing F] in
/-- A loop after which the best node is the goal ended with it. -/
theorem Ends.exists_closes {t : PathSearch F} (h : q.Ends t s') (ht : q.LoopInv t)
    (hend : (s'.nodePool.m_nodes s'.lastBestNode).id = q.endRef) :
    ∃ u best, q.Closes t u best ∧ (t.nodePool.m_nodes best).id = q.endRef ∧
      s' = { u with lastBestNode := best } := by
  cases h with
  | exhausted hempty =>
    have hclosed := ht.inv.closed_of_empty hempty ht.inv.best
    exact absurd hend (ht.explored _ ht.inv.best hclosed).1
  | goal hc hgoal => exact ⟨_, _, hc, hgoal, rfl⟩

end Loop

end PathQuery

end ClientServer
