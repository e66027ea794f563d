import ClientServer.Data.Heap
import ClientServer.LTS.Run

/-!
# The open list of the path search

`dtNodeQueue` holds the nodes that the path search of Detour has still to visit, as a binary heap
of pointers.  The key of a node, its `total`, lies in the node itself and changes while the node is
in the heap: `modify` is called after it got smaller.  A pointer is the index of the node here.

* `bubbleUp_spec`, `trickleDown_spec` : what the two loops do to a heap with one element out of
  order.
* `queueSystem`, `prioritySystem` : the calls of the queue, and what they should do: `pop` returns
  any of the nodes with the least `total`.
* `dtNodeQueue.Called` : how the queue has to be called.
* `queue_refines` : **the queue is a priority queue**, also when keys get smaller, and it stays within
  its array.
-/

namespace ClientServer

open Heap

/-- `dtNodeQueue`. -/
structure dtNodeQueue where
  m_heap : ℕ → ℕ
  m_capacity : ℕ
  m_size : ℕ

namespace dtNodeQueue

variable {K : Type*} [LinearOrder K] (total : ℕ → K)

/-- The loop of `bubbleUp`. -/
def bubbleUpLoop (node : ℕ) : ℕ → (ℕ → ℕ) → ℕ → ℕ → ℕ
  | 0, heap, i => Function.update heap i node
  | fuel + 1, heap, i =>
    let parent := (i - 1) / 2
    if 0 < i ∧ total (heap parent) > total node then
      bubbleUpLoop node fuel (Function.update heap i (heap parent)) parent
    else Function.update heap i node

/-- `bubbleUp(i, node)`: the index gets smaller in every turn, so there are `i` turns at most. -/
def bubbleUp (q : dtNodeQueue) (i node : ℕ) : dtNodeQueue :=
  { q with m_heap := bubbleUpLoop total node i q.m_heap i }

/-- The loop of `trickleDown`: the heap, and the index of the free place. -/
def trickleDownLoop (m_size : ℕ) : ℕ → (ℕ → ℕ) → ℕ → (ℕ → ℕ) × ℕ
  | 0, heap, i => (heap, i)
  | fuel + 1, heap, i =>
    let child := i * 2 + 1
    if child < m_size then
      let child :=
        if child + 1 < m_size ∧ total (heap child) > total (heap (child + 1)) then child + 1
        else child
      trickleDownLoop m_size fuel (Function.update heap i (heap child)) child
    else (heap, i)

/-- `trickleDown(i, node)`: the index gets greater, up to `m_size`. -/
def trickleDown (q : dtNodeQueue) (i node : ℕ) : dtNodeQueue :=
  let (heap, i) := trickleDownLoop total q.m_size q.m_size q.m_heap i
  bubbleUp total { q with m_heap := heap } i node

/-- `clear`. -/
def clear (q : dtNodeQueue) : dtNodeQueue := { q with m_size := 0 }

/-- `empty`. -/
def empty (q : dtNodeQueue) : Bool := q.m_size = 0

/-- `pop`, of a queue that is not empty. -/
def pop (q : dtNodeQueue) : ℕ × dtNodeQueue :=
  let result := q.m_heap 0
  let q := { q with m_size := q.m_size - 1 }
  (result, trickleDown total q 0 (q.m_heap q.m_size))

/-- `push`. -/
def push (q : dtNodeQueue) (node : ℕ) : dtNodeQueue :=
  let q := { q with m_size := q.m_size + 1 }
  bubbleUp total q (q.m_size - 1) node

/-- `modify`: the first place with this node. -/
def modify (q : dtNodeQueue) (node : ℕ) : dtNodeQueue :=
  match (List.range q.m_size).find? fun i => q.m_heap i = node with
  | some i => bubbleUp total q i node
  | none => q

/-- The nodes in the queue. -/
def nodes (q : dtNodeQueue) : Multiset ℕ := content q.m_heap q.m_size

variable {total} {q : dtNodeQueue} {node i n : ℕ} {heap : ℕ → ℕ}

/-! ### The loops -/

theorem bubbleUpLoop_spec (fuel : ℕ) (hfuel : i ≤ fuel) (hi : i < n)
    (h : Rising total (Function.update heap i node) n i) :
    Ordered total (bubbleUpLoop total node fuel heap i) n ∧
      content (bubbleUpLoop total node fuel heap i) n =
        content (Function.update heap i node) n := by
  induction fuel generalizing heap i with
  | zero =>
    obtain rfl : i = 0 := by omega
    exact ⟨h.ordered fun h0 => absurd h0 (lt_irrefl 0), rfl⟩
  | succ fuel ih =>
    have hpar : (i - 1) / 2 = parent i := rfl
    rw [bubbleUpLoop, hpar]
    split_ifs with hup
    · obtain ⟨h0, hgt⟩ := hup
      have hlt := parent_lt h0
      -- the element that is kept aside is swapped with the one above it
      have hswap := update_update (a := heap) node hlt.ne
      have hrising := h.up h0 hi (by
        rw [Function.update_self, Function.update_of_ne hlt.ne]
        exact hgt)
      rw [← hswap] at hrising
      obtain ⟨hord, hcont⟩ := ih (by omega) (hlt.trans hi) hrising
      exact ⟨hord, by rw [hcont, hswap, content_swap hi (hlt.trans hi)]⟩
    · refine ⟨h.ordered fun h0 => ?_, rfl⟩
      rw [Function.update_self, Function.update_of_ne (parent_lt h0).ne]
      exact not_lt.1 fun hgt => hup ⟨h0, hgt⟩

/-- An element that may have to go up is put where it belongs. -/
theorem bubbleUp_spec (hi : i < q.m_size)
    (h : Rising total (Function.update q.m_heap i node) q.m_size i) :
    Ordered total (q.bubbleUp total i node).m_heap q.m_size ∧
      (q.bubbleUp total i node).nodes = content (Function.update q.m_heap i node) q.m_size :=
  bubbleUpLoop_spec i le_rfl hi h

theorem least_child {c d : ℕ} (hc : c = i * 2 + 1) (hd : 0 < d) (hn : d < n)
    (hp : parent d = i) :
    total (heap (if c + 1 < n ∧ total (heap c) > total (heap (c + 1)) then c + 1 else c)) ≤
      total (heap d) := by
  rcases eq_child hd hp with h | h <;> split_ifs with hif
  · exact (show d = c by omega) ▸ hif.2.le
  · exact (show d = c by omega) ▸ le_rfl
  · exact (show d = c + 1 by omega) ▸ le_rfl
  · have hdc : d = c + 1 := by omega
    exact hdc ▸ not_lt.1 fun hgt => hif ⟨hdc ▸ hn, hgt⟩

theorem trickleDownLoop_spec (fuel : ℕ) (hfuel : n ≤ i + fuel) (hi : i < n)
    (h : Gap total (Function.update heap i node) n i) :
    (trickleDownLoop total n fuel heap i).2 < n ∧
      Rising total (Function.update (trickleDownLoop total n fuel heap i).1
        (trickleDownLoop total n fuel heap i).2 node) n (trickleDownLoop total n fuel heap i).2 ∧
      content (Function.update (trickleDownLoop total n fuel heap i).1
        (trickleDownLoop total n fuel heap i).2 node) n =
          content (Function.update heap i node) n := by
  induction fuel generalizing heap i with
  | zero => omega
  | succ fuel ih =>
    rw [trickleDownLoop]
    by_cases hchild : i * 2 + 1 < n
    · simp only [hchild, if_true]
      generalize hc : (if i * 2 + 1 + 1 < n ∧
        total (heap (i * 2 + 1)) > total (heap (i * 2 + 1 + 1)) then i * 2 + 1 + 1
        else i * 2 + 1) = c
      have hbounds : i < c ∧ c < n ∧ parent c = i := by
        rw [← hc]
        unfold parent
        split_ifs <;> omega
      obtain ⟨hic, hcn, hpc⟩ := hbounds
      have hswap := update_update (a := heap) node hic.ne'
      have hgap := h.down (by omega) hcn hpc (fun d hd hdn hpd => by
        have hid : i < d := hpd ▸ parent_lt hd
        rw [Function.update_of_ne hic.ne', Function.update_of_ne hid.ne', ← hc]
        exact least_child rfl hd hdn hpd)
      rw [← hswap] at hgap
      obtain ⟨hlt, hrise, hcont⟩ := ih (by omega) hcn hgap
      exact ⟨hlt, hrise, by rw [hcont, hswap, content_swap hi hcn]⟩
    · simp only [hchild, if_false, and_true]
      exact ⟨hi, h.rising (by omega)⟩

/-- A free place, and an element for it. -/
theorem trickleDown_spec (hi : i < q.m_size)
    (h : Gap total (Function.update q.m_heap i node) q.m_size i) :
    Ordered total (q.trickleDown total i node).m_heap q.m_size ∧
      (q.trickleDown total i node).nodes =
        content (Function.update q.m_heap i node) q.m_size := by
  obtain ⟨hlt, hrise, hcont⟩ := trickleDownLoop_spec q.m_size (by omega) hi h
  obtain ⟨hord, hnodes⟩ := bubbleUp_spec
    (q := { q with m_heap := (trickleDownLoop total q.m_size q.m_size q.m_heap i).1 }) hlt hrise
  exact ⟨hord, hnodes.trans hcont⟩

/-! ### The calls -/

/-- The heap is in order. -/
def Heaped (total : ℕ → K) (q : dtNodeQueue) : Prop := Ordered total q.m_heap q.m_size

theorem card_nodes : q.nodes.card = q.m_size := card_content

theorem empty_iff : q.empty = true ↔ q.m_size = 0 := decide_eq_true_iff

theorem heaped_clear : q.clear.Heaped total := fun _ _ hn => absurd hn (Nat.not_lt_zero _)

@[simp] theorem m_size_pop : (q.pop total).2.m_size = q.m_size - 1 := rfl

@[simp] theorem m_capacity_modify : (q.modify total node).m_capacity = q.m_capacity := by
  unfold modify; split <;> rfl

theorem Heaped.push (h : q.Heaped total) (node : ℕ) :
    (q.push total node).Heaped total ∧ (q.push total node).nodes = node ::ₘ q.nodes := by
  obtain ⟨hord, hnodes⟩ := bubbleUp_spec (q := { q with m_size := q.m_size + 1 })
    (Nat.lt_succ_self q.m_size) (h.rising_push node)
  exact ⟨hord, hnodes.trans (content_push node)⟩

theorem Heaped.pop (h : q.Heaped total) (hpos : 0 < q.m_size) :
    (q.pop total).2.Heaped total ∧ (q.pop total).1 ::ₘ (q.pop total).2.nodes = q.nodes ∧
      ∀ x ∈ q.nodes, total (q.pop total).1 ≤ total x := by
  obtain ⟨n, hn⟩ : ∃ n, q.m_size = n + 1 := ⟨q.m_size - 1, by omega⟩
  have hsize : q.m_size - 1 = n := by omega
  have hpop := content_pop (a := q.m_heap) (n := n)
  refine and_assoc.1 ⟨?_, fun x hx => h.le_of_mem hx⟩
  unfold Heaped nodes
  rw [m_size_pop, hsize, hn, ← hpop]
  rcases Nat.eq_zero_or_pos n with rfl | hn0
  · exact ⟨fun _ _ hn => absurd hn (Nat.not_lt_zero _), rfl⟩
  · have hord : Ordered total q.m_heap (n + 1) := hn ▸ h
    obtain ⟨hord, hnodes⟩ := trickleDown_spec (q := { q with m_size := n }) hn0
      (hord.gap_pop (q.m_heap n))
    have heq : (q.pop total).2 = trickleDown total { q with m_size := n } 0 (q.m_heap n) := by
      unfold dtNodeQueue.pop
      rw [hsize]
    rw [heq]
    exact ⟨hord, congrArg (q.m_heap 0 ::ₘ ·) hnodes⟩

theorem Heaped.modify (h : q.Heaped total) (hnodup : q.nodes.Nodup) (node : ℕ) (total' : ℕ → K)
    (hle : total' node ≤ total node) (hsame : ∀ x, x ≠ node → total' x = total x) :
    (q.modify total' node).Heaped total' ∧ (q.modify total' node).nodes = q.nodes := by
  unfold dtNodeQueue.modify
  cases hfind : (List.range q.m_size).find? fun i => q.m_heap i = node with
  | none =>
    -- it is not in the heap
    refine ⟨fun c hc hn => ?_, rfl⟩
    have hne : ∀ k < q.m_size, q.m_heap k ≠ node := fun k hk => by
      simpa using List.find?_eq_none.1 hfind k (List.mem_range.2 hk)
    rw [hsame _ (hne c hn), hsame _ (hne _ ((parent_lt hc).trans hn))]
    exact h c hc hn
  | some i =>
    obtain ⟨heq, hi⟩ : q.m_heap i = node ∧ i < q.m_size :=
      ⟨by simpa using List.find?_some hfind, List.mem_range.1 (List.mem_of_find?_eq_some hfind)⟩
    have hmap : ((Multiset.range q.m_size).map q.m_heap).Nodup := hnodup
    have hinj : ∀ k < q.m_size, q.m_heap k = node → k = i := fun k hk hkn =>
      Multiset.inj_on_of_nodup_map hmap k (Multiset.mem_range.2 hk) i (Multiset.mem_range.2 hi)
        (hkn.trans heq.symm)
    have hself : Function.update q.m_heap i node = q.m_heap := by
      rw [← heq, Function.update_eq_self]
    have hrising : Rising total' q.m_heap q.m_size i := h.rising_of_le (heq ▸ hle)
      fun k hk hne => hsame _ fun hkn => hne (hinj k hk hkn)
    obtain ⟨hord, hnodes⟩ := bubbleUp_spec hi (hself.symm ▸ hrising)
    exact ⟨hord, by rw [hnodes, hself, nodes]⟩

/-! ### The queue in use -/

end dtNodeQueue

/-- A call, with the total that the node gets before, or the node that is returned. -/
inductive QueueCall (K : Type*)
  | push (node : ℕ) (t : K)
  | modify (node : ℕ) (t : K)
  | pop (node : ℕ)
  | clear

/-- A call, which checks nothing.  `pop` is only called after `empty`. -/
def dtNodeQueue.next {K : Type*} [LinearOrder K] (s : dtNodeQueue × (ℕ → K)) :
    QueueCall K → Option (dtNodeQueue × (ℕ → K))
  | .push node t =>
    let total := Function.update s.2 node t
    some (s.1.push total node, total)
  | .modify node t =>
    let total := Function.update s.2 node t
    some (s.1.modify total node, total)
  | .pop node =>
    if s.1.empty = false ∧ (s.1.pop s.2).1 = node then some ((s.1.pop s.2).2, s.2) else none
  | .clear => some (s.1.clear, s.2)

/-- How the path search calls it: a node is one of a pool that is no larger than the queue, and is
pushed while it is not in the queue; and its total gets smaller before `modify`. -/
def dtNodeQueue.Called {K : Type*} [LinearOrder K] (s : dtNodeQueue × (ℕ → K)) :
    QueueCall K → Prop
  | .push node _ => node < s.1.m_capacity ∧ node ∉ s.1.nodes
  | .modify node t => t ≤ s.2 node
  | .pop _ | .clear => True

instance {K : Type*} [LinearOrder K] (s : dtNodeQueue × (ℕ → K)) :
    DecidablePred (dtNodeQueue.Called s)
  | .push node _ => inferInstanceAs (Decidable (node < s.1.m_capacity ∧ node ∉ s.1.nodes))
  | .modify node t => inferInstanceAs (Decidable (t ≤ s.2 node))
  | .pop _ | .clear => .isTrue trivial

/-- The calls of the queue. -/
def queueSystem (K : Type*) [LinearOrder K] : LTS (dtNodeQueue × (ℕ → K)) (QueueCall K) :=
  .ofNext dtNodeQueue.next

/-- What the calls should do: the nodes that wait, and the totals. -/
def prioritySystem (K : Type*) [LinearOrder K] :
    LTS (Multiset ℕ × (ℕ → K)) (QueueCall K) where
  step s
    | .push node t, s' => s' = (node ::ₘ s.1, Function.update s.2 node t)
    | .modify node t, s' => s' = (s.1, Function.update s.2 node t)
    | .pop node, s' =>
      node ∈ s.1 ∧ (∀ x ∈ s.1, s.2 node ≤ s.2 x) ∧ s' = (s.1.erase node, s.2)
    | .clear, s' => s' = (0, s.2)

namespace dtNodeQueue

variable {K : Type*} [LinearOrder K] {total : ℕ → K} {q : dtNodeQueue}

/-- A heap in order, without a node twice, of a pool that is no larger than the array. -/
structure Sound (total : ℕ → K) (q : dtNodeQueue) : Prop where
  heaped : q.Heaped total
  nodup : q.nodes.Nodup
  bound : ∀ x ∈ q.nodes, x < q.m_capacity

/-- There are no more nodes in the queue than in the pool. -/
theorem m_size_le {n : ℕ} (hnodup : q.nodes.Nodup) (h : ∀ x ∈ q.nodes, x < n) : q.m_size ≤ n := by
  have hle : q.nodes ≤ Multiset.range n :=
    (Multiset.le_iff_subset hnodup).2 fun x hx => Multiset.mem_range.2 (h x hx)
  simpa [card_nodes] using Multiset.card_le_card hle

theorem sound_clear (q : dtNodeQueue) (total : ℕ → K) : q.clear.Sound total :=
  ⟨heaped_clear, Multiset.nodup_zero, fun _ hx => absurd hx (Multiset.notMem_zero _)⟩

theorem Heaped.congr {total' : ℕ → K} (h : q.Heaped total)
    (hsame : ∀ x ∈ q.nodes, total' x = total x) : q.Heaped total' := by
  intro c hc hn
  have hmem : ∀ k < q.m_size, q.m_heap k ∈ q.nodes := fun k hk => mem_content.2 ⟨k, hk, rfl⟩
  rw [hsame _ (hmem c hn), hsame _ (hmem _ ((parent_lt hc).trans hn))]
  exact h c hc hn

theorem Sound.push {node : ℕ} {t : K} (h : q.Sound total) (hlt : node < q.m_capacity)
    (hnot : node ∉ q.nodes) :
    (q.push (Function.update total node t) node).Sound (Function.update total node t) ∧
      (q.push (Function.update total node t) node).nodes = node ::ₘ q.nodes := by
  have hheap : q.Heaped (Function.update total node t) := h.heaped.congr fun x hx =>
    Function.update_of_ne (ne_of_mem_of_not_mem hx hnot) t total
  obtain ⟨hpush, hnodes⟩ := hheap.push node
  refine ⟨⟨hpush, hnodes ▸ Multiset.nodup_cons.2 ⟨hnot, h.nodup⟩, fun x hx => ?_⟩, hnodes⟩
  rw [hnodes] at hx
  rcases Multiset.mem_cons.1 hx with rfl | hx
  · exact hlt
  · exact h.bound x hx

theorem Sound.modify (h : q.Sound total) (node : ℕ) {t : K} (hle : t ≤ total node) :
    (q.modify (Function.update total node t) node).Sound (Function.update total node t) ∧
      (q.modify (Function.update total node t) node).nodes = q.nodes := by
  obtain ⟨hmod, hnodes⟩ := h.heaped.modify h.nodup node (Function.update total node t)
    (by rwa [Function.update_self]) fun x hx => Function.update_of_ne hx t total
  exact ⟨⟨hmod, hnodes ▸ h.nodup, fun x hx => by simpa using h.bound x (hnodes ▸ hx)⟩, hnodes⟩

theorem Sound.pop (h : q.Sound total) (hpos : 0 < q.m_size) :
    (q.pop total).2.Sound total ∧ (q.pop total).2.nodes = q.nodes.erase (q.pop total).1 ∧
      (q.pop total).1 ∈ q.nodes ∧ ∀ x ∈ q.nodes, total (q.pop total).1 ≤ total x := by
  obtain ⟨hheap, hcons, hleast⟩ := h.heaped.pop hpos
  have hnodes : (q.pop total).2.nodes = q.nodes.erase (q.pop total).1 := by
    rw [← hcons, Multiset.erase_cons_head]
  refine ⟨⟨hheap, hnodes ▸ h.nodup.erase _, fun x hx => ?_⟩, hnodes, ?_, hleast⟩
  · exact h.bound x (Multiset.mem_of_mem_erase (hnodes ▸ hx))
  · rw [← hcons]
    exact Multiset.mem_cons_self _ _

theorem sound_step {s s' : dtNodeQueue × (ℕ → K)} {l : QueueCall K} (h : s.1.Sound s.2)
    (hst : (queueSystem K).step s l s') (hl : Called s l) :
    s'.1.Sound s'.2 ∧
      (prioritySystem K).step (s.1.nodes, s.2) l (s'.1.nodes, s'.2) := by
  change next s l = some s' at hst
  cases l with
  | push node t =>
    obtain rfl := Option.some.inj hst
    obtain ⟨hsound, hnodes⟩ := h.push (t := t) hl.1 hl.2
    exact ⟨hsound, Prod.ext hnodes rfl⟩
  | modify node t =>
    obtain rfl := Option.some.inj hst
    obtain ⟨hsound, hnodes⟩ := h.modify node hl
    exact ⟨hsound, Prod.ext hnodes rfl⟩
  | pop node =>
    obtain ⟨⟨hempty, rfl⟩, rfl⟩ :=
      Option.ite_none_right_eq_some.1 hst |>.imp_right Option.some.inj
    have hpos : 0 < s.1.m_size := by
      refine Nat.pos_of_ne_zero fun h0 => ?_
      rw [empty_iff.2 h0] at hempty
      cases hempty
    obtain ⟨hsound, hnodes, hmem, hleast⟩ := h.pop hpos
    exact ⟨hsound, hmem, hleast, Prod.ext hnodes rfl⟩
  | clear =>
    obtain rfl := Option.some.inj hst
    exact ⟨sound_clear s.1 s.2, rfl⟩

/-- **The open list is a priority queue.**  In every run of calls as the search makes them, `pop`
returns one of the waiting nodes with the least total, as these are at that moment; the others stay;
and the heap never outgrows its array. -/
theorem queue_refines {q₀ : dtNodeQueue} {total₀ : ℕ → K} {s : dtNodeQueue × (ℕ → K)}
    {es : List ((dtNodeQueue × (ℕ → K)) × QueueCall K)}
    (h : (queueSystem K).Run (q₀.clear, total₀) es s) (hcalls : ∀ e ∈ es, Called e.1 e.2) :
    (prioritySystem K).Run (0, total₀) (es.map fun e => ((e.1.1.nodes, e.1.2), e.2))
        (s.1.nodes, s.2) ∧ s.1.m_size ≤ s.1.m_capacity := by
  have h₀ : (q₀.clear, total₀).1.Sound total₀ := sound_clear q₀ total₀
  have hkeep : ∀ (s : dtNodeQueue × (ℕ → K)) l s', s.1.Sound s.2 →
      (queueSystem K).step s l s' → Called s l → s'.1.Sound s'.2 :=
    fun _ _ _ hs hst hl => (sound_step hs hst hl).1
  have hrun := h.refines_of (B := prioritySystem K) (fun s => (s.1.nodes, s.2)) h₀ hkeep
    (fun _ _ _ hs hst hl => (sound_step hs hst hl).2) hcalls
  have hsound := h.invariant_of (I := fun s : dtNodeQueue × (ℕ → K) => s.1.Sound s.2) h₀ hkeep hcalls
  exact ⟨hrun, m_size_le hsound.nodup hsound.bound⟩

/-- Two nodes, of which the first gets the better total and comes out first. -/
theorem queue_refines_two : ∃ es s,
    (queueSystem ℕ).Run ((⟨fun _ => 0, 2, 0⟩ : dtNodeQueue).clear, fun _ => 0) es s ∧
      (prioritySystem ℕ).Run (0, fun _ => 0) (es.map fun e => ((e.1.1.nodes, e.1.2), e.2))
        (s.1.nodes, s.2) ∧ s.1.m_size = 1 := by
  obtain ⟨s, hrun, hsize⟩ := LTS.exists_run next
    ((⟨fun _ => 0, 2, 0⟩ : dtNodeQueue).clear, fun _ => 0)
    [.push 0 5, .push 1 3, .modify 0 1, .pop 0] (fun s => s.1.m_size = 1) (by decide)
  exact ⟨_, s, hrun, (queue_refines hrun (by decide)).1, of_decide_eq_true hsize⟩

end dtNodeQueue

end ClientServer
