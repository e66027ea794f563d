import ClientServer.LTS.Run
import ClientServer.Movement.Navigation
import Mathlib.Data.List.Nodup

/-!
# The nodes of the path search

`dtNodePool` hands out the nodes of the path search of Detour.  A node belongs to a polygon and the
side it was entered by; the pool finds it again in a hash table, whose buckets are chained through
the array `m_next`.  A node is put in front of its chain and never removed, so that an index is
followed by smaller ones.

* `dtNodePool.findNode`, `dtNodePool.getNode` : the functions.
* `Chained` : the invariant of the chains, and `Chained.getNode` what `getNode` makes of it.
* `tableSystem` : what the pool is for: a list of keys without repetition.
* `pool_refines` : **the pool is such a table**, whatever the hash function does.
-/

namespace ClientServer

/-- `DT_NULL_IDX`. -/
def DT_NULL_IDX : ℕ := 65535

/-- `DT_NODE_OPEN`. -/
def DT_NODE_OPEN : UInt8 := 1

/-- `DT_NODE_CLOSED`. -/
def DT_NODE_CLOSED : UInt8 := 2

/-- `dtNode`. -/
structure dtNode (F : Type*) where
  pos : dtVec F
  cost : F
  total : F
  /-- The number of the parent node, from `1` on. -/
  pidx : ℕ
  state : UInt8
  flags : UInt8
  id : dtPolyRef

/-- `dtHashRef`, of references of 32 bits. -/
def dtHashRef (a : dtPolyRef) : UInt32 :=
  let a := a + ~~~(a <<< 15)
  let a := a ^^^ (a >>> 10)
  let a := a + (a <<< 3)
  let a := a ^^^ (a >>> 6)
  let a := a + ~~~(a <<< 11)
  a ^^^ (a >>> 16)

/-- `dtNodePool`. -/
structure dtNodePool (F : Type*) where
  m_nodes : ℕ → dtNode F
  m_first : ℕ → ℕ
  m_next : ℕ → ℕ
  m_maxNodes : ℕ
  m_hashSize : ℕ
  m_nodeCount : ℕ

namespace dtNodePool

variable {F : Type*} (p : dtNodePool F)

/-- The bucket of a polygon. -/
def bucket (id : dtPolyRef) : ℕ := (dtHashRef id &&& (UInt32.ofNat p.m_hashSize - 1)).toNat

/-- The loop along a chain, from the index `i`. -/
def findFrom (id : dtPolyRef) (state : UInt8) : ℕ → ℕ → Option ℕ
  | 0, _ => none
  | fuel + 1, i =>
    if i = DT_NULL_IDX then none
    else if (p.m_nodes i).id = id ∧ (p.m_nodes i).state = state then some i
    else findFrom id state fuel (p.m_next i)

/-- `findNode`: every node is on a chain once at most. -/
def findNode (id : dtPolyRef) (state : UInt8) : Option ℕ :=
  p.findFrom id state (p.m_nodeCount + 1) (p.m_first (p.bucket id))

section Calls

variable [Zero F]

/-- A node as `getNode` leaves it; what `pos` was stays. -/
def initNode (n : dtNode F) (id : dtPolyRef) (state : UInt8) : dtNode F :=
  { n with pidx := 0, cost := 0, total := 0, id := id, state := state &&& 3, flags := 0 }

/-- A new node, in front of its chain.  Its index is a `dtNodeIndex`. -/
def newNode (id : dtPolyRef) (state : UInt8) : ℕ × dtNodePool F :=
  let i := p.m_nodeCount % 65536
  (i,
    { p with
      m_nodeCount := p.m_nodeCount + 1
      m_nodes := Function.update p.m_nodes i (initNode (p.m_nodes i) id state)
      m_next := Function.update p.m_next i (p.m_first (p.bucket id))
      m_first := Function.update p.m_first (p.bucket id) i })

/-- `getNode`: the node, if there is one or room for one. -/
def getNode (id : dtPolyRef) (state : UInt8) : Option ℕ × dtNodePool F :=
  match p.findNode id state with
  | some i => (some i, p)
  | none =>
    if p.m_maxNodes ≤ p.m_nodeCount then (none, p)
    else (p.newNode id state).map some fun p => p

end Calls

/-- `clear`: the links of the nodes stay. -/
def clear : dtNodePool F :=
  { p with m_first := fun _ => DT_NULL_IDX, m_nodeCount := 0 }

/-- Write a node. -/
def setNode (i : ℕ) (n : dtNode F) : dtNodePool F :=
  { p with m_nodes := Function.update p.m_nodes i n }

/-! ### Chains -/

/-- `i` comes on the chain that starts at `j`. -/
inductive OnChain (next : ℕ → ℕ) (i : ℕ) : ℕ → Prop
  | here : i ≠ DT_NULL_IDX → OnChain next i i
  | later {j : ℕ} : j ≠ DT_NULL_IDX → OnChain next i (next j) → OnChain next i j

/-- Every index on a chain is followed by a smaller one or by the end, and every node is on the
chain of its bucket. -/
structure Chained : Prop where
  max : p.m_maxNodes ≤ DT_NULL_IDX
  count : p.m_nodeCount ≤ p.m_maxNodes
  first : ∀ b, p.m_first b = DT_NULL_IDX ∨ p.m_first b < p.m_nodeCount
  next : ∀ i < p.m_nodeCount, p.m_next i = DT_NULL_IDX ∨ p.m_next i < i
  onChain : ∀ i < p.m_nodeCount, OnChain p.m_next i (p.m_first (p.bucket (p.m_nodes i).id))

variable {p} {i j n : ℕ} {id : dtPolyRef} {state : UInt8}

theorem onChain_congr {next next' : ℕ → ℕ} (hsame : ∀ k < n, next' k = next k)
    (hdesc : ∀ k < n, next k = DT_NULL_IDX ∨ next k < k) (hj : j < n) (h : OnChain next i j) :
    OnChain next' i j := by
  induction h with
  | here hne => exact .here hne
  | @later j hne hrest ih =>
    refine .later hne ?_
    rw [hsame j hj]
    rcases hdesc j hj with hnull | hlt
    · rw [hnull] at hrest
      cases hrest with
      | here hne => exact absurd rfl hne
      | later hne _ => exact absurd rfl hne
    · exact ih (hlt.trans hj)

theorem Chained.findFrom_spec (h : p.Chained) (id : dtPolyRef) (state : UInt8) (fuel : ℕ)
    (hj : j = DT_NULL_IDX ∧ 0 < fuel ∨ j < p.m_nodeCount ∧ j + 2 ≤ fuel) :
    match p.findFrom id state fuel j with
    | some i => i < p.m_nodeCount ∧ (p.m_nodes i).id = id ∧ (p.m_nodes i).state = state
    | none => ∀ i, OnChain p.m_next i j → (p.m_nodes i).id = id → (p.m_nodes i).state ≠ state := by
  induction fuel generalizing j with
  | zero => omega
  | succ fuel ih =>
    rw [findFrom]
    by_cases hnull : j = DT_NULL_IDX
    · simp only [hnull, if_true]
      intro i hi
      cases hi with
      | here hne => exact absurd rfl hne
      | later hne _ => exact absurd rfl hne
    · obtain ⟨hjn, hfuel⟩ := hj.resolve_left fun hj => hnull hj.1
      rw [if_neg hnull]
      by_cases hkey : (p.m_nodes j).id = id ∧ (p.m_nodes j).state = state
      · rw [if_pos hkey]
        exact ⟨hjn, hkey⟩
      · rw [if_neg hkey]
        have hrest := ih (j := p.m_next j) (by
          rcases h.next j hjn with hnext | hnext
          · exact .inl ⟨hnext, by omega⟩
          · exact .inr ⟨hnext.trans hjn, by omega⟩)
        split at hrest
        · exact hrest
        · intro i hi hid hstate
          cases hi with
          | here => exact hkey ⟨hid, hstate⟩
          | later _ hi => exact hrest i hi hid hstate

/-- **`findNode` finds a node if there is one.** -/
theorem Chained.findNode_spec (h : p.Chained) (id : dtPolyRef) (state : UInt8) :
    match p.findNode id state with
    | some i => i < p.m_nodeCount ∧ (p.m_nodes i).id = id ∧ (p.m_nodes i).state = state
    | none => ∀ i < p.m_nodeCount, (p.m_nodes i).id = id → (p.m_nodes i).state ≠ state := by
  have hspec := h.findFrom_spec id state (j := p.m_first (p.bucket id)) (p.m_nodeCount + 1) (by
      rcases h.first (p.bucket id) with hfirst | hfirst
      · exact .inl ⟨hfirst, by omega⟩
      · exact .inr ⟨hfirst, by omega⟩)
  rw [findNode]
  split at hspec
  · exact hspec
  · intro i hi hid
    exact hspec i (hid ▸ h.onChain i hi) hid

/-- The pool has no node for this polygon and side. -/
def Lacks (p : dtNodePool F) (id : dtPolyRef) (state : UInt8) : Prop :=
  ∀ i < p.m_nodeCount, (p.m_nodes i).id = id → (p.m_nodes i).state ≠ state

theorem chained_clear (h : p.m_maxNodes ≤ DT_NULL_IDX) : p.clear.Chained :=
  ⟨h, Nat.zero_le _, fun _ => .inl rfl, fun i hi => absurd hi (Nat.not_lt_zero i),
    fun i hi => absurd hi (Nat.not_lt_zero i)⟩

/-- An index of the pool fits into a `dtNodeIndex`. -/
theorem Chained.mod_count (h : p.Chained) (hroom : p.m_nodeCount < p.m_maxNodes) :
    p.m_nodeCount % 65536 = p.m_nodeCount := by
  have hmax := h.max
  unfold DT_NULL_IDX at hmax
  exact Nat.mod_eq_of_lt (by omega)

section Calls

variable [Zero F]

/-- What `getNode` does: it finds a node, has no room for one, or makes one. -/
theorem Chained.getNode_cases (h : p.Chained) (id : dtPolyRef) (state : UInt8) :
    (∃ i < p.m_nodeCount, (p.m_nodes i).id = id ∧ (p.m_nodes i).state = state ∧
        p.findNode id state = some i ∧ p.getNode id state = (some i, p)) ∨
      p.Lacks id state ∧ p.findNode id state = none ∧
        (p.m_nodeCount = p.m_maxNodes ∧ p.getNode id state = (none, p) ∨
          p.m_nodeCount < p.m_maxNodes ∧
            p.getNode id state = (some p.m_nodeCount, (p.newNode id state).2)) := by
  have hspec := h.findNode_spec id state
  unfold getNode
  cases hfind : p.findNode id state with
  | some i =>
    rw [hfind] at hspec
    exact .inl ⟨i, hspec.1, hspec.2.1, hspec.2.2, rfl, rfl⟩
  | none =>
    rw [hfind] at hspec
    refine .inr ⟨hspec, rfl, ?_⟩
    by_cases hfull : p.m_maxNodes ≤ p.m_nodeCount
    · exact .inl ⟨le_antisymm h.count hfull, if_pos hfull⟩
    · refine .inr ⟨not_le.1 hfull, (if_neg hfull).trans ?_⟩
      exact Prod.ext (congrArg some (h.mod_count (not_le.1 hfull))) rfl

section NewNode

variable (h : p.Chained) (hroom : p.m_nodeCount < p.m_maxNodes)
include h hroom

theorem Chained.m_nodes_newNode (id : dtPolyRef) (state : UInt8) : (p.newNode id state).2.m_nodes =
    Function.update p.m_nodes p.m_nodeCount (initNode (p.m_nodes p.m_nodeCount) id state) := by
  simp only [newNode, h.mod_count hroom]

/-- **A new node keeps the chains.** -/
theorem Chained.newNode : (p.newNode id state).2.Chained := by
  have hmod := h.mod_count hroom
  have hnull : p.m_nodeCount ≠ DT_NULL_IDX := (hroom.trans_le h.max).ne
  -- the chains as they were
  have hold : ∀ i b, OnChain p.m_next i (p.m_first b) →
      OnChain (Function.update p.m_next p.m_nodeCount (p.m_first (p.bucket id))) i
        (p.m_first b) := by
    intro i b hi
    rcases h.first b with hfirst | hfirst
    · rw [hfirst] at hi
      cases hi with
      | here hne => exact absurd rfl hne
      | later hne _ => exact absurd rfl hne
    · exact onChain_congr (fun k hk => Function.update_of_ne hk.ne _ _) h.next hfirst hi
  have hnodes := h.m_nodes_newNode hroom id state
  refine ⟨h.max, hroom, fun b => ?_, fun i hi => ?_, fun i hi => ?_⟩
  · by_cases hb : b = p.bucket id
    · exact .inr (by simp [dtNodePool.newNode, hmod, hb])
    · refine (h.first b).imp (fun hfirst => ?_) fun hfirst => ?_
      · simpa [dtNodePool.newNode, hb] using hfirst
      · simp only [dtNodePool.newNode, ne_eq, hb, not_false_eq_true, Function.update_of_ne]
        omega
  · simp only [dtNodePool.newNode, hmod]
    by_cases hnew : i = p.m_nodeCount
    · rw [hnew, Function.update_self]
      exact h.first _
    · rw [Function.update_of_ne hnew]
      have hi' : i < p.m_nodeCount + 1 := hi
      exact h.next i (by omega)
  · rw [hnodes]
    change OnChain (Function.update p.m_next (p.m_nodeCount % 65536) (p.m_first (p.bucket id))) i
      (Function.update p.m_first (p.bucket id) (p.m_nodeCount % 65536) (p.bucket _))
    rw [hmod]
    by_cases hnew : i = p.m_nodeCount
    · subst hnew
      simp only [Function.update_self, initNode]
      exact .here hnull
    · have hi' : i < p.m_nodeCount + 1 := hi
      have hon := hold i _ (h.onChain i (by omega))
      rw [Function.update_of_ne hnew]
      by_cases hb : p.bucket (p.m_nodes i).id = p.bucket id
      · rw [hb, Function.update_self]
        refine .later hnull ?_
        rw [Function.update_self]
        exact hb ▸ hon
      · rwa [Function.update_of_ne hb]

end NewNode

end Calls

theorem Chained.setNode (h : p.Chained) {m : dtNode F} (hid : m.id = (p.m_nodes i).id) :
    (p.setNode i m).Chained := by
  refine ⟨h.max, h.count, h.first, h.next, fun k hk => ?_⟩
  have hsame : ((p.setNode i m).m_nodes k).id = (p.m_nodes k).id := by
    by_cases hki : k = i
    · simp [dtNodePool.setNode, hki, hid]
    · simp [dtNodePool.setNode, hki]
  rw [hsame]
  exact h.onChain k hk

end dtNodePool

/-! ### The pool in use -/

/-- A call, with what it returns; or a write to a node that a call returned. -/
inductive NodeCall (F : Type*)
  | findNode (id : dtPolyRef) (state : UInt8) (result : Option ℕ)
  | getNode (id : dtPolyRef) (state : UInt8) (result : Option ℕ)
  | write (i : ℕ) (n : dtNode F)
  | clear

namespace dtNodePool

variable {F : Type*}

section Calls

variable [Zero F]

/-- The calls as the search makes them: the side of a link is one of eight, so its half fits into
the two bits of `state`; and a node keeps its polygon and its side. -/
def next (p : dtNodePool F) : NodeCall F → Option (dtNodePool F)
  | .findNode id state result =>
    if state < 4 ∧ p.findNode id state = result then some p else none
  | .getNode id state result =>
    if state < 4 ∧ (p.getNode id state).1 = result then some (p.getNode id state).2 else none
  | .write i n =>
    if n.id = (p.m_nodes i).id ∧ n.state = (p.m_nodes i).state then some (p.setNode i n) else none
  | .clear => some p.clear

/-- The calls of the pool. -/
def system (F : Type*) [Zero F] : LTS (dtNodePool F) (NodeCall F) := .ofNext next

end Calls

/-- The keys of the nodes, in the order in which these were made. -/
def keys (p : dtNodePool F) : List (dtPolyRef × UInt8) :=
  (List.range p.m_nodeCount).map fun i => ((p.m_nodes i).id, (p.m_nodes i).state)

end dtNodePool

/-- `result` is the place of `k`, if it has one. -/
def Finds {α : Type*} (keys : List α) (k : α) : Option ℕ → Prop
  | some i => keys[i]? = some k
  | none => k ∉ keys

/-- A table with room for `max` keys: it finds a key by its place, and adds one that is not there
at the end, as long as there is room. -/
def tableSystem (F : Type*) (max : ℕ) : LTS (List (dtPolyRef × UInt8)) (NodeCall F) where
  step keys
    | .findNode id state result, keys' => Finds keys (id, state) result ∧ keys' = keys
    | .getNode id state result, keys' =>
      if (id, state) ∈ keys then Finds keys (id, state) result ∧ keys' = keys
      else if keys.length < max then
        result = some keys.length ∧ keys' = keys ++ [(id, state)]
      else result = none ∧ keys' = keys
    | .write _ _, keys' => keys' = keys
    | .clear, keys' => keys' = []

namespace dtNodePool

variable {F : Type*} {p : dtNodePool F} {id : dtPolyRef} {state : UInt8}

theorem getElem?_keys {i : ℕ} {k : dtPolyRef × UInt8} : p.keys[i]? = some k ↔
    i < p.m_nodeCount ∧ ((p.m_nodes i).id, (p.m_nodes i).state) = k := by
  rw [keys, List.getElem?_map]
  by_cases hi : i < p.m_nodeCount
  · simp [hi]
  · simp [hi]

theorem length_keys : p.keys.length = p.m_nodeCount := by simp [keys]

theorem mem_keys : (id, state) ∈ p.keys ↔ ¬p.Lacks id state := by
  simp [keys, Lacks]

theorem and_three (h : state < 4) : state &&& 3 = state := by
  rw [← UInt8.toNat_inj, UInt8.toNat_and]
  have hlt : state.toNat < 2 ^ 2 := UInt8.lt_iff_toNat_lt.1 h
  exact (Nat.and_two_pow_sub_one_eq_mod state.toNat 2).trans (Nat.mod_eq_of_lt hlt)

/-- What the pool keeps: its chains, and one node a key. -/
structure Sound (p : dtNodePool F) : Prop where
  chained : p.Chained
  nodup : p.keys.Nodup

theorem keys_setNode {i : ℕ} {m : dtNode F} (hid : m.id = (p.m_nodes i).id)
    (hstate : m.state = (p.m_nodes i).state) : (p.setNode i m).keys = p.keys := by
  refine List.map_congr_left fun k _ => ?_
  by_cases hk : k = i
  · simp [setNode, hk, hid, hstate]
  · simp [setNode, hk]

theorem Chained.finds_findNode (h : p.Chained) : Finds p.keys (id, state) (p.findNode id state) := by
  have hspec := h.findNode_spec id state
  cases hfind : p.findNode id state with
  | some i =>
    rw [hfind] at hspec
    exact getElem?_keys.2 ⟨hspec.1, Prod.ext hspec.2.1 hspec.2.2⟩
  | none =>
    rw [hfind] at hspec
    exact fun hmem => mem_keys.1 hmem hspec

theorem sound_clear (h : p.m_maxNodes ≤ DT_NULL_IDX) : p.clear.Sound :=
  ⟨chained_clear h, List.nodup_nil⟩

section Calls

variable [Zero F]

theorem Chained.keys_newNode (h : p.Chained) (hroom : p.m_nodeCount < p.m_maxNodes)
    (id : dtPolyRef) (hstate : state < 4) : (p.newNode id state).2.keys = p.keys ++ [(id, state)] := by
  have hcount : (p.newNode id state).2.m_nodeCount = p.m_nodeCount + 1 := rfl
  rw [keys, hcount, h.m_nodes_newNode hroom, List.range_succ, List.map_append]
  congr 1
  · refine List.map_congr_left fun i hi => ?_
    rw [Function.update_of_ne (List.mem_range.1 hi).ne]
  · simp [initNode, and_three hstate]

theorem Sound.step {p' : dtNodePool F} {l : NodeCall F} (h : p.Sound)
    (hst : (system F).step p l p') :
    p'.Sound ∧ p'.m_maxNodes = p.m_maxNodes ∧
      (tableSystem F p.m_maxNodes).step p.keys l p'.keys := by
  change next p l = some p' at hst
  cases l with
  | findNode id state result =>
    obtain ⟨⟨-, rfl⟩, rfl⟩ := Option.ite_none_right_eq_some.1 hst |>.imp_right Option.some.inj
    exact ⟨h, rfl, h.chained.finds_findNode, rfl⟩
  | getNode id state result =>
    obtain ⟨⟨hstate, rfl⟩, rfl⟩ :=
      Option.ite_none_right_eq_some.1 hst |>.imp_right Option.some.inj
    simp only [tableSystem, length_keys]
    rcases h.chained.getNode_cases id state with ⟨i, hi, hid, hst, -, heq⟩ | ⟨hlacks, -, hnew⟩
    · have hget : p.keys[i]? = some (id, state) := getElem?_keys.2 ⟨hi, Prod.ext hid hst⟩
      rw [heq, if_pos (List.mem_of_getElem? hget)]
      exact ⟨h, rfl, hget, rfl⟩
    · have hnot : (id, state) ∉ p.keys := fun hmem => mem_keys.1 hmem hlacks
      rw [if_neg hnot]
      rcases hnew with ⟨hfull, heq⟩ | ⟨hroom, heq⟩
      · rw [heq, if_neg hfull.not_lt]
        exact ⟨h, rfl, rfl, rfl⟩
      · have hkeys := h.chained.keys_newNode hroom id hstate
        rw [heq, if_pos hroom]
        refine ⟨⟨h.chained.newNode hroom, ?_⟩, rfl, rfl, hkeys⟩
        rw [hkeys]
        exact List.Nodup.append h.nodup (List.nodup_singleton _) (by simpa using hnot)
  | write i n =>
    obtain ⟨⟨hid, hstate⟩, rfl⟩ :=
      Option.ite_none_right_eq_some.1 hst |>.imp_right Option.some.inj
    have hkeys := keys_setNode hid hstate
    exact ⟨⟨h.chained.setNode hid, hkeys ▸ h.nodup⟩, rfl, hkeys⟩
  | clear =>
    obtain rfl := Option.some.inj hst
    exact ⟨sound_clear h.chained.max, rfl, rfl⟩

/-- **The pool is a table.**  In every run of calls from a cleared pool, `findNode` and `getNode`
return the place of their key among those made since the last `clear`, no key has two, and `getNode`
fails for want of room only; for any hash table size, and any writes to the nodes that leave their
keys alone. -/
theorem pool_refines {p₀ p : dtNodePool F} {es : List (dtNodePool F × NodeCall F)}
    (hmax : p₀.m_maxNodes ≤ DT_NULL_IDX) (h : (system F).Run p₀.clear es p) :
    (tableSystem F p₀.m_maxNodes).Run [] (es.map fun e => (e.1.keys, e.2)) p.keys ∧
      p.keys.Nodup := by
  have h₀ : p₀.clear.Sound ∧ p₀.clear.m_maxNodes = p₀.m_maxNodes := ⟨sound_clear hmax, rfl⟩
  have hkeep : ∀ (p : dtNodePool F) l p', p.Sound ∧ p.m_maxNodes = p₀.m_maxNodes →
      (system F).step p l p' → p'.Sound ∧ p'.m_maxNodes = p₀.m_maxNodes :=
    fun p l p' hp hst => ⟨(hp.1.step hst).1, (hp.1.step hst).2.1.trans hp.2⟩
  have hrun := h.refines (B := tableSystem F p₀.m_maxNodes) keys h₀ hkeep
    fun p l p' hp hst => hp.2 ▸ (hp.1.step hst).2.2
  exact ⟨hrun, (h.invariant h₀ hkeep).1.nodup⟩

/-- A pool with one bucket. -/
def oneBucket (maxNodes : ℕ) : dtNodePool ℚ where
  m_nodes _ := ⟨⟨0, 0, 0⟩, 0, 0, 0, 0, 0, 0⟩
  m_first _ := 0
  m_next _ := 0
  m_maxNodes := maxNodes
  m_hashSize := 1
  m_nodeCount := 0

/-- Two keys in one bucket, of which the first is found again. -/
theorem pool_refines_two : ∃ es p, (system ℚ).Run (oneBucket 2).clear es p ∧
    p.keys = [(7, 0), (7, 1)] ∧ p.keys.Nodup := by
  obtain ⟨p, hrun, hkeys⟩ := LTS.exists_run next (oneBucket 2).clear
    [.getNode 7 0 (some 0), .getNode 7 1 (some 1), .findNode 7 0 (some 0)]
    (fun p => p.keys = [(7, 0), (7, 1)]) (by decide +kernel)
  exact ⟨_, p, hrun, of_decide_eq_true hkeys, (pool_refines (by decide) hrun).2⟩

end Calls

end dtNodePool

end ClientServer
