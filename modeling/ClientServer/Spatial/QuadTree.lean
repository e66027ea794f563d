import ClientServer.Spatial.Rect
import Mathlib.Algebra.Order.BigOperators.Group.List
import Mathlib.Data.Fin.VecNotation
import Mathlib.Data.List.FinRange
import Mathlib.Logic.Function.Basic

/-!
# Quad trees

A node of a `QuadTree` has an area, cut into four child areas.  An item goes down to the first child
whose area contains its rectangle, which is made on the way if it is not there, and stays where there
is no such child, or at the last level.

* `QuadTree.resize`, `QuadTree.insert`, `QuadTree.items` : the functions.
* `home` : where an item belongs, as a path from the root.
* `QuadTree.insert_spec` : inserting adds an item at its home, and changes nothing else.
* `QuadTree.inPlace_insertAll` : **every item is stored once, at its home**.
-/

namespace ClientServer

theorem flatMap_perm_cons {α β : Type*} {f f' : α → List β} {l : List α} {i : α} {b : β}
    (hl : l.Nodup) (hi : i ∈ l) (h : (f' i).Perm (b :: f i)) (hne : ∀ j, j ≠ i → f' j = f j) :
    (l.flatMap f').Perm (b :: l.flatMap f) := by
  induction l with
  | nil => cases hi
  | cons j l ih =>
    obtain ⟨hj, hl⟩ := List.nodup_cons.1 hl
    rw [List.flatMap_cons, List.flatMap_cons]
    by_cases hij : i = j
    · subst hij
      have hrest : l.flatMap f' = l.flatMap f :=
        List.flatMap_congr fun k hk => hne k (ne_of_mem_of_not_mem hk hj)
      rw [hrest]
      exact h.append_right _
    · rw [hne j (Ne.symm hij)]
      exact ((ih hl ((List.mem_cons.1 hi).resolve_left hij)).append_left _).trans
        List.perm_middle

namespace bb

/-- `MaxDepth`. -/
def MaxDepth : ℕ := 8

section Areas

variable {K : Type*} [Field K]

/-- The areas of the children, as `resize` sets them. -/
def childRects (area : rect K) : Fin 4 → rect K :=
  let childsize : vec2 K := ⟨area.size.x * ((2 : ℕ) : K)⁻¹, area.size.y * ((2 : ℕ) : K)⁻¹⟩
  ![⟨area.pos, childsize⟩,
    ⟨⟨area.pos.x + childsize.x, area.pos.y⟩, childsize⟩,
    ⟨⟨area.pos.x, area.pos.y + childsize.y⟩, childsize⟩,
    ⟨⟨area.pos.x + childsize.x, area.pos.y + childsize.y⟩, childsize⟩]

/-- The area at the end of a path. -/
def areaAt (area : rect K) : List (Fin 4) → rect K
  | [] => area
  | i :: p => areaAt (childRects area i) p

variable [LinearOrder K] {area r : rect K}

/-- The first child whose area contains a rectangle. -/
def firstChild (area r : rect K) : Option (Fin 4) :=
  (List.finRange 4).find? fun i => (childRects area i).contains r

/-- The path to the node a rectangle belongs to, below an area with so many levels below it: into the
first child that contains it, as long as there is one. -/
def home : ℕ → rect K → rect K → List (Fin 4)
  | 0, _, _ => []
  | levels + 1, area, r =>
    match firstChild area r with
    | some i => i :: home levels (childRects area i) r
    | none => []

theorem home_of_some {levels : ℕ} {i : Fin 4} (h : firstChild area r = some i) :
    home (levels + 1) area r = i :: home levels (childRects area i) r := by
  rw [home, h]

theorem home_of_none {levels : ℕ} (h : firstChild area r = none) :
    home (levels + 1) area r = [] := by
  rw [home, h]

theorem contains_of_firstChild {i : Fin 4} (h : firstChild area r = some i) :
    (childRects area i).contains r = true := by
  rw [firstChild] at h
  simpa using List.find?_some h

theorem not_contains_of_firstChild (h : firstChild area r = none) (i : Fin 4) :
    (childRects area i).contains r = false := by
  rw [firstChild] at h
  simpa using List.find?_eq_none.1 h i (List.mem_finRange i)

/-- Every area on the way contains the rectangle. -/
theorem contains_of_prefix_home {levels : ℕ} {q : List (Fin 4)} (hq : q <+: home levels area r)
    (hne : q ≠ []) : (areaAt area q).contains r = true := by
  induction levels generalizing area q with
  | zero => exact absurd (List.prefix_nil.1 hq) hne
  | succ levels ih =>
    cases hfind : firstChild area r with
    | some i =>
      rw [home_of_some hfind, List.prefix_cons_iff] at hq
      obtain ⟨q', rfl, hq'⟩ := hq.resolve_left hne
      rw [areaAt]
      by_cases hnil : q' = []
      · rw [hnil, areaAt]
        exact contains_of_firstChild hfind
      · exact ih hq' hnil
    | none =>
      rw [home_of_none hfind, List.prefix_nil] at hq
      exact absurd hq hne

/-- Above the last level no child of the home contains the rectangle. -/
theorem not_contains_home {levels : ℕ} (hlt : (home levels area r).length < levels) (i : Fin 4) :
    (childRects (areaAt area (home levels area r)) i).contains r = false := by
  induction levels generalizing area with
  | zero => exact absurd hlt (Nat.not_lt_zero _)
  | succ levels ih =>
    cases hfind : firstChild area r with
    | some j =>
      rw [home_of_some hfind] at hlt ⊢
      rw [areaAt]
      exact ih (Nat.lt_of_succ_lt_succ hlt)
    | none =>
      rw [home_of_none hfind]
      exact not_contains_of_firstChild hfind i

end Areas

/-! ### Trees -/

/-- The fields of a node other than its children. -/
structure QuadNode (K T : Type*) where
  depth_ : ℕ
  rect_ : rect K
  child_rects : Fin 4 → rect K
  items_ : List (rect K × T)

/-- A `QuadTree` behind a pointer. -/
inductive QuadTree (K T : Type*)
  | null
  | node (n : QuadNode K T) (potential_child : Fin 4 → QuadTree K T)

namespace QuadTree

variable {K T : Type*}

/-- `items(list_items)`. -/
def items : QuadTree K T → List T → List T
  | null, list_items => list_items
  | node n potential_child, list_items =>
    (List.finRange 4).foldl (fun list_items i => (potential_child i).items list_items)
      (list_items ++ n.items_.map Prod.snd)

/-- The number of nodes. -/
def nodes : QuadTree K T → ℕ
  | null => 0
  | node _ potential_child => 1 + ((List.finRange 4).map fun i => (potential_child i).nodes).sum

/-- The node at the end of a path. -/
def nodeAt : QuadTree K T → List (Fin 4) → Option (QuadNode K T)
  | null, _ => none
  | node n _, [] => some n
  | node _ potential_child, i :: p => (potential_child i).nodeAt p

/-- What is stored, with the paths to the nodes it is stored in. -/
def stored : QuadTree K T → List (List (Fin 4) × (rect K × T))
  | null => []
  | node n potential_child =>
    n.items_.map (fun e => ([], e)) ++ (List.finRange 4).flatMap fun i =>
      (potential_child i).stored.map fun pe => (i :: pe.1, pe.2)

theorem mem_stored {t : QuadTree K T} {p : List (Fin 4)} {e : rect K × T} :
    (p, e) ∈ t.stored ↔ ∃ n, t.nodeAt p = some n ∧ e ∈ n.items_ := by
  induction t generalizing p with
  | null => simp [stored, nodeAt]
  | node n potential_child ih =>
    cases p with
    | nil => simp [stored, nodeAt]
    | cons i p => simp [stored, nodeAt, ← ih]

theorem exists_nodeAt_of_prefix {t : QuadTree K T} {p q : List (Fin 4)} {n : QuadNode K T}
    (h : t.nodeAt p = some n) (hq : q <+: p) : ∃ m, t.nodeAt q = some m := by
  induction q generalizing t p with
  | nil =>
    cases t with
    | null => cases h
    | node m potential_child => exact ⟨m, rfl⟩
  | cons i q ih =>
    obtain ⟨rest, rfl⟩ := hq
    cases t with
    | null => cases h
    | node m potential_child => exact ih h (List.prefix_append ..)

theorem items_eq (t : QuadTree K T) (list_items : List T) :
    t.items list_items = list_items ++ t.stored.map fun pe => pe.2.2 := by
  induction t generalizing list_items with
  | null => simp [items, stored]
  | node n potential_child ih =>
    have hloop : ∀ (is : List (Fin 4)) (list_items : List T),
        is.foldl (fun list_items i => (potential_child i).items list_items) list_items =
          list_items ++ is.flatMap fun i => (potential_child i).stored.map fun pe => pe.2.2 := by
      intro is
      induction is with
      | nil => simp
      | cons i is ihs =>
        intro list_items
        rw [List.foldl_cons, ihs, ih, List.flatMap_cons, List.append_assoc]
    rw [items, hloop, stored, List.map_append, List.map_map, List.append_assoc, List.map_flatMap]
    simp only [List.map_map]
    rfl

theorem stored_update {n : QuadNode K T} {potential_child : Fin 4 → QuadTree K T} {i : Fin 4}
    {child : QuadTree K T} {p : List (Fin 4)} {e : rect K × T}
    (h : child.stored.Perm ((p, e) :: (potential_child i).stored)) :
    (node n (Function.update potential_child i child)).stored.Perm
      ((i :: p, e) :: (node n potential_child).stored) := by
  rw [stored, stored]
  refine (List.Perm.append_left _ ?_).trans List.perm_middle
  refine flatMap_perm_cons (List.nodup_finRange 4) (List.mem_finRange i) ?_ fun j hj => ?_
  · rw [Function.update_self]
    exact h.map _
  · rw [Function.update_of_ne hj]

/-- What decreases along the recursion of `insert`: a new node has a level less below it. -/
def measure : QuadTree K T → ℕ
  | null => 0
  | node n potential_child => MaxDepth * (node n potential_child).nodes + (MaxDepth - n.depth_)

theorem nodes_child_lt (n : QuadNode K T) (potential_child : Fin 4 → QuadTree K T) (i : Fin 4) :
    (potential_child i).nodes < (node n potential_child).nodes := by
  have hle : (potential_child i).nodes ≤
      ((List.finRange 4).map fun i => (potential_child i).nodes).sum :=
    List.le_sum_of_mem (List.mem_map_of_mem (List.mem_finRange i))
  rw [nodes]
  omega

section Insert

variable [Field K]

/-- `clear()`. -/
def clear : QuadTree K T → QuadTree K T
  | null => null
  | node n _ => node { n with items_ := [] } fun _ => null

/-- `resize(area)`. -/
def resize (t : QuadTree K T) (area : rect K) : QuadTree K T :=
  match t.clear with
  | null => null
  | node n potential_child =>
    node { n with rect_ := area, child_rects := childRects area } potential_child

/-- The constructor, which calls `resize`. -/
def new (size : rect K) (depth : ℕ) : QuadTree K T :=
  resize (node ⟨depth, size, fun _ => size, []⟩ fun _ => null) size

/-- A child, which is made if it is not there. -/
def orNew (t : QuadTree K T) (area : rect K) (depth : ℕ) : QuadTree K T :=
  match t with
  | null => new area depth
  | node n potential_child => node n potential_child

theorem measure_orNew_lt {n : QuadNode K T} {potential_child : Fin 4 → QuadTree K T} {i : Fin 4}
    {area : rect K} (hdepth : n.depth_ + 1 < MaxDepth) :
    ((potential_child i).orNew area (n.depth_ + 1)).measure < (node n potential_child).measure := by
  have hlt := nodes_child_lt n potential_child i
  cases hchild : potential_child i with
  | null =>
    have hnew : (new area (n.depth_ + 1) : QuadTree K T).measure =
        MaxDepth + (MaxDepth - (n.depth_ + 1)) := by
      simp [new, resize, clear, measure, nodes]
    rw [orNew, hnew, measure]
    unfold MaxDepth at hdepth ⊢
    omega
  | node m grandchild =>
    rw [hchild] at hlt
    simp only [orNew, measure]
    unfold MaxDepth at hdepth ⊢
    omega

theorem orNew_ne_null (t : QuadTree K T) (area : rect K) (depth : ℕ) : t.orNew area depth ≠ null := by
  cases t <;> simp [orNew, new, resize, clear]

theorem stored_orNew (t : QuadTree K T) (area : rect K) (depth : ℕ) :
    (t.orNew area depth).stored = t.stored := by
  cases t with
  | null => simp [orNew, new, resize, clear, stored]
  | node => rfl

/-- A tree below an area, from a level on: every node has the area and the level of its path. -/
def Shaped : QuadTree K T → rect K → ℕ → Prop
  | null, _, _ => True
  | node n potential_child, area, depth =>
    n.depth_ = depth ∧ n.rect_ = area ∧ n.child_rects = childRects area ∧ depth < MaxDepth ∧
      ∀ i, (potential_child i).Shaped (childRects area i) (depth + 1)

theorem Shaped.orNew {t : QuadTree K T} {area : rect K} {depth : ℕ} (ht : t.Shaped area depth)
    (hdepth : depth < MaxDepth) : (t.orNew area depth).Shaped area depth := by
  cases t with
  | null => exact ⟨rfl, rfl, rfl, hdepth, fun _ => trivial⟩
  | node => exact ht

theorem Shaped.nodeAt {t : QuadTree K T} {area : rect K} {depth : ℕ} (ht : t.Shaped area depth)
    {p : List (Fin 4)} {n : QuadNode K T} (h : t.nodeAt p = some n) :
    n.depth_ = depth + p.length ∧ n.rect_ = areaAt area p ∧ n.child_rects = childRects n.rect_ ∧
      n.depth_ < MaxDepth := by
  induction p generalizing t area depth with
  | nil =>
    cases t with
    | null => cases h
    | node m potential_child =>
      obtain rfl := Option.some.inj h
      obtain ⟨hdepth, hrect, hchild, hlt, -⟩ := ht
      exact ⟨hdepth, hrect, by rw [hchild, hrect], by rwa [hdepth]⟩
  | cons i p ih =>
    cases t with
    | null => cases h
    | node m potential_child =>
      obtain ⟨hdepth, hrest⟩ := ih (ht.2.2.2.2 i) h
      exact ⟨by rw [hdepth, List.length_cons]; omega, hrest⟩

variable [LinearOrder K]

/-- `insert(item, itemsize)`. -/
def insert (t : QuadTree K T) (item : T) (itemsize : rect K) : QuadTree K T :=
  match t with
  | null => null
  | node n potential_child =>
    match hfind : (List.finRange 4).find? fun i =>
        (n.child_rects i).contains itemsize && decide (n.depth_ + 1 < MaxDepth) with
    | some i =>
      node n (Function.update potential_child i
        (((potential_child i).orNew (n.child_rects i) (n.depth_ + 1)).insert item itemsize))
    | none => node { n with items_ := n.items_ ++ [(itemsize, item)] } potential_child
termination_by t.measure
decreasing_by
  have hdepth := List.find?_some hfind
  rw [Bool.and_eq_true, decide_eq_true_eq] at hdepth
  exact measure_orNew_lt hdepth.2

/-- **Inserting adds an item at its home.** -/
theorem insert_spec {t : QuadTree K T} {area : rect K} {depth : ℕ} (item : T) (r : rect K)
    (ht : t.Shaped area depth) (hne : t ≠ null) :
    (t.insert item r).Shaped area depth ∧ t.insert item r ≠ null ∧
      (t.insert item r).stored.Perm
        ((home (MaxDepth - 1 - depth) area r, (r, item)) :: t.stored) := by
  fun_induction insert t item r generalizing area depth with
  | case1 => exact absurd rfl hne
  | case2 n potential_child i hfind ih =>
    obtain ⟨hdepth, hrect, hchild, hlt, hall⟩ := ht
    have hfound := List.find?_some hfind
    rw [Bool.and_eq_true, decide_eq_true_eq, hdepth] at hfound
    have hfirst : firstChild area r = some i := by
      simpa [firstChild, ← hchild, hdepth, hfound.2] using hfind
    rw [hchild, hdepth] at ih ⊢
    obtain ⟨hshape, -, hperm⟩ := ih ((hall i).orNew hfound.2) (orNew_ne_null _ _ _)
    refine ⟨⟨hdepth, hrect, hchild, hlt, fun j => ?_⟩, by simp, ?_⟩
    · by_cases hj : j = i
      · subst hj
        rw [Function.update_self]
        exact hshape
      · rw [Function.update_of_ne hj]
        exact hall j
    · have hlevels : MaxDepth - 1 - depth = MaxDepth - 1 - (depth + 1) + 1 := by omega
      rw [hlevels, home_of_some hfirst]
      rw [stored_orNew] at hperm
      exact stored_update hperm
  | case3 n potential_child hfind =>
    obtain ⟨hdepth, hrect, hchild, hlt, hall⟩ := ht
    have hhome : home (MaxDepth - 1 - depth) area r = [] := by
      by_cases hlevel : depth + 1 < MaxDepth
      · have hfirst : firstChild area r = none := by
          simpa [firstChild, ← hchild, hdepth, hlevel] using hfind
        have hlevels : MaxDepth - 1 - depth = MaxDepth - 1 - (depth + 1) + 1 := by omega
        rw [hlevels, home_of_none hfirst]
      · have hlevels : MaxDepth - 1 - depth = 0 := by omega
        rw [hlevels, home]
    refine ⟨⟨hdepth, hrect, hchild, hlt, hall⟩, by simp, ?_⟩
    rw [hhome, stored, stored, List.map_append, List.append_assoc]
    exact List.perm_middle

/-- `insert` of one item after the other. -/
def insertAll (t : QuadTree K T) (inserted : List (rect K × T)) : QuadTree K T :=
  inserted.foldl (fun t e => t.insert e.2 e.1) t

/-- **What is stored after inserting**: all that was inserted, each item at its home. -/
theorem stored_insertAll {t : QuadTree K T} {area : rect K} {depth : ℕ}
    (inserted : List (rect K × T)) (ht : t.Shaped area depth) (hne : t ≠ null) :
    (t.insertAll inserted).Shaped area depth ∧
      (t.insertAll inserted).stored.Perm
        (t.stored ++ inserted.map fun e => (home (MaxDepth - 1 - depth) area e.1, e)) := by
  induction inserted generalizing t with
  | nil => exact ⟨ht, by simp [insertAll]⟩
  | cons e inserted ih =>
    obtain ⟨hshape, hne', hperm⟩ := insert_spec e.2 e.1 ht hne
    obtain ⟨hshape', hperm'⟩ := ih hshape hne'
    refine ⟨hshape', hperm'.trans ?_⟩
    rw [List.map_cons]
    exact (hperm.append_right _).trans List.perm_middle.symm

/-- After inserting below a root area: `items` gives what was inserted, with multiplicities; every item
is in one node; nodes are where and as deep as their paths say; the areas below the root, on the way
to an item, contain it; and it could not have gone further down. -/
structure InPlace (area : rect K) (inserted : List (rect K × T)) (t : QuadTree K T) : Prop where
  items : (t.items []).Perm (inserted.map Prod.snd)
  once : (t.stored.map Prod.snd).Perm inserted
  oneNode : ∀ e ∈ inserted, ∃! p, ∃ n, t.nodeAt p = some n ∧ e ∈ n.items_
  nodes : ∀ p n, t.nodeAt p = some n →
    n.depth_ = p.length ∧ n.rect_ = areaAt area p ∧ n.child_rects = childRects n.rect_
  depth : ∀ p n, t.nodeAt p = some n → n.depth_ ≤ MaxDepth - 1
  contained : ∀ p n, t.nodeAt p = some n → ∀ e ∈ n.items_, ∀ q, q <+: p → q ≠ [] →
    ∃ m, t.nodeAt q = some m ∧ m.rect_.contains e.1 = true
  lowest : ∀ p n, t.nodeAt p = some n → n.depth_ < MaxDepth - 1 → ∀ e ∈ n.items_,
    ∀ i, (n.child_rects i).contains e.1 = false

theorem eq_home_of_nodeAt {t : QuadTree K T} {levels : ℕ} {area : rect K}
    {inserted : List (rect K × T)} {p : List (Fin 4)} {n : QuadNode K T} {e : rect K × T}
    (hstored : t.stored.Perm (inserted.map fun e => (home levels area e.1, e)))
    (hn : t.nodeAt p = some n) (he : e ∈ n.items_) : p = home levels area e.1 := by
  obtain ⟨e', -, heq⟩ := List.mem_map.1 (hstored.subset (mem_stored.2 ⟨n, hn, he⟩))
  obtain ⟨rfl, rfl⟩ := Prod.mk.inj heq
  rfl

/-- A tree that stores every item at its home has them once and in place. -/
theorem inPlace_of_stored {t : QuadTree K T} {area : rect K} {inserted : List (rect K × T)}
    (hshape : t.Shaped area 0)
    (hstored : t.stored.Perm (inserted.map fun e => (home (MaxDepth - 1) area e.1, e))) :
    InPlace area inserted t := by
  have honce : (t.stored.map Prod.snd).Perm inserted := by
    simpa [List.map_map, Function.comp_def] using hstored.map Prod.snd
  constructor
  case items =>
    rw [items_eq, List.nil_append]
    simpa [List.map_map, Function.comp_def] using honce.map Prod.snd
  case once => exact honce
  case oneNode =>
    intro e he
    obtain ⟨⟨p, e'⟩, hmem, rfl⟩ := List.mem_map.1 (honce.symm.subset he)
    obtain ⟨m, hm, hem⟩ := mem_stored.1 hmem
    refine ⟨p, ⟨m, hm, hem⟩, ?_⟩
    rintro q ⟨n, hn, hen⟩
    rw [eq_home_of_nodeAt hstored hn hen, eq_home_of_nodeAt hstored hm hem]
  case nodes =>
    intro p n hn
    obtain ⟨hdepth, hrect, hchild, -⟩ := hshape.nodeAt hn
    exact ⟨by rw [hdepth, Nat.zero_add], hrect, hchild⟩
  case depth =>
    intro p n hn
    exact Nat.le_pred_of_lt (hshape.nodeAt hn).2.2.2
  case contained =>
    intro p n hn e he q hq hnil
    obtain ⟨m, hm⟩ := exists_nodeAt_of_prefix hn hq
    refine ⟨m, hm, ?_⟩
    rw [eq_home_of_nodeAt hstored hn he] at hq
    rw [(hshape.nodeAt hm).2.1]
    exact contains_of_prefix_home hq hnil
  case lowest =>
    intro p n hn hlt e he i
    obtain ⟨hdepth, hrect, hchild, -⟩ := hshape.nodeAt hn
    have hp := eq_home_of_nodeAt hstored hn he
    rw [hchild, hrect, hp]
    refine not_contains_home ?_ i
    rw [← hp]
    omega

/-- **Insertion keeps every item once and in place**, whatever was in the tree before `resize`. -/
theorem inPlace_insertAll (rect_ area : rect K) (child_rects : Fin 4 → rect K)
    (items_ : List (rect K × T)) (potential_child : Fin 4 → QuadTree K T)
    (inserted : List (rect K × T)) :
    InPlace area inserted
      (((node ⟨0, rect_, child_rects, items_⟩ potential_child).resize area).insertAll inserted) := by
  have hstart : ((node ⟨0, rect_, child_rects, items_⟩ potential_child).resize area).Shaped area 0 :=
    ⟨rfl, rfl, rfl, by decide, fun _ => trivial⟩
  have hempty :
      ((node ⟨0, rect_, child_rects, items_⟩ potential_child).resize area).stored = [] := by
    simp [resize, clear, stored]
  obtain ⟨hshape, hstored⟩ := stored_insertAll inserted hstart (by simp [resize, clear])
  rw [hempty, List.nil_append] at hstored
  exact inPlace_of_stored hshape hstored

end Insert

end QuadTree

end bb

end ClientServer
