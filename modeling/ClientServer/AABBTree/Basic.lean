import ClientServer.AABBTree.Box
import ClientServer.Data.Store
import Mathlib.Tactic.Linarith

/-!
# The dynamic AABB tree

`DynamicAABBTree` of `dynamic_aabb_tree.h`, function by function.  Nodes live in the vector
`nodes` and name each other by index, with `-1` for `Null`.  The two unions of `Node` are kept:
the free-list link `next` is the field `parent` and the `userData` of a leaf is the field
`left`.

The loops of the source run on a fuel argument (`none` when it is used up); the operations
start them with the size of the pool, and the theorems show that this is always enough.
Coordinates are in an ordered field and `int32_t` is `ℤ`: the pool never gets near `2^31`
nodes.
-/

namespace ClientServer

/-- `Null`: no node. -/
def Null : ℤ := -1

/-- `DynamicAABBTree::Node`. -/
structure Node (K : Type*) where
  /-- Fat box of a leaf, bounding box of a branch. -/
  aabb : AABB2 K
  /-- The parent; on the free list the next free node. -/
  parent : ℤ
  /-- The left child; the user data of a leaf. -/
  left : ℤ
  /-- The right child; `Null` in a leaf. -/
  right : ℤ
  /-- `0` for a leaf, `-1` for a free node. -/
  height : ℤ
  deriving DecidableEq

namespace Node

variable {K : Type*} (n : Node K)

/-- `IsLeaf()`. -/
def IsLeaf : Prop := n.right = Null

instance : Decidable n.IsLeaf := inferInstanceAs (Decidable (n.right = Null))

/-- The free-list link shares its memory with `parent`. -/
abbrev next : ℤ := n.parent

/-- The user data shares its memory with `left`. -/
abbrev userData : ℤ := n.left

/-- A value-initialised node. -/
def zero [Zero K] : Node K := ⟨⟨⟨0, 0⟩, ⟨0, 0⟩⟩, 0, 0, 0, 0⟩

end Node

namespace AABB2

variable {K : Type*} [Field K]

/-- `FattenAABB(aabb)`: two units on every side. -/
def fatten (a : AABB2 K) : AABB2 K :=
  ⟨⟨a.min.x - 2, a.min.y - 2⟩, ⟨a.max.x + 2, a.max.y + 2⟩⟩

theorem contains_fatten [LinearOrder K] [IsStrictOrderedRing K] (a : AABB2 K) :
    a.fatten.contains a = true := by
  rw [contains_iff]
  simp only [fatten]
  exact ⟨by linarith, by linarith, by linarith, by linarith⟩

end AABB2

/-- `DynamicAABBTree`. -/
structure DynamicAABBTree (K : Type*) where
  freeList : ℤ
  root : ℤ
  size : ℤ
  count : ℤ
  nodes : Store (Node K)

namespace DynamicAABBTree

variable {K : Type*}

/-- `nodes_[i]`. -/
def node (t : DynamicAABBTree K) (i : ℤ) : Node K := t.nodes.cell i

/-- Assign fields of `nodes_[i]`. -/
def modify (t : DynamicAABBTree K) (i : ℤ) (f : Node K → Node K) : DynamicAABBTree K :=
  { t with nodes := t.nodes.modify i f }

/-! ### The node pool -/

/-- The loop of `AddToFreeList`: `n` iterations from `i`. -/
def addToFreeListLoop (t : DynamicAABBTree K) : ℕ → ℤ → DynamicAABBTree K
  | 0, _ => t
  | n + 1, i =>
    addToFreeListLoop (t.modify i fun x => { x with parent := i + 1, height := Null }) n (i + 1)

/-- `AddToFreeList(index)`. -/
def addToFreeList (t : DynamicAABBTree K) (index : ℤ) : DynamicAABBTree K :=
  let t := t.addToFreeListLoop (t.size - 1 - index).toNat index
  let t := t.modify (t.size - 1) fun x => { x with parent := Null, height := Null }
  { t with freeList := index }

section Construct

variable [Zero K]

/-- `DynamicAABBTree(size)`; the constructor does not set `count_`. -/
def construct (size count : ℤ) : DynamicAABBTree K :=
  addToFreeList ⟨Null, Null, size, count, Store.replicate size Node.zero⟩ 0

/-- The growth branch of `AllocateNode`. -/
def grow (t : DynamicAABBTree K) : DynamicAABBTree K :=
  let size := t.size * 2
  addToFreeList { t with size := size, nodes := t.nodes.resize size Node.zero } t.count

/-- The growth branch of `AllocateLeafNode`. -/
def growLeaf (t : DynamicAABBTree K) : DynamicAABBTree K :=
  let size := t.size * 2
  addToFreeList { t with size := size, nodes := t.nodes.resize t.count Node.zero } t.count

end Construct

/-- The second half of `AllocateNode`: take the first free node. -/
def takeFree (t : DynamicAABBTree K) : DynamicAABBTree K × ℤ :=
  let freeNode := t.freeList
  let t := { t with freeList := (t.node freeNode).next }
  let t := t.modify freeNode fun x =>
    { x with height := 0, left := Null, right := Null, parent := Null }
  let t := t.modify freeNode fun x => { x with left := -1 } -- `userData = -1`
  ({ t with count := t.count + 1 }, freeNode)

/-- `AllocateNode()`. -/
def allocateNode [Zero K] (t : DynamicAABBTree K) : DynamicAABBTree K × ℤ :=
  let t := if t.freeList = Null then t.grow else t
  t.takeFree

/-- `AllocateLeafNode(box)`; the box is not used. -/
def allocateLeafNode [Zero K] (t : DynamicAABBTree K) (_box : AABB2 K) : DynamicAABBTree K × ℤ :=
  let t := if t.freeList = Null then t.growLeaf else t
  t.takeFree

/-- `DeallocateNode(index)`. -/
def deallocateNode (t : DynamicAABBTree K) (index : ℤ) : DynamicAABBTree K :=
  let t := t.modify index fun x => { x with parent := t.freeList, height := Null }
  { t with freeList := index, count := t.count - 1 }

/-! ### Rotations -/

/-- Make the link that led from `parent` to `old` lead to `new`; under `Null` the link is
`root_`. -/
def replaceChild (t : DynamicAABBTree K) (parent old new : ℤ) : DynamicAABBTree K :=
  if parent ≠ Null then
    if (t.node parent).left = old then t.modify parent fun x => { x with left := new }
    else t.modify parent fun x => { x with right := new }
  else { t with root := new }

/-- Assign the box and the height of node `i` from the nodes `l` and `r`. -/
def refit [LinearOrder K] (t : DynamicAABBTree K) (i l r : ℤ) : DynamicAABBTree K :=
  t.modify i fun x =>
    { x with
      aabb := AABB2.union (t.node l).aabb (t.node r).aabb
      height := 1 + max (t.node l).height (t.node r).height }

/-- `Balance(iA)`, with the index that now stands where `iA` stood. -/
def balance [LinearOrder K] (t : DynamicAABBTree K) (iA : ℤ) : DynamicAABBTree K × ℤ :=
  let A := t.node iA
  if A.IsLeaf ∨ A.height = 1 then (t, iA)
  else
    let iB := A.left
    let iC := A.right
    let balance := (t.node iC).height - (t.node iB).height
    if balance > 1 then
      -- C is higher, promote C
      let iF := (t.node iC).left
      let iG := (t.node iC).right
      let t := t.replaceChild A.parent iA iC
      let t := t.modify iC fun x => { x with left := iA, parent := A.parent }
      let t := t.modify iA fun x => { x with parent := iC }
      if (t.node iF).height > (t.node iG).height then
        let t := t.modify iC fun x => { x with right := iF }
        let t := t.modify iA fun x => { x with right := iG }
        let t := t.modify iG fun x => { x with parent := iA }
        ((t.refit iA iB iG).refit iC iA iF, iC)
      else
        let t := t.modify iC fun x => { x with right := iG }
        let t := t.modify iA fun x => { x with right := iF }
        let t := t.modify iF fun x => { x with parent := iA }
        ((t.refit iA iB iF).refit iC iA iG, iC)
    else if balance < -1 then
      -- B is higher, promote B
      let iD := (t.node iB).left
      let iE := (t.node iB).right
      let t := t.replaceChild A.parent iA iB
      let t := t.modify iB fun x => { x with right := iA, parent := A.parent }
      let t := t.modify iA fun x => { x with parent := iB }
      if (t.node iD).height > (t.node iE).height then
        let t := t.modify iB fun x => { x with left := iD }
        let t := t.modify iA fun x => { x with left := iE }
        let t := t.modify iE fun x => { x with parent := iA }
        ((t.refit iA iC iE).refit iB iA iD, iB)
      else
        let t := t.modify iB fun x => { x with left := iE }
        let t := t.modify iA fun x => { x with left := iD }
        let t := t.modify iD fun x => { x with parent := iA }
        ((t.refit iA iC iD).refit iB iA iE, iB)
    else (t, iA)

/-- `SyncHeirarchy(index)`: balance and refit every node from `index` up to the root. -/
def syncHeirarchy [LinearOrder K] : ℕ → DynamicAABBTree K → ℤ → Option (DynamicAABBTree K)
  | 0, t, index => if index = Null then some t else none
  | fuel + 1, t, index =>
    if index = Null then some t
    else
      let (t, index) := t.balance index
      let t := t.refit index (t.node index).left (t.node index).right
      syncHeirarchy fuel t (t.node index).parent

/-! ### Insertion -/

section Insert

variable [Field K] [LinearOrder K]

/-- The cost of descending into a child: the box of a new branch if the child is a leaf, the
growth of the child's box otherwise, plus the inherited cost. -/
def descentCost (t : DynamicAABBTree K) (leafAABB : AABB2 K) (child : ℤ) (inheritedCost : K) : K :=
  if (t.node child).IsLeaf then
    (AABB2.union leafAABB (t.node child).aabb).surfaceArea + inheritedCost
  else
    let inflated := (AABB2.union leafAABB (t.node child).aabb).surfaceArea
    let branchArea := (t.node child).aabb.surfaceArea
    inflated - branchArea + inheritedCost

/-- One turn of the search for a sibling: `none` stops at this branch, `some i` goes on to the
child `i`. -/
def descentStep (t : DynamicAABBTree K) (leafAABB : AABB2 K) (searchIndex : ℤ) : Option ℤ :=
  let box := (t.node searchIndex).aabb
  let combinedArea := (AABB2.union leafAABB box).surfaceArea
  let branchCost := 2 * combinedArea
  let inheritedCost := 2 * (combinedArea - box.surfaceArea)
  let left := (t.node searchIndex).left
  let right := (t.node searchIndex).right
  let leftDescentCost := t.descentCost leafAABB left inheritedCost
  let rightDescentCost := t.descentCost leafAABB right inheritedCost
  if branchCost < leftDescentCost ∧ branchCost < rightDescentCost then none
  else if leftDescentCost < rightDescentCost then some left
  else some right

/-- The search loop of `InsertLeaf`. -/
def searchSibling (t : DynamicAABBTree K) (leafAABB : AABB2 K) : ℕ → ℤ → Option ℤ
  | 0, _ => none
  | fuel + 1, searchIndex =>
    if (t.node searchIndex).IsLeaf then some searchIndex
    else
      match t.descentStep leafAABB searchIndex with
      | none => some searchIndex
      | some child => searchSibling t leafAABB fuel child

/-- `InsertLeaf`, after the search: `newParent` takes the place of `sibling`, over it and the
leaf `id`. -/
def linkParent (t : DynamicAABBTree K) (id sibling newParent : ℤ) (leafAABB : AABB2 K)
    (oldParent : ℤ) : DynamicAABBTree K :=
  let t := t.modify newParent fun x =>
    { x with
      parent := oldParent
      left := -1 -- `userData = -1`
      aabb := AABB2.union leafAABB (t.node sibling).aabb
      height := (t.node sibling).height + 1 }
  let t := t.replaceChild oldParent sibling newParent
  let t := t.modify newParent fun x => { x with left := sibling, right := id }
  let t := t.modify sibling fun x => { x with parent := newParent }
  t.modify id fun x => { x with parent := newParent }

/-- The second half of `InsertLeaf`: a new parent for `sibling` and the leaf `id`. -/
def linkLeaf (t : DynamicAABBTree K) (id sibling : ℤ) (leafAABB : AABB2 K) :
    Option (DynamicAABBTree K) :=
  let oldParent := (t.node sibling).parent
  let (t, newParent) := t.allocateNode
  let t := t.linkParent id sibling newParent leafAABB oldParent
  syncHeirarchy t.size.toNat t (t.node id).parent

/-- `InsertLeaf(id)`. -/
def insertLeaf (t : DynamicAABBTree K) (id : ℤ) : Option (DynamicAABBTree K) :=
  if t.root = Null then
    some ({ t with root := id }.modify id fun x => { x with parent := Null })
  else
    let leafAABB := (t.node id).aabb
    match t.searchSibling leafAABB t.size.toNat t.root with
    | none => none
    | some sibling => t.linkLeaf id sibling leafAABB

/-- `Insert(aabb, entity)`, with the id of the new leaf. -/
def insert (t : DynamicAABBTree K) (aabb : AABB2 K) (entity : ℤ) :
    Option (DynamicAABBTree K × ℤ) :=
  let (t, id) := t.allocateNode
  let t := t.modify id fun x => { x with aabb := aabb.fatten, left := entity, height := 0 }
  (t.insertLeaf id).map fun t => (t, id)

/-! ### Removal and update -/

/-- `RemoveLeaf`, the links: `sibling` takes the place of `parent`. -/
def unlinkParent (t : DynamicAABBTree K) (parent sibling grandParent : ℤ) : DynamicAABBTree K :=
  let t := t.replaceChild grandParent parent sibling
  t.modify sibling fun x => { x with parent := grandParent }

/-- `RemoveLeaf(id)`. -/
def removeLeaf (t : DynamicAABBTree K) (id : ℤ) : Option (DynamicAABBTree K) :=
  if id = t.root then some { t with root := Null }
  else
    let parent := (t.node id).parent
    let grandParent := (t.node parent).parent
    let sibling := if (t.node parent).left = id then (t.node parent).right
      else (t.node parent).left
    let t := t.unlinkParent parent sibling grandParent
    let t := t.deallocateNode parent
    syncHeirarchy t.size.toNat t grandParent

/-- `Remove(id)`. -/
def remove (t : DynamicAABBTree K) (id : ℤ) : Option (DynamicAABBTree K) :=
  (t.removeLeaf id).map fun t => t.deallocateNode id

/-- `Update(id, aabb)`. -/
def update (t : DynamicAABBTree K) (id : ℤ) (aabb : AABB2 K) :
    Option (DynamicAABBTree K × Bool) :=
  if (t.node id).aabb.contains aabb then some (t, false)
  else
    match t.removeLeaf id with
    | none => none
    | some t =>
      let t := t.modify id fun x => { x with aabb := aabb.fatten }
      (t.insertLeaf id).map fun t => (t, true)

end Insert

/-- `GetUserData(id)`. -/
def getUserData (t : DynamicAABBTree K) (id : ℤ) : ℤ := (t.node id).userData

/-- `GetFatAABB(id)`. -/
def getFatAABB (t : DynamicAABBTree K) (id : ℤ) : AABB2 K := (t.node id).aabb

end DynamicAABBTree

end ClientServer
