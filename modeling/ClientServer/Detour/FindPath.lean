import ClientServer.Detour.NodePool
import ClientServer.Detour.NodeQueue
import Mathlib.Algebra.Order.Field.Rat

/-!
# The path search of Detour

`dtNavMeshQuery::findPath` searches the polygons of the mesh with A*.  Every pass of its loop takes
the node with the least total from the open list and goes over the links of its polygon.  A node is
assigned a new parent whenever this makes its total smaller, even if it was already closed; then it
is opened again.

What is read of the mesh is a parameter, with the chain of the links of a polygon as a list.
Coordinates and costs are in exact arithmetic.

* `PathQuery.expand` : what is done for one link.
* `PathQuery.turn` : one pass of the loop.
* `dtNodePool.getPathToNode` : the way back along the parents, cut off at `maxPath`.
* `PathQuery.findPath` : the function.
-/

namespace ClientServer

/-- `dtLink`: the polygon it leads to, and the side of the tile it crosses. -/
structure dtLink where
  ref : dtPolyRef
  side : UInt8

/-- `crossSide`: the side by which the neighbour is entered. -/
def dtLink.crossSide (link : dtLink) : UInt8 := if link.side ≠ 0xff then link.side >>> 1 else 0

/-- What the search reads of a `dtNavMesh`. -/
structure PathMesh (F : Type*) where
  isValidPolyRef : dtPolyRef → Bool
  /-- The links of a polygon, from `firstLink` on. -/
  links : dtPolyRef → List dtLink
  /-- `dtPoly::flags`. -/
  flags : dtPolyRef → UInt16
  /-- `dtPoly::getArea()`. -/
  getArea : dtPolyRef → UInt8
  /-- The middle of the edge between two linked polygons. -/
  getEdgeMidPoint : dtPolyRef → dtPolyRef → dtVec F

/-- `dtQueryFilter`. -/
structure dtQueryFilter (F : Type*) where
  m_areaCost : UInt8 → F
  m_includeFlags : UInt16
  m_excludeFlags : UInt16

/-- A call of `findPath`: the mesh, the filter, the distance of points, and what is asked for. -/
structure PathQuery (F : Type*) where
  mesh : PathMesh F
  filter : dtQueryFilter F
  dtVdist : dtVec F → dtVec F → F
  startRef : dtPolyRef
  endRef : dtPolyRef
  startPos : dtVec F
  endPos : dtVec F

/-- The state of the search. -/
structure PathSearch (F : Type*) where
  nodePool : dtNodePool F
  openList : dtNodeQueue
  lastBestNode : ℕ
  lastBestNodeCost : F
  outOfNodes : Bool

/-- `dtNode::total`, of the nodes of a pool. -/
def dtNodePool.totals {F : Type*} (p : dtNodePool F) (i : ℕ) : F := (p.m_nodes i).total

namespace PathQuery

variable {F : Type*} (q : PathQuery F)

/-- `dtQueryFilter::passFilter`. -/
def passFilter (ref : dtPolyRef) : Bool :=
  q.mesh.flags ref &&& q.filter.m_includeFlags ≠ 0 ∧
    q.mesh.flags ref &&& q.filter.m_excludeFlags = 0

variable [Field F]

/-- `dtQueryFilter::getCost`, of which only the current polygon matters. -/
def getCost (pa pb : dtVec F) (curRef : dtPolyRef) : F :=
  q.dtVdist pa pb * q.filter.m_areaCost (q.mesh.getArea curRef)

/-- `H_SCALE`. -/
def H_SCALE : F := 999 / 1000

/-- The cost of the neighbour at `pos`, seen from the node `bestNode`, and the heuristic; the last
node has the way to the end in its cost. -/
def costs (bestNode : dtNode F) (pos : dtVec F) (neighbourRef : dtPolyRef) : F × F :=
  if neighbourRef = q.endRef then
    let curCost := q.getCost bestNode.pos pos bestNode.id
    let endCost := q.getCost pos q.endPos neighbourRef
    (bestNode.cost + curCost + endCost, 0)
  else
    let curCost := q.getCost bestNode.pos pos bestNode.id
    (bestNode.cost + curCost, q.dtVdist pos q.endPos * H_SCALE)

/-- `parentRef`, in the pass of the node `best`. -/
def parentRef (p : dtNodePool F) (best : ℕ) : dtPolyRef :=
  if (p.m_nodes best).pidx = 0 then 0 else (p.m_nodes ((p.m_nodes best).pidx - 1)).id

variable [LinearOrder F]

/-- The node `i` gets the node `best` as its parent, and goes to the open list or moves in it. -/
def assign (best : ℕ) (s : PathSearch F) (i : ℕ) (neighbourRef : dtPolyRef) (cost heuristic : F) :
    PathSearch F :=
  let node := s.nodePool.m_nodes i
  let node := { node with
    pidx := best + 1, id := neighbourRef, flags := node.flags &&& ~~~DT_NODE_CLOSED, cost := cost,
    total := cost + heuristic }
  let s : PathSearch F :=
    if node.flags &&& DT_NODE_OPEN ≠ 0 then
      let pool := s.nodePool.setNode i node
      { s with nodePool := pool, openList := s.openList.modify pool.totals i }
    else
      let pool := s.nodePool.setNode i { node with flags := node.flags ||| DT_NODE_OPEN }
      { s with nodePool := pool, openList := s.openList.push pool.totals i }
  if heuristic < s.lastBestNodeCost then
    { s with lastBestNodeCost := heuristic, lastBestNode := i }
  else s

/-- The node `i` of the neighbour, as the pool returned it. -/
def visit (best : ℕ) (s : PathSearch F) (i : ℕ) (neighbourRef : dtPolyRef) : PathSearch F :=
  let bestNode := s.nodePool.m_nodes best
  let node := s.nodePool.m_nodes i
  let node :=
    if node.flags = 0 then { node with pos := q.mesh.getEdgeMidPoint bestNode.id neighbourRef }
    else node
  let s := { s with nodePool := s.nodePool.setNode i node }
  let (cost, heuristic) := q.costs bestNode node.pos neighbourRef
  let total := cost + heuristic
  if node.flags &&& DT_NODE_OPEN ≠ 0 ∧ total ≥ node.total then s
  else if node.flags &&& DT_NODE_CLOSED ≠ 0 ∧ total ≥ node.total then s
  else assign best s i neighbourRef cost heuristic

/-- What is done for one link of the node `best`. -/
def expand (best : ℕ) (parentRef : dtPolyRef) (s : PathSearch F) (link : dtLink) : PathSearch F :=
  let neighbourRef := link.ref
  if neighbourRef = 0 ∨ neighbourRef = parentRef then s
  else if q.passFilter neighbourRef then
    match s.nodePool.getNode neighbourRef link.crossSide with
    | (none, _) => { s with outOfNodes := true }
    | (some i, pool) => q.visit best { s with nodePool := pool } i neighbourRef
  else s

/-- The search before its first pass; there is always room for the first node. -/
def init (pool : dtNodePool F) (openList : dtNodeQueue) : Option (PathSearch F) :=
  match pool.clear.getNode q.startRef 0 with
  | (none, _) => none
  | (some i, pool) =>
    let total := q.dtVdist q.startPos q.endPos * H_SCALE
    let startNode := { pool.m_nodes i with
      pos := q.startPos, pidx := 0, cost := 0, total := total, id := q.startRef,
      flags := DT_NODE_OPEN }
    let pool := pool.setNode i startNode
    some ⟨pool, openList.clear.push pool.totals i, i, total, false⟩

/-- The node `best` was popped: it is closed. -/
def close (s : PathSearch F) : ℕ × PathSearch F :=
  let (best, openList) := s.openList.pop s.nodePool.totals
  let bestNode := s.nodePool.m_nodes best
  let bestNode := { bestNode with flags := (bestNode.flags &&& ~~~DT_NODE_OPEN) ||| DT_NODE_CLOSED }
  (best, { s with nodePool := s.nodePool.setNode best bestNode, openList := openList })

/-- One pass of the loop: whether it goes on, and the state. -/
def turn (s : PathSearch F) : Bool × PathSearch F :=
  if s.openList.empty then (false, s)
  else
    let (best, s) := close s
    let bestRef := (s.nodePool.m_nodes best).id
    if bestRef = q.endRef then (false, { s with lastBestNode := best })
    else
      let parentRef := parentRef s.nodePool best
      (true, (q.mesh.links bestRef).foldl (q.expand best parentRef) s)

/-- The loop. -/
def searchLoop : ℕ → PathSearch F → Option (PathSearch F)
  | 0, _ => none
  | fuel + 1, s =>
    match q.turn s with
    | (true, s) => searchLoop fuel s
    | (false, s) => some s

end PathQuery

/-! ### The way back -/

namespace dtNodePool

variable {F : Type*} (p : dtNodePool F)

/-- `getNodeAtIdx(curNode->pidx)`. -/
def parentNode (i : ℕ) : Option ℕ :=
  if (p.m_nodes i).pidx = 0 then none else some ((p.m_nodes i).pidx - 1)

/-- The length of the entire path. -/
def pathLength : ℕ → ℕ → Option ℕ
  | 0, _ => none
  | fuel + 1, i =>
    match p.parentNode i with
    | none => some 1
    | some j => (pathLength fuel j).map (· + 1)

/-- Advance `n` times; `none` is a failed assertion. -/
def advance : ℕ → Option ℕ → Option ℕ
  | 0, curNode => curNode
  | n + 1, curNode => curNode.bind fun i => advance n (p.parentNode i)

/-- Write the first `n` entries of the path, the last one first. -/
def writePath : ℕ → Option ℕ → List dtPolyRef → Option (List dtPolyRef)
  | 0, _, path => some path
  | n + 1, curNode, path =>
    curNode.bind fun i => writePath n (p.parentNode i) ((p.m_nodes i).id :: path)

/-- `getPathToNode`: the path, and whether the buffer was too small. -/
def getPathToNode (fuel endNode maxPath : ℕ) : Option (List dtPolyRef × Bool) :=
  match p.pathLength fuel endNode with
  | none => none
  | some length =>
    (p.writePath (min length maxPath) (p.advance (length - maxPath) (some endNode)) []).map
      fun path => (path, decide (length > maxPath))

end dtNodePool

/-- What `findPath` returns when it does not fail: the path, and the details of the status. -/
structure PathResult where
  path : List dtPolyRef
  bufferTooSmall : Bool
  partialResult : Bool
  outOfNodes : Bool
  deriving DecidableEq

namespace PathQuery

variable {F : Type*} [Field F] [LinearOrder F] (q : PathQuery F)

/-- `findPath`, of finite positions: the inner `none` is `DT_FAILURE`. -/
def findPath (pool : dtNodePool F) (openList : dtNodeQueue) (maxPath fuel : ℕ) :
    Option (Option PathResult) :=
  if !q.mesh.isValidPolyRef q.startRef || !q.mesh.isValidPolyRef q.endRef || maxPath = 0 then
    some none
  else if q.startRef = q.endRef then some (some ⟨[q.startRef], false, false, false⟩)
  else
    match (q.init pool openList).bind (q.searchLoop fuel) with
    | none => none
    | some s =>
      (s.nodePool.getPathToNode fuel s.lastBestNode maxPath).map fun (path, bufferTooSmall) =>
        some ⟨path, bufferTooSmall, (s.nodePool.m_nodes s.lastBestNode).id ≠ q.endRef,
          s.outOfNodes⟩

end PathQuery

/-- Four rooms around a pillar, along a line, and a fifth one without doors. -/
def fourRooms (endRef : dtPolyRef) : PathQuery ℚ where
  mesh :=
    { isValidPolyRef := fun r => r ≠ 0 ∧ r ≤ 5
      links := fun r =>
        if r = 1 ∨ r = 4 then [⟨2, 0xff⟩, ⟨3, 0xff⟩]
        else if r = 2 ∨ r = 3 then [⟨1, 0xff⟩, ⟨4, 0xff⟩]
        else []
      flags := fun _ => 1
      getArea := fun _ => 0
      getEdgeMidPoint := fun _ r => ⟨if r = 2 then -3 else if r = 3 then 2 else 4, 0, 0⟩ }
  filter := ⟨fun _ => 1, 0xffff, 0⟩
  dtVdist a b := if a.x ≤ b.x then b.x - a.x else a.x - b.x
  startRef := 1
  endRef := endRef
  startPos := ⟨0, 0, 0⟩
  endPos := ⟨5, 0, 0⟩

end ClientServer
