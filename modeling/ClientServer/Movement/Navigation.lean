import ClientServer.Schema.Tables
import Mathlib.Data.List.Chain
import Mathlib.Algebra.Order.Field.Rat

/-!
# Navigation

`Navigation` of both programs, over the queries of Detour: these are parameters, and say of every
call what it answers, if it succeeds.  Positions are in the axis order of Detour there, with the
height in the middle.

* `Navigation.raycast`, `Navigation.findPath`, `Navigation.findRandomPointInCircle` : the functions.
* `Detour.Lawful` : what Detour documents of its path queries.
* `Navigation.findsWay_iff` : **when a path is found** that leads to the end: where the line to it
  is clear.  Around obstacles there is none, as the references of the polygons do not come back
  from the ray cast.
-/

namespace ClientServer

variable {F : Type*}

/-- A position as Detour has it. -/
structure dtVec (F : Type*) where
  x : F
  y : F
  z : F
  deriving DecidableEq

/-- `VecToDt`. -/
def fbVec.toDt (v : fbVec F) : dtVec F := ⟨v.x, v.z, v.y⟩

/-- `DtToVec`. -/
def dtVec.toVec (dt : dtVec F) : fbVec F := ⟨dt.x, dt.z, dt.y⟩

theorem dtVec.toVec_toDt (v : fbVec F) : v.toDt.toVec = v := rfl

/-- `dtPolyRef`. -/
abbrev dtPolyRef := UInt32

/-- `dtNavMeshQuery`, with the filter of every call and the extents of `findNearestPoly`. -/
structure dtNavMeshQuery (F : Type*) where
  /-- The polygon, `0` if there is none, and the nearest point or else the center. -/
  findNearestPoly : dtVec F → Option (dtPolyRef × dtVec F)
  /-- `hit.t`. -/
  raycast : dtPolyRef → dtVec F → dtVec F → Option F
  findPath : dtPolyRef → dtPolyRef → dtVec F → dtVec F → ℕ → Option (List dtPolyRef)
  findStraightPath : dtVec F → dtVec F → List dtPolyRef → ℕ → Option (List (dtVec F))
  findRandomPointAroundCircle : dtPolyRef → dtVec F → F → Option (dtVec F)

/-- `Navigation`; its constructor has set `nav_query_`. -/
structure Navigation (F : Type*) where
  nav_query : dtNavMeshQuery F
  /-- What `(float*)&dtstart` points to: the pointer `dtstart` itself, read as a position. -/
  atStart : dtVec F
  /-- What `(float*)&dtend` points to. -/
  atEnd : dtVec F

namespace Navigation

variable (nav : Navigation F)

/-- `MAX_POLYS`. -/
def MAX_POLYS : ℕ := 256

/-- `Raycast` of positions of Detour.  The reference it finds for the start is its own copy. -/
def raycastFrom (dtstart : dtVec F) (_startref : dtPolyRef) (dtend : dtVec F) : Option F :=
  match nav.nav_query.findNearestPoly dtstart with
  | none => none
  | some (startref, _) =>
    match nav.nav_query.findNearestPoly dtend with
    | none => none
    | some _ => nav.nav_query.raycast startref dtstart dtend

/-- `Raycast`: `hit.t`, if it returns true. -/
def raycast (start dest : fbVec F) : Option F :=
  match nav.nav_query.findNearestPoly start.toDt with
  | none => none
  | some (startref, dtstart) => nav.raycastFrom dtstart startref dest.toDt

/-- `FindRandomPointInCircle`. -/
def findRandomPointInCircle (center : fbVec F) (radius : F) : Option (dtVec F) :=
  match nav.nav_query.findNearestPoly center.toDt with
  | none => none
  | some (startref, dtcenter) =>
    nav.nav_query.findRandomPointAroundCircle startref dtcenter radius

section FindPath

variable [One F] [LT F] [DecidableLT F]

/-- `FindPath` of positions of Detour: what it appends to `out_path`, if it returns true. -/
def findPathDt (dtstart dtend : dtVec F) : Option (List (fbVec F)) :=
  let startref : dtPolyRef := 0
  let endref : dtPolyRef := 0
  match nav.raycastFrom dtstart startref dtend with
  | none => none
  | some t =>
    if t < 1 then
      -- both references are still those of no polygon
      match nav.nav_query.findPath startref endref nav.atStart nav.atEnd MAX_POLYS with
      | none => none
      | some path =>
        match nav.nav_query.findStraightPath nav.atStart nav.atEnd path MAX_POLYS with
        | none => none
        | some straightPath =>
          -- the loop goes over all points but the last one
          some ((straightPath.take (straightPath.length - 1)).map dtVec.toVec)
    else some [dtend.toVec]

/-- `FindPath`. -/
def findPath (start dest : fbVec F) : Option (List (fbVec F)) :=
  nav.findPathDt start.toDt dest.toDt

/-- The path leads to the end, and not to the start first. -/
def FindsWay (start dest : fbVec F) : Prop :=
  ∃ ws, nav.findPath start dest = some ws ∧ ws.getLast? = some dest ∧ ws.head? ≠ some start

end FindPath

end Navigation

/-! ### What Detour documents -/

namespace Detour

/-- A corridor: polygons from `startRef` to `endRef`, each linked to the next. -/
structure Corridor (linked : dtPolyRef → dtPolyRef → Prop) (startRef endRef : dtPolyRef)
    (path : List dtPolyRef) : Prop where
  chain : path.IsChain linked
  head : path.head? = some startRef
  last : path.getLast? = some endRef

/-- The path queries of Detour on a mesh with these polygons and links. -/
structure Lawful (q : dtNavMeshQuery F) (valid : dtPolyRef → Prop)
    (linked : dtPolyRef → dtPolyRef → Prop) : Prop where
  /-- `0` is never a polygon. -/
  zero : ¬valid 0
  reject : ∀ startRef endRef startPos endPos maxPath, ¬valid startRef ∨ ¬valid endRef →
    q.findPath startRef endRef startPos endPos maxPath = none
  corridor : ∀ startRef endRef startPos endPos maxPath, valid startRef → valid endRef →
    (∃ path, Corridor linked startRef endRef path ∧ path.length ≤ maxPath) →
      ∃ path, q.findPath startRef endRef startPos endPos maxPath = some path ∧
        Corridor linked startRef endRef path
  polyline : ∀ startPos endPos path maxPath, path ≠ [] →
    ∃ line, q.findStraightPath startPos endPos path maxPath = some line ∧
      line.head? = some startPos ∧ line.getLast? = some endPos

/-- Two positions whose nearest polygons a corridor of at most `MAX_POLYS` polygons connects. -/
def Connected (q : dtNavMeshQuery F) (valid : dtPolyRef → Prop)
    (linked : dtPolyRef → dtPolyRef → Prop) (start dest : fbVec F) : Prop :=
  ∃ s e path, q.findNearestPoly start.toDt = some s ∧ q.findNearestPoly dest.toDt = some e ∧
    valid s.1 ∧ valid e.1 ∧ Corridor linked s.1 e.1 path ∧ path.length ≤ Navigation.MAX_POLYS

end Detour

namespace Navigation

open Detour

variable [Field F] [LinearOrder F] {nav : Navigation F} {start dest : fbVec F}
  {valid : dtPolyRef → Prop} {linked : dtPolyRef → dtPolyRef → Prop}

/-- `FindPath` finds a path where the ray hits nothing, and then the end alone. -/
theorem findPath_eq_some_iff (h : Lawful nav.nav_query valid linked) {ws : List (fbVec F)} :
    nav.findPath start dest = some ws ↔
      (∃ t, nav.raycastFrom start.toDt 0 dest.toDt = some t ∧ 1 ≤ t) ∧ ws = [dest] := by
  -- where the ray is blocked the references are those it started with, so the search is rejected
  have hreject : ∀ p p' n, nav.nav_query.findPath 0 0 p p' n = none := fun p p' n =>
    h.reject 0 0 p p' n (.inl h.zero)
  unfold findPath findPathDt
  dsimp only
  cases nav.raycastFrom start.toDt 0 dest.toDt with
  | none => simp
  | some t =>
    simp only [hreject, Option.some.injEq, exists_eq_left', dtVec.toVec_toDt]
    split_ifs with ht
    · simp [not_le.2 ht]
    · simp only [not_lt.1 ht, true_and, Option.some.injEq]
      exact eq_comm

/-- **Path finding.**  For positions that a corridor connects, `FindPath` leads to the end iff that
is not where the path starts and the ray from its polygon reaches it. -/
theorem findsWay_iff (h : Lawful nav.nav_query valid linked)
    (hc : Connected nav.nav_query valid linked start dest) :
    nav.FindsWay start dest ↔ start ≠ dest ∧
      ∃ startref point t, nav.nav_query.findNearestPoly start.toDt = some (startref, point) ∧
        nav.nav_query.raycast startref start.toDt dest.toDt = some t ∧ 1 ≤ t := by
  obtain ⟨⟨startref, point⟩, e, path, hs, he, -⟩ := hc
  have hray : nav.raycastFrom start.toDt 0 dest.toDt =
      nav.nav_query.raycast startref start.toDt dest.toDt := by
    simp only [raycastFrom, hs, he]
  unfold FindsWay
  simp only [findPath_eq_some_iff h, hray, hs, Option.some.injEq, Prod.mk.injEq]
  constructor
  · rintro ⟨ws, ⟨⟨t, ht, hle⟩, rfl⟩, -, hhead⟩
    exact ⟨fun heq => hhead (by rw [heq, List.head?_singleton]), startref, point, t, ⟨rfl, rfl⟩,
      ht, hle⟩
  · rintro ⟨hne, _, _, t, ⟨rfl, rfl⟩, ht, hle⟩
    refine ⟨[dest], ⟨⟨t, ht, hle⟩, rfl⟩, rfl, ?_⟩
    rw [List.head?_singleton]
    exact fun heq => hne (Option.some.inj heq).symm

/-- Two polygons linked to each other, the first for negative `x`, and rays that all end at `t`. -/
def twoPolys (t : ℚ) : dtNavMeshQuery ℚ where
  findNearestPoly p := some (if p.x < 0 then 1 else 2, p)
  raycast _ _ _ := some t
  findPath s e _ _ _ :=
    if (s = 1 ∨ s = 2) ∧ (e = 1 ∨ e = 2) then some (if s = e then [s] else [s, e]) else none
  findStraightPath p p' _ _ := some [p, p']
  findRandomPointAroundCircle _ p _ := some p

theorem lawful_twoPolys (t : ℚ) :
    Lawful (twoPolys t) (fun i => i = 1 ∨ i = 2) (fun i j => i ≠ j) where
  zero := by decide
  reject s e _ _ _ h := if_neg (by tauto)
  corridor s e _ _ _ hs he _ := by
    refine ⟨if s = e then [s] else [s, e], if_pos ⟨hs, he⟩, ?_⟩
    split_ifs with heq
    · exact ⟨.singleton s, rfl, congrArg some heq⟩
    · exact ⟨List.isChain_pair.2 heq, rfl, rfl⟩
  polyline p p' _ _ _ := ⟨[p, p'], rfl, rfl, rfl⟩

theorem connected_twoPolys (t : ℚ) :
    Connected (twoPolys t) (fun i => i = 1 ∨ i = 2) (fun i j => i ≠ j) ⟨-1, 0, 0⟩ ⟨1, 0, 0⟩ :=
  have hleft : (-1 : ℚ) < 0 := by decide +kernel
  have hright : ¬(1 : ℚ) < 0 := by decide +kernel
  ⟨(1, ⟨-1, 0, 0⟩), (2, ⟨1, 0, 0⟩), [1, 2], by simp [twoPolys, fbVec.toDt, hleft],
    by simp [twoPolys, fbVec.toDt, hright], .inl rfl, .inr rfl,
    ⟨List.isChain_pair.2 (by decide), rfl, rfl⟩, by decide⟩

theorem findsWay_iff_clear : (⟨twoPolys 2, ⟨0, 0, 0⟩, ⟨0, 0, 0⟩⟩ : Navigation ℚ).FindsWay
    ⟨-1, 0, 0⟩ ⟨1, 0, 0⟩ := by
  have hiff : (⟨twoPolys 2, ⟨0, 0, 0⟩, ⟨0, 0, 0⟩⟩ : Navigation ℚ).FindsWay
      ⟨-1, 0, 0⟩ ⟨1, 0, 0⟩ ↔ _ := findsWay_iff (lawful_twoPolys 2) (connected_twoPolys 2)
  exact hiff.2 ⟨by decide +kernel, 1, ⟨-1, 0, 0⟩, 2, by decide +kernel, rfl, by decide +kernel⟩

/-- The ray is blocked half way. -/
theorem findPath_not_findsWay : ¬∀ (nav : Navigation ℚ) (valid : dtPolyRef → Prop)
    (linked : dtPolyRef → dtPolyRef → Prop) (start dest : fbVec ℚ),
    Lawful nav.nav_query valid linked → Connected nav.nav_query valid linked start dest →
      nav.FindsWay start dest := by
  intro h
  obtain ⟨ws, hws, -⟩ := h ⟨twoPolys (1 / 2), ⟨0, 0, 0⟩, ⟨0, 0, 0⟩⟩ _ _ ⟨-1, 0, 0⟩ ⟨1, 0, 0⟩
    (lawful_twoPolys _) (connected_twoPolys _)
  obtain ⟨⟨t, ht, hle⟩, -⟩ := (findPath_eq_some_iff (lawful_twoPolys _)).1 hws
  obtain rfl : (1 / 2 : ℚ) = t := Option.some.inj ht
  exact absurd hle (by decide +kernel)

end Navigation

end ClientServer
