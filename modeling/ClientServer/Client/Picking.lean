import ClientServer.Data.Nearest
import Mathlib.Algebra.Order.Field.Basic
import Mathlib.Algebra.Order.Field.Rat
import Mathlib.Data.Fin.VecNotation
import Mathlib.Data.Fintype.Basic
import Mathlib.Tactic.FieldSimp
import Mathlib.Tactic.FinCases
import Mathlib.Tactic.Linarith
import Mathlib.Tactic.LinearCombination
import Mathlib.Tactic.Ring

/-!
# Picking on the navigation mesh

`Navigation_C::ScreenRay` of the client goes through the tiles of the mesh, skips those whose box
the segment misses, and tests all detail triangles of the others.  What it reads of the arrays of
Detour may not be there: then there is no result.

* `screenRay`, `isectSegAABB`, `intersectSegmentTriangle` : the functions.
* `dtMeshTile.Layout` : what Detour says of the arrays of a tile.
* `intersectSegmentTriangle_mem`, `isectSegAABB_iff` : where a hit lies, and when the box test finds
  the box around it.
* `screenRay_iff` : **exactly when picking is brute force**.
-/

namespace ClientServer

/-- A position, as three floats. -/
abbrev float3 (K : Type*) := Fin 3 → K

/-! ### The tests -/

section Tests

variable {K : Type*} [Field K]

/-- `EPS`. -/
def EPS : K := ((1000000 : ℕ) : K)⁻¹

/-- `rcVcross`. -/
def rcVcross (v1 v2 : float3 K) : float3 K :=
  ![v1 1 * v2 2 - v1 2 * v2 1, v1 2 * v2 0 - v1 0 * v2 2, v1 0 * v2 1 - v1 1 * v2 0]

/-- `rcVdot`. -/
def rcVdot (v1 v2 : float3 K) : K := v1 0 * v2 0 + v1 1 * v2 1 + v1 2 * v2 2

variable [LinearOrder K]

/-- One turn of the loop of `isectSegAABB`, with `tmin` and `tmax`. -/
def clipAxis (sp sq amin amax : float3 K) (t : K × K) (i : Fin 3) : Option (K × K) :=
  let d := sq i - sp i
  if |d| < EPS then
    if sp i < amin i ∨ sp i > amax i then none else some t
  else
    let ood := 1 / d
    let t1 := (amin i - sp i) * ood
    let t2 := (amax i - sp i) * ood
    let (t1, t2) := if t1 > t2 then (t2, t1) else (t1, t2)
    let tmin := if t1 > t.1 then t1 else t.1
    let tmax := if t2 < t.2 then t2 else t.2
    if tmin > tmax then none else some (tmin, tmax)

/-- `isectSegAABB`: `tmin` and `tmax`, if it returns true. -/
def isectSegAABB (sp sq amin amax : float3 K) : Option (K × K) :=
  [0, 1, 2].foldlM (clipAxis sp sq amin amax) (0, 1)

/-- `intersectSegmentTriangle`: `t`, if it returns true. -/
def intersectSegmentTriangle (sp sq a b c : float3 K) : Option K :=
  let ab := b - a
  let ac := c - a
  let qp := sp - sq
  let norm := rcVcross ab ac
  let d := rcVdot qp norm
  if d ≤ 0 then none
  else
    let ap := sp - a
    let t := rcVdot ap norm
    if t < 0 then none
    else if t > d then none
    else
      let e := rcVcross qp ap
      let v := rcVdot ac e
      if v < 0 ∨ v > d then none
      else
        let w := -rcVdot ab e
        if w < 0 ∨ v + w > d then none
        else some (t / d)

end Tests

/-! ### The mesh -/

/-- `DT_POLYTYPE_OFFMESH_CONNECTION`. -/
def DT_POLYTYPE_OFFMESH_CONNECTION : ℕ := 1

/-- `DT_VERTS_PER_POLYGON`. -/
def DT_VERTS_PER_POLYGON : ℕ := 6

/-- `dtPoly`. -/
structure dtPoly where
  /-- As many slots as a polygon may have vertices. -/
  verts : Fin DT_VERTS_PER_POLYGON → ℕ
  /-- How many of the slots hold vertices of the polygon. -/
  vertCount : ℕ
  areaAndtype : ℕ

/-- `getType()`. -/
def dtPoly.getType (p : dtPoly) : ℕ := p.areaAndtype >>> 6

/-- `p->verts[k]`: what a slot holds may be read, and no more slots than there are. -/
def dtPoly.vert (p : dtPoly) (k : ℕ) : Option ℕ :=
  if h : k < DT_VERTS_PER_POLYGON then some (p.verts ⟨k, h⟩) else none

/-- `dtPolyDetail`. -/
structure dtPolyDetail where
  vertBase : ℕ
  triBase : ℕ
  triCount : ℕ

/-- `dtMeshHeader`. -/
structure dtMeshHeader (K : Type*) where
  polyCount : ℕ
  bmin : float3 K
  bmax : float3 K

/-- `dtMeshTile`; a detail triangle is given by the three indices it starts with. -/
structure dtMeshTile (K : Type*) where
  header : Option (dtMeshHeader K)
  polys : List dtPoly
  verts : List (float3 K)
  detailMeshes : List dtPolyDetail
  detailVerts : List (float3 K)
  detailTris : List (Fin 3 → ℕ)

namespace dtMeshTile

variable {K : Type*} (tile : dtMeshTile K)

/-- `&tile->verts[p->verts[k] * 3]`. -/
def polyVert (p : dtPoly) (k : ℕ) : Option (float3 K) := (p.vert k).bind (tile.verts[·]?)

/-- The vertex that the index `k` of a detail triangle names. -/
def namedVert (p : dtPoly) (pd : dtPolyDetail) (k : ℕ) : Option (float3 K) :=
  if k < p.vertCount then tile.polyVert p k else tile.detailVerts[pd.vertBase + (k - p.vertCount)]?

end dtMeshTile

/-! ### The search -/

section Search

variable {K : Type*} [Field K] [LinearOrder K] (src dst : float3 K) (tile : dtMeshTile K)

/-- One detail triangle. -/
def scanTriangle (p : dtPoly) (tris : Fin 3 → ℕ) (n : Nearest K) : Option (Nearest K) :=
  (tile.polyVert p (tris 0)).bind fun a =>
    (tile.polyVert p (tris 1)).bind fun b =>
      (tile.polyVert p (tris 2)).bind fun c =>
        some (n.offer (intersectSegmentTriangle src dst a b c))

/-- One polygon. -/
def scanPoly (j : ℕ) (n : Nearest K) : Option (Nearest K) :=
  tile.polys[j]?.bind fun p =>
    tile.detailMeshes[j]?.bind fun pd =>
      (List.range pd.triCount).foldlM (fun n k =>
        tile.detailTris[pd.triBase + k]?.bind fun tris => scanTriangle src dst tile p tris n) n

/-- One tile. -/
def scanTile (n : Nearest K) : Option (Nearest K) :=
  match tile.header with
  | none => some n
  | some header =>
    if (isectSegAABB src dst header.bmin header.bmax).isSome then
      (List.range header.polyCount).foldlM (fun n j => scanPoly src dst tile j n) n
    else some n

/-- `Navigation_C::ScreenRay`: whether there was a hit, and `tmin`. -/
def screenRay (mesh : List (dtMeshTile K)) : Option (Nearest K) :=
  mesh.foldlM (fun n tile => scanTile src dst tile n) ⟨false, 1⟩

end Search

/-! ### Where a hit lies -/

section Geometry

variable {K : Type*} [Field K] [LinearOrder K] [IsStrictOrderedRing K]
  {sp sq a b c amin amax : float3 K} {t : K}

/-- Cramer's rule for `p` over `q`, `e` and `f`. -/
theorem rcVdot_cramer {K : Type*} [Field K] (q e f p : float3 K) (i : Fin 3) :
    rcVdot q (rcVcross e f) * p i =
      rcVdot p (rcVcross e f) * q i + rcVdot f (rcVcross q p) * e i +
        -rcVdot e (rcVcross q p) * f i := by
  fin_cases i <;>
  · simp only [rcVdot, rcVcross, Matrix.cons_val, Fin.zero_eta, Fin.mk_one, Fin.reduceFinMk]
    ring

/-- **A hit** is on the segment, and in the triangle. -/
theorem intersectSegmentTriangle_mem (h : intersectSegmentTriangle sp sq a b c = some t) :
    0 ≤ t ∧ t ≤ 1 ∧ ∃ v w, 0 ≤ v ∧ 0 ≤ w ∧ v + w ≤ 1 ∧
      ∀ i, sp i + t * (sq i - sp i) = a i + v * (b i - a i) + w * (c i - a i) := by
  simp only [intersectSegmentTriangle] at h
  split_ifs at h with hd ht htd hv hw
  obtain rfl := Option.some.inj h
  generalize hD : rcVdot (sp - sq) (rcVcross (b - a) (c - a)) = d at *
  generalize hT : rcVdot (sp - a) (rcVcross (b - a) (c - a)) = t at *
  generalize hV : rcVdot (c - a) (rcVcross (sp - sq) (sp - a)) = v at *
  generalize hW : -rcVdot (b - a) (rcVcross (sp - sq) (sp - a)) = w at *
  have hpos : 0 < d := not_le.1 hd
  obtain ⟨hv0, -⟩ := not_or.1 hv
  obtain ⟨hw0, hvw⟩ := not_or.1 hw
  refine ⟨div_nonneg (not_lt.1 ht) hpos.le, (div_le_one hpos).2 (not_lt.1 htd), v / d, w / d,
    div_nonneg (not_lt.1 hv0) hpos.le, div_nonneg (not_lt.1 hw0) hpos.le, ?_, fun i => ?_⟩
  · rw [← add_div]
    exact (div_le_one hpos).2 (not_lt.1 hvw)
  · have hcramer := rcVdot_cramer (sp - sq) (b - a) (c - a) (sp - a) i
    rw [hD, hT, hV, hW] at hcramer
    simp only [Pi.sub_apply] at hcramer
    field_simp
    linear_combination hcramer

theorem mem_box_of_hit (h : intersectSegmentTriangle sp sq a b c = some t) {i : Fin 3}
    (ha : amin i ≤ a i ∧ a i ≤ amax i) (hb : amin i ≤ b i ∧ b i ≤ amax i)
    (hc : amin i ≤ c i ∧ c i ≤ amax i) :
    amin i ≤ sp i + t * (sq i - sp i) ∧ sp i + t * (sq i - sp i) ≤ amax i := by
  obtain ⟨-, -, v, w, hv, hw, hvw, hpoint⟩ := intersectSegmentTriangle_mem h
  rw [hpoint]
  constructor
  · nlinarith [mul_nonneg hv (sub_nonneg.2 hb.1), mul_nonneg hw (sub_nonneg.2 hc.1),
      mul_nonneg (sub_nonneg.2 hvw) (sub_nonneg.2 ha.1)]
  · nlinarith [mul_nonneg hv (sub_nonneg.2 hb.2), mul_nonneg hw (sub_nonneg.2 hc.2),
      mul_nonneg (sub_nonneg.2 hvw) (sub_nonneg.2 ha.2)]

theorem EPS_pos : (0 : K) < EPS := inv_pos.2 (Nat.cast_pos.2 (by decide))

/-- The box test takes the segment for parallel to an axis, and it starts outside. -/
def TakenForParallel (sp sq amin amax : float3 K) (i : Fin 3) : Prop :=
  |sq i - sp i| < EPS ∧ (sp i < amin i ∨ sp i > amax i)

instance (i : Fin 3) : Decidable (TakenForParallel sp sq amin amax i) :=
  inferInstanceAs (Decidable (_ ∧ _))

/-- A line that is between two values at `t` passes them around `t`, in one order or the other. -/
theorem slab_around {lo hi p d t : K} (hd : d ≠ 0) (hin : lo ≤ p + t * d ∧ p + t * d ≤ hi) :
    (lo - p) * (1 / d) ≤ t ∧ t ≤ (hi - p) * (1 / d) ∨
      (hi - p) * (1 / d) ≤ t ∧ t ≤ (lo - p) * (1 / d) := by
  rw [mul_one_div, mul_one_div]
  rcases lt_or_gt_of_ne hd with hneg | hpos
  · right
    rw [div_le_iff_of_neg hneg, le_div_iff_of_neg hneg]
    exact ⟨by linarith, by linarith⟩
  · left
    rw [div_le_iff₀ hpos, le_div_iff₀ hpos]
    exact ⟨by linarith, by linarith⟩

omit [Field K] [IsStrictOrderedRing K] in
theorem swap_around {t₁ t₂ t : K} (h : t₁ ≤ t ∧ t ≤ t₂ ∨ t₂ ≤ t ∧ t ≤ t₁) :
    ∃ u₁ u₂, (if t₁ > t₂ then (t₂, t₁) else (t₁, t₂)) = (u₁, u₂) ∧ u₁ ≤ t ∧ t ≤ u₂ := by
  split_ifs with hlt
  · exact ⟨t₂, t₁, rfl, h.resolve_left fun h => absurd (h.1.trans h.2) (not_le.2 hlt)⟩
  · refine ⟨t₁, t₂, rfl, h.elim id fun h => ?_⟩
    have heq : t₁ = t₂ := le_antisymm (not_lt.1 hlt) (h.1.trans h.2)
    exact heq ▸ ⟨heq ▸ h.1, heq ▸ h.2⟩

/-- An axis along which the segment comes to the box at `t`. -/
theorem clipAxis_spec {i : Fin 3} {tm : K × K}
    (hin : amin i ≤ sp i + t * (sq i - sp i) ∧ sp i + t * (sq i - sp i) ≤ amax i)
    (ht : tm.1 ≤ t ∧ t ≤ tm.2) :
    (TakenForParallel sp sq amin amax i → clipAxis sp sq amin amax tm i = none) ∧
      (¬TakenForParallel sp sq amin amax i →
        ∃ tm', clipAxis sp sq amin amax tm i = some tm' ∧ tm'.1 ≤ t ∧ t ≤ tm'.2) := by
  rw [TakenForParallel, clipAxis]
  dsimp only
  by_cases hpar : |sq i - sp i| < EPS
  · rw [if_pos hpar]
    split_ifs with hout
    · exact ⟨fun _ => rfl, fun hnot => absurd ⟨hpar, hout⟩ hnot⟩
    · exact ⟨fun h => absurd h.2 hout, fun _ => ⟨tm, rfl, ht⟩⟩
  · rw [if_neg hpar]
    refine ⟨fun h => absurd h.1 hpar, fun _ => ?_⟩
    generalize sq i - sp i = d at *
    have hd : d ≠ 0 := by
      rintro rfl
      exact hpar (abs_zero.trans_lt EPS_pos)
    obtain ⟨u₁, u₂, hswap, hu⟩ := swap_around (slab_around hd hin)
    rw [hswap]
    dsimp only
    have hmin : (if u₁ > tm.1 then u₁ else tm.1) ≤ t := by
      split_ifs
      exacts [hu.1, ht.1]
    have hmax : t ≤ if u₂ < tm.2 then u₂ else tm.2 := by
      split_ifs
      exacts [hu.2, ht.2]
    rw [if_neg (not_lt.2 (hmin.trans hmax))]
    exact ⟨_, rfl, hmin, hmax⟩

/-- **The box test** finds a box around a point of the segment, unless along some axis the
segment is taken for parallel. -/
theorem isectSegAABB_iff (h0 : 0 ≤ t) (h1 : t ≤ 1)
    (hin : ∀ i, amin i ≤ sp i + t * (sq i - sp i) ∧ sp i + t * (sq i - sp i) ≤ amax i) :
    (isectSegAABB sp sq amin amax).isSome ↔ ∀ i, ¬TakenForParallel sp sq amin amax i := by
  have hloop : ∀ (l : List (Fin 3)) (tm : K × K), tm.1 ≤ t ∧ t ≤ tm.2 →
      ((l.foldlM (clipAxis sp sq amin amax) tm).isSome ↔
        ∀ i ∈ l, ¬TakenForParallel sp sq amin amax i) := by
    intro l
    induction l with
    | nil => simp
    | cons i l ih =>
      intro tm ht
      rw [List.foldlM_cons, List.forall_mem_cons]
      obtain ⟨hstop, hgo⟩ := clipAxis_spec (hin i) ht
      by_cases hpar : TakenForParallel sp sq amin amax i
      · rw [hstop hpar]
        simp [hpar]
      · obtain ⟨tm', hclip, ht'⟩ := hgo hpar
        rw [hclip, and_iff_right hpar]
        exact ih tm' ht'
  rw [isectSegAABB, hloop _ _ ⟨h0, h1⟩]
  refine ⟨fun h i => h i ?_, fun h i _ => h i⟩
  fin_cases i <;> simp

end Geometry

/-! ### Brute force -/

namespace dtMeshTile

variable {K : Type*} (tile : dtMeshTile K)

/-- The arrays of a tile, as Detour lays them out: the polygons that are not off-mesh connections
come first and have a detail mesh each, the indices of the detail triangles name vertices, and
the box of the header encloses them. -/
structure Layout (header : dtMeshHeader K) [LE K] : Prop where
  polyCount : header.polyCount = tile.polys.length
  detailMesh : ∀ (j : ℕ) (p : dtPoly), tile.polys[j]? = some p →
    (j < tile.detailMeshes.length ↔ p.getType ≠ DT_POLYTYPE_OFFMESH_CONNECTION)
  corner : ∀ (j k : ℕ) (p : dtPoly) (pd : dtPolyDetail), tile.polys[j]? = some p →
    tile.detailMeshes[j]? = some pd → k < pd.triCount →
      ∃ tris, tile.detailTris[pd.triBase + k]? = some tris ∧
        ∀ i, (tile.namedVert p pd (tris i)).isSome
  encloses : ∀ v, v ∈ tile.verts ∨ v ∈ tile.detailVerts →
    ∀ i, header.bmin i ≤ v i ∧ v i ≤ header.bmax i

/-- What the loop of `ScreenRay` can read: no polygon is an off-mesh connection, and the corners of
the detail triangles are found. -/
structure Readable : Prop where
  ground : ∀ p ∈ tile.polys, p.getType ≠ DT_POLYTYPE_OFFMESH_CONNECTION
  corner : ∀ (j k : ℕ) (p : dtPoly) (pd : dtPolyDetail) (tris : Fin 3 → ℕ),
    tile.polys[j]? = some p → tile.detailMeshes[j]? = some pd → k < pd.triCount →
      tile.detailTris[pd.triBase + k]? = some tris → ∀ i, (tile.polyVert p (tris i)).isSome

/-- `tris` is a detail triangle of the polygon `p`. -/
def HasTriangle (p : dtPoly) (pd : dtPolyDetail) (tris : Fin 3 → ℕ) : Prop :=
  ∃ j k : ℕ, tile.polys[j]? = some p ∧ tile.detailMeshes[j]? = some pd ∧ k < pd.triCount ∧
    tile.detailTris[pd.triBase + k]? = some tris

end dtMeshTile

/-- A corner of the detail triangle is not a vertex of the polygon. -/
def dtPoly.Inner (p : dtPoly) (tris : Fin 3 → ℕ) : Prop := ∃ i, p.vertCount ≤ tris i

section BruteForce

variable {K : Type*} [Field K] [LinearOrder K] (src dst : float3 K)

/-- The segment hits, at `t`, the triangle whose corners are found by `vert`. -/
def TriangleHit (vert : ℕ → Option (float3 K)) (tris : Fin 3 → ℕ) (t : K) : Prop :=
  ∃ a b c, vert (tris 0) = some a ∧ vert (tris 1) = some b ∧ vert (tris 2) = some c ∧
    intersectSegmentTriangle src dst a b c = some t

namespace dtMeshTile

variable (tile : dtMeshTile K)

/-- The box test finds the tile. -/
def Accepted : Prop := ∃ header, tile.header = some header ∧
  (isectSegAABB src dst header.bmin header.bmax).isSome

/-- The segment hits a detail triangle of the tile at `t`. -/
def Hit (t : K) : Prop := ∃ p pd tris, tile.HasTriangle p pd tris ∧
  TriangleHit src dst (tile.namedVert p pd) tris t

/-- The segment hits, at `t`, a detail triangle of the tile as `ScreenRay` reads it. -/
def ReadHit (t : K) : Prop := ∃ p pd tris, tile.HasTriangle p pd tris ∧
  TriangleHit src dst (tile.polyVert p) tris t

end dtMeshTile

/-- The segment hits a detail triangle of the mesh at `t`. -/
def MeshHit (mesh : List (dtMeshTile K)) (t : K) : Prop :=
  ∃ tile ∈ mesh, tile.header.isSome ∧ tile.Hit src dst t

/-- `ScreenRay` reads a detail triangle that the segment hits at `t`. -/
def MeshReadHit (mesh : List (dtMeshTile K)) (t : K) : Prop :=
  ∃ tile ∈ mesh, tile.Accepted src dst ∧ tile.ReadHit src dst t

/-- Picking is brute force: all indices used are in range, there is a hit iff a detail triangle is
hit, `tmin` is then the least parameter of one, and no tile with a hit is skipped. -/
structure PicksNearest (mesh : List (dtMeshTile K)) : Prop where
  result : ∃ n, screenRay src dst mesh = some n ∧
    (n.hit = true ↔ ∃ t, MeshHit src dst mesh t) ∧
    (n.hit = true → IsLeast {t | MeshHit src dst mesh t} n.tmin)
  kept : ∀ tile ∈ mesh, ∀ header, tile.header = some header → (∃ t, tile.Hit src dst t) →
    (isectSegAABB src dst header.bmin header.bmax).isSome

/-- What spoils it nowhere: the tiles that the box test finds can be read; in them no detail triangle
with a corner inside its polygon is hit before all others, neither as it is nor as it is read; and at
no tile with a hit the segment, short along some axis, starts outside the box. -/
structure Pickable (mesh : List (dtMeshTile K)) : Prop where
  readable : ∀ tile ∈ mesh, tile.Accepted src dst → tile.Readable
  read : ∀ tile ∈ mesh, tile.Accepted src dst → ∀ p pd tris, tile.HasTriangle p pd tris →
    p.Inner tris → ∀ t, TriangleHit src dst (tile.polyVert p) tris t →
      ∃ s, MeshHit src dst mesh s ∧ s ≤ t
  named : ∀ tile ∈ mesh, tile.Accepted src dst → ∀ p pd tris, tile.HasTriangle p pd tris →
    p.Inner tris → ∀ t, TriangleHit src dst (tile.namedVert p pd) tris t →
      ∃ s, MeshReadHit src dst mesh s ∧ s ≤ t
  apart : ∀ tile ∈ mesh, ∀ header, tile.header = some header → (∃ t, tile.Hit src dst t) →
    ∀ i, ¬TakenForParallel src dst header.bmin header.bmax i

end BruteForce

section Search

variable {K : Type*} {src dst : float3 K} {tile : dtMeshTile K} {header : dtMeshHeader K}
  {p : dtPoly} {pd : dtPolyDetail} {tris : Fin 3 → ℕ}

theorem mem_of_polyVert {k : ℕ} {v : float3 K} (h : tile.polyVert p k = some v) :
    v ∈ tile.verts := by
  obtain ⟨i, -, hv⟩ := Option.bind_eq_some_iff.1 h
  exact List.mem_of_getElem? hv

theorem mem_of_namedVert {k : ℕ} {v : float3 K} (h : tile.namedVert p pd k = some v) :
    v ∈ tile.verts ∨ v ∈ tile.detailVerts := by
  rw [dtMeshTile.namedVert] at h
  split_ifs at h
  · exact .inl (mem_of_polyVert h)
  · exact .inr (List.mem_of_getElem? h)

theorem polyVert_eq_namedVert {k : ℕ} (h : k < p.vertCount) :
    tile.polyVert p k = tile.namedVert p pd k := by
  rw [dtMeshTile.namedVert, if_pos h]

variable [Field K] [LinearOrder K]

/-- A triangle between vertices of the polygon is read as it is. -/
theorem triangleHit_iff_of_not_inner (h : ¬p.Inner tris) {t : K} :
    TriangleHit src dst (tile.polyVert p) tris t ↔
      TriangleHit src dst (tile.namedVert p pd) tris t := by
  have hlt : ∀ i, tris i < p.vertCount := fun i => not_le.1 fun hle => h ⟨i, hle⟩
  rw [TriangleHit, TriangleHit, polyVert_eq_namedVert (hlt 0), polyVert_eq_namedVert (hlt 1),
    polyVert_eq_namedVert (hlt 2)]

theorem searches_scanTriangle :
    Searches (scanTriangle src dst tile p tris) (∀ i, (tile.polyVert p (tris i)).isSome)
      {t | TriangleHit src dst (tile.polyVert p) tris t} := by
  refine (Searches.bind fun a _ => Searches.bind fun b _ => Searches.bind fun c _ =>
    Searches.offer _).congr ?_ fun _ => ?_
  · simp only [Option.isSome_iff_exists, Fin.forall_fin_succ]
    simp
  · ext t
    constructor
    · rintro ⟨a, ha, b, hb, c, hc, ht⟩
      exact ⟨a, b, c, ha, hb, hc, ht⟩
    · rintro ⟨a, b, c, ha, hb, hc, ht⟩
      exact ⟨a, ha, b, hb, c, hc, ht⟩

theorem searches_scanPoly (j : ℕ) :
    Searches (scanPoly src dst tile j)
      (∃ p, tile.polys[j]? = some p ∧ ∃ pd, tile.detailMeshes[j]? = some pd ∧
        ∀ k < pd.triCount, ∃ tris, tile.detailTris[pd.triBase + k]? = some tris ∧
          ∀ i, (tile.polyVert p (tris i)).isSome)
      {t | ∃ p pd k tris, tile.polys[j]? = some p ∧ tile.detailMeshes[j]? = some pd ∧
        k < pd.triCount ∧ tile.detailTris[pd.triBase + k]? = some tris ∧
        TriangleHit src dst (tile.polyVert p) tris t} := by
  refine (Searches.bind fun p _ => Searches.bind fun pd _ => Searches.foldlM fun k _ =>
    Searches.bind fun tris _ => searches_scanTriangle).congr ?_ fun _ => ?_
  · simp only [List.mem_range]
  · ext t
    constructor
    · rintro ⟨p, hp, pd, hpd, k, hk, tris, htris, hhit⟩
      exact ⟨p, pd, k, tris, hp, hpd, List.mem_range.1 hk, htris, hhit⟩
    · rintro ⟨p, pd, k, tris, hp, hpd, hk, htris, hhit⟩
      exact ⟨p, hp, pd, hpd, k, List.mem_range.2 hk, tris, htris, hhit⟩

omit [Field K] in
/-- What can be read of the arrays of a tile. -/
theorem dtMeshTile.Layout.readable_iff (h : tile.Layout header) :
    tile.Readable ↔ ∀ j < header.polyCount, ∃ p, tile.polys[j]? = some p ∧
      ∃ pd, tile.detailMeshes[j]? = some pd ∧
        ∀ k < pd.triCount, ∃ tris, tile.detailTris[pd.triBase + k]? = some tris ∧
          ∀ i, (tile.polyVert p (tris i)).isSome := by
  rw [h.polyCount]
  constructor
  · intro hread j hj
    have hp := List.getElem?_eq_getElem hj
    have hlt := (h.detailMesh j _ hp).2 (hread.ground _ (List.getElem_mem hj))
    have hpd := List.getElem?_eq_getElem hlt
    refine ⟨_, hp, _, hpd, fun k hk => ?_⟩
    obtain ⟨tris, htris, -⟩ := h.corner j k _ _ hp hpd hk
    exact ⟨tris, htris, hread.corner j k _ _ tris hp hpd hk htris⟩
  · intro hall
    refine ⟨fun p hp => ?_, fun j k p pd tris hp hpd hk htris => ?_⟩
    · obtain ⟨j, hj⟩ := List.mem_iff_getElem?.1 hp
      obtain ⟨hlt, -⟩ := List.getElem?_eq_some_iff.1 hj
      obtain ⟨p', hp', pd, hpd, -⟩ := hall j hlt
      exact (h.detailMesh j p hj).1 (List.getElem?_eq_some_iff.1 hpd).1
    · obtain ⟨hlt, -⟩ := List.getElem?_eq_some_iff.1 hp
      obtain ⟨p', hp', pd', hpd', hread⟩ := hall j hlt
      obtain rfl := Option.some.inj (hp.symm.trans hp')
      obtain rfl := Option.some.inj (hpd.symm.trans hpd')
      obtain ⟨tris', htris', hverts⟩ := hread k hk
      obtain rfl := Option.some.inj (htris.symm.trans htris')
      exact hverts

/-- One tile: if the box test finds it, its detail triangles are tested. -/
theorem searches_scanTile (src dst : float3 K)
    (h : ∀ header, tile.header = some header → tile.Layout header) :
    Searches (scanTile src dst tile) (tile.Accepted src dst → tile.Readable)
      {t | tile.Accepted src dst ∧ tile.ReadHit src dst t} := by
  unfold scanTile dtMeshTile.Accepted
  cases hheader : tile.header with
  | none => exact Searches.skip.congr (by simp) fun _ => by simp
  | some header =>
    have hlayout := h header hheader
    dsimp only
    by_cases hbox : (isectSegAABB src dst header.bmin header.bmax).isSome
    · simp only [Option.some.injEq, hbox, exists_eq_left', true_and, forall_const]
      have hread := hlayout.readable_iff
      refine (Searches.foldlM fun j _ => searches_scanPoly j).congr ?_ fun hok => ?_
      · simp only [List.mem_range, hread]
      · ext t
        constructor
        · rintro ⟨j, -, p, pd, k, tris, hp, hpd, hk, htris, hhit⟩
          exact ⟨p, pd, tris, ⟨j, k, hp, hpd, hk, htris⟩, hhit⟩
        · rintro ⟨p, pd, tris, ⟨j, k, hp, hpd, hk, htris⟩, hhit⟩
          have hj : j ∈ List.range header.polyCount := by
            rw [List.mem_range, hlayout.polyCount]
            exact (List.getElem?_eq_some_iff.1 hp).1
          exact ⟨j, hj, p, pd, k, tris, hp, hpd, hk, htris, hhit⟩
    · simp only [if_neg hbox]
      exact Searches.skip.congr (by simp [hbox]) fun _ => by simp [hbox]

end Search

section Exact

variable {K : Type*} [Field K] [LinearOrder K] [IsStrictOrderedRing K] {src dst : float3 K}
  {mesh : List (dtMeshTile K)} {tile : dtMeshTile K} {header : dtMeshHeader K} {t : K}

theorem TriangleHit.between {vert : ℕ → Option (float3 K)} {tris : Fin 3 → ℕ}
    (h : TriangleHit src dst vert tris t) : 0 ≤ t ∧ t ≤ 1 := by
  obtain ⟨a, b, c, -, -, -, ht⟩ := h
  obtain ⟨h0, h1, -⟩ := intersectSegmentTriangle_mem ht
  exact ⟨h0, h1⟩

theorem dtMeshTile.Hit.isectSegAABB_iff (h : tile.Hit src dst t) (hlayout : tile.Layout header) :
    (isectSegAABB src dst header.bmin header.bmax).isSome ↔
      ∀ i, ¬TakenForParallel src dst header.bmin header.bmax i := by
  obtain ⟨p, pd, tris, -, a, b, c, ha, hb, hc, ht⟩ := h
  obtain ⟨h0, h1, -⟩ := intersectSegmentTriangle_mem ht
  exact ClientServer.isectSegAABB_iff h0 h1 fun i =>
    mem_box_of_hit ht (hlayout.encloses a (mem_of_namedVert ha) i)
      (hlayout.encloses b (mem_of_namedVert hb) i) (hlayout.encloses c (mem_of_namedVert hc) i)

omit [IsStrictOrderedRing K] in
/-- The search: it succeeds if the tiles it looks at can be read, and meets the hits it reads. -/
theorem searches_screenRay (hlayout : ∀ tile ∈ mesh, ∀ header, tile.header = some header →
      tile.Layout header) :
    Searches (fun n => mesh.foldlM (fun n tile => scanTile src dst tile n) n)
      (∀ tile ∈ mesh, tile.Accepted src dst → tile.Readable)
      {t | MeshReadHit src dst mesh t} :=
  Searches.foldlM fun tile htile => searches_scanTile src dst (hlayout tile htile)

/-- What `ScreenRay` answers, if it can read the tiles it looks at. -/
theorem screenRay_spec (hlayout : ∀ tile ∈ mesh, ∀ header, tile.header = some header →
      tile.Layout header) {n : Nearest K} (hn : screenRay src dst mesh = some n) :
    (n.hit = true ↔ ∃ t, MeshReadHit src dst mesh t) ∧
      (n.hit = true → IsLeast {t | MeshReadHit src dst mesh t} n.tmin) :=
  ((searches_screenRay hlayout).after _ n hn).isLeast_of_hit rfl
    fun _ ⟨_, _, _, _, _, _, _, hhit⟩ => hhit.between.2

/-- If picking is brute force, a hit that is read is one of a detail triangle, or after one. -/
theorem PicksNearest.exists_meshHit (h : PicksNearest src dst mesh)
    (hlayout : ∀ tile ∈ mesh, ∀ header, tile.header = some header → tile.Layout header)
    (ht : MeshReadHit src dst mesh t) : ∃ s, MeshHit src dst mesh s ∧ s ≤ t := by
  obtain ⟨n, hn, -, hleast⟩ := h.result
  obtain ⟨hiff, hread⟩ := screenRay_spec hlayout hn
  have hhit := hiff.2 ⟨t, ht⟩
  exact ⟨n.tmin, (hleast hhit).1, (hread hhit).2 ht⟩

theorem PicksNearest.exists_meshReadHit (h : PicksNearest src dst mesh)
    (hlayout : ∀ tile ∈ mesh, ∀ header, tile.header = some header → tile.Layout header)
    (ht : MeshHit src dst mesh t) : ∃ s, MeshReadHit src dst mesh s ∧ s ≤ t := by
  obtain ⟨n, hn, hiff, hleast⟩ := h.result
  have hhit := hiff.2 ⟨t, ht⟩
  exact ⟨n.tmin, ((screenRay_spec hlayout hn).2 hhit).1, (hleast hhit).2 ht⟩

omit [IsStrictOrderedRing K] in
/-- The same two, from the triangles with a corner inside a polygon. -/
theorem Pickable.exists_meshHit (h : Pickable src dst mesh) (ht : MeshReadHit src dst mesh t) :
    ∃ s, MeshHit src dst mesh s ∧ s ≤ t := by
  obtain ⟨tile, htile, haccepted, p, pd, tris, htri, hhit⟩ := ht
  by_cases hinner : p.Inner tris
  · exact h.read tile htile haccepted p pd tris htri hinner t hhit
  · obtain ⟨header, hheader, -⟩ := haccepted
    exact ⟨t, ⟨tile, htile, by rw [hheader]; rfl, p, pd, tris, htri,
      (triangleHit_iff_of_not_inner hinner).1 hhit⟩, le_rfl⟩

omit [IsStrictOrderedRing K] in
theorem Pickable.exists_meshReadHit (h : Pickable src dst mesh)
    (hkept : ∀ tile ∈ mesh, ∀ header, tile.header = some header → (∃ t, tile.Hit src dst t) →
      (isectSegAABB src dst header.bmin header.bmax).isSome)
    (ht : MeshHit src dst mesh t) : ∃ s, MeshReadHit src dst mesh s ∧ s ≤ t := by
  obtain ⟨tile, htile, hsome, hhit⟩ := ht
  obtain ⟨header, hheader⟩ := Option.isSome_iff_exists.1 hsome
  have haccepted : tile.Accepted src dst :=
    ⟨header, hheader, hkept tile htile header hheader ⟨t, hhit⟩⟩
  obtain ⟨p, pd, tris, htri, hhit⟩ := hhit
  by_cases hinner : p.Inner tris
  · exact h.named tile htile haccepted p pd tris htri hinner t hhit
  · exact ⟨t, ⟨tile, htile, haccepted, p, pd, tris, htri,
      (triangleHit_iff_of_not_inner hinner).2 hhit⟩, le_rfl⟩

/-- **When picking is brute force**: the tiles that the box test finds have no off-mesh connections
and can be read; no detail triangle with a corner inside its polygon, which is read as another one,
makes a difference to the nearest hit; and at no tile with a hit the segment, short along some axis,
starts outside the box. -/
theorem screenRay_iff (hlayout : ∀ tile ∈ mesh, ∀ header, tile.header = some header →
      tile.Layout header) :
    PicksNearest src dst mesh ↔ Pickable src dst mesh := by
  constructor
  · intro h
    obtain ⟨n, hn, -⟩ := h.result
    refine ⟨((searches_screenRay hlayout).isSome_iff ⟨false, 1⟩).1
      (Option.isSome_iff_exists.2 ⟨n, hn⟩), ?_, ?_, ?_⟩
    · intro tile htile haccepted p pd tris htri _ t hhit
      exact h.exists_meshHit hlayout ⟨tile, htile, haccepted, p, pd, tris, htri, hhit⟩
    · intro tile htile haccepted p pd tris htri _ t hhit
      obtain ⟨header, hheader, -⟩ := haccepted
      exact h.exists_meshReadHit hlayout
        ⟨tile, htile, by rw [hheader]; rfl, p, pd, tris, htri, hhit⟩
    · intro tile htile header hheader ⟨t, ht⟩
      exact (ht.isectSegAABB_iff (hlayout tile htile header hheader)).1
        (h.kept tile htile header hheader ⟨t, ht⟩)
  · intro h
    have hkept : ∀ tile ∈ mesh, ∀ header, tile.header = some header →
        (∃ t, tile.Hit src dst t) → (isectSegAABB src dst header.bmin header.bmax).isSome := by
      rintro tile htile header hheader ⟨t, ht⟩
      exact (ht.isectSegAABB_iff (hlayout tile htile header hheader)).2
        (h.apart tile htile header hheader ⟨t, ht⟩)
    obtain ⟨n, hn⟩ := Option.isSome_iff_exists.1
      (((searches_screenRay hlayout).isSome_iff ⟨false, 1⟩).2 h.readable)
    obtain ⟨hiff, hleast⟩ := screenRay_spec hlayout hn
    have hread : IsCoinitialFor {t | MeshReadHit src dst mesh t} {t | MeshHit src dst mesh t} :=
      fun t ht => h.exists_meshHit ht
    have hnamed : IsCoinitialFor {t | MeshHit src dst mesh t} {t | MeshReadHit src dst mesh t} :=
      fun t ht => h.exists_meshReadHit hkept ht
    refine ⟨⟨n, hn, hiff.trans ⟨?_, ?_⟩, fun hhit => isLeast_of_coinitial hread hnamed (hleast hhit)⟩,
      hkept⟩
    · rintro ⟨t, ht⟩
      obtain ⟨s, hs, -⟩ := hread ht
      exact ⟨s, hs⟩
    · rintro ⟨t, ht⟩
      obtain ⟨s, hs, -⟩ := hnamed ht
      exact ⟨s, hs⟩

end Exact

/-- A tile with one triangle on the ground, with a vertex inside it, and some more polygons. -/
def groundTile (more : List dtPoly) : dtMeshTile ℚ where
  header := some ⟨more.length + 1, ![0, 0, 0], ![1, 0, 1]⟩
  polys := ⟨![0, 1, 2, 0, 0, 0], 3, 0⟩ :: more
  verts := [![0, 0, 0], ![0, 0, 1], ![1, 0, 0]]
  detailMeshes := [⟨0, 0, 3⟩]
  detailVerts := [![1 / 3, 0, 1 / 3]]
  detailTris := [![0, 1, 3], ![1, 2, 3], ![2, 0, 3]]

theorem layout_groundTile {more : List dtPoly}
    (hmore : ∀ p ∈ more, p.getType = DT_POLYTYPE_OFFMESH_CONNECTION) :
    ∀ tile ∈ [groundTile more], ∀ header, tile.header = some header → tile.Layout header := by
  rw [List.forall_mem_singleton]
  rintro header ⟨⟩
  refine ⟨rfl, fun j p hp => ?_, fun j k p pd hp hpd hk => ?_, fun v hv i => ?_⟩
  · cases j with
    | zero =>
      obtain rfl := Option.some.inj hp
      exact iff_of_true Nat.one_pos (by decide)
    | succ j =>
      have hj : ¬j + 1 < [(⟨0, 0, 1⟩ : dtPolyDetail)].length := by simp
      exact iff_of_false hj fun hne => hne (hmore p (List.mem_of_getElem? (i := j) hp))
  · cases j with
    | zero =>
      obtain rfl := Option.some.inj hp
      obtain rfl := Option.some.inj hpd
      obtain rfl | rfl | rfl : k = 0 ∨ k = 1 ∨ k = 2 := by
        change k < 3 at hk
        omega
      all_goals exact ⟨_, rfl, fun i => by fin_cases i <;> rfl⟩
    | succ j => cases hpd
  · simp only [groundTile, List.mem_cons, List.not_mem_nil, or_false] at hv
    rcases hv with (rfl | rfl | rfl) | rfl <;> fin_cases i <;> norm_num

/-- From above straight down to a point of the ground, and on. -/
theorem triangleHit_ground {vert : ℕ → Option (float3 ℚ)} {tris : Fin 3 → ℕ} {t : ℚ}
    (hvert : ∀ k v, vert k = some v → v 1 = 0)
    (h : TriangleHit ![1 / 4, 1, 1 / 4] ![1 / 4, -1, 1 / 4] vert tris t) : t = 1 / 2 := by
  obtain ⟨a, b, c, ha, hb, hc, ht⟩ := h
  obtain ⟨-, -, v, w, -, -, -, hpoint⟩ := intersectSegmentTriangle_mem ht
  have hy := hpoint 1
  rw [hvert _ a ha, hvert _ b hb, hvert _ c hc] at hy
  simp only [Matrix.cons_val] at hy
  linarith

theorem namedVert_groundTile {p : dtPoly} {pd : dtPolyDetail} {k : ℕ} {v : float3 ℚ}
    (h : (groundTile []).namedVert p pd k = some v) : v 1 = 0 := by
  have hv := mem_of_namedVert h
  simp only [groundTile, List.mem_cons, List.not_mem_nil, or_false] at hv
  rcases hv with (rfl | rfl | rfl) | rfl <;> rfl

theorem polyVert_groundTile {p : dtPoly} {k : ℕ} {v : float3 ℚ}
    (h : (groundTile []).polyVert p k = some v) : v 1 = 0 := by
  have hv := mem_of_polyVert h
  simp only [groundTile, List.mem_cons, List.not_mem_nil, or_false] at hv
  rcases hv with rfl | rfl | rfl <;> rfl

/-- One of the triangles around the vertex inside is hit, and so is what another is read as. -/
theorem screenRay_iff_ground :
    PicksNearest ![1 / 4, 1, 1 / 4] ![1 / 4, -1, 1 / 4] [groundTile []] ∧
      screenRay ![1 / 4, 1, 1 / 4] ![1 / 4, -1, 1 / 4] [groundTile []] = some ⟨true, 1 / 2⟩ := by
  refine ⟨(screenRay_iff (layout_groundTile (by simp))).2 ⟨?_, ?_, ?_, ?_⟩, by decide +kernel⟩ <;>
    rw [List.forall_mem_singleton]
  · refine fun _ => ⟨by simp [groundTile, dtPoly.getType, DT_POLYTYPE_OFFMESH_CONNECTION],
      fun j k p pd tris hp hpd hk htris => ?_⟩
    cases j with
    | zero =>
      obtain rfl := Option.some.inj hp
      obtain rfl := Option.some.inj hpd
      obtain rfl | rfl | rfl : k = 0 ∨ k = 1 ∨ k = 2 := by
        change k < 3 at hk
        omega
      all_goals
        obtain rfl := Option.some.inj htris
        decide
    | succ j => cases hpd
  · intro _ p pd tris _ _ t hhit
    obtain rfl := triangleHit_ground (fun _ _ => polyVert_groundTile) hhit
    exact ⟨_, ⟨_, List.mem_singleton_self _, rfl, _, _, _, ⟨0, 0, rfl, rfl, by decide, rfl⟩,
      _, _, _, rfl, rfl, rfl, by decide +kernel⟩, le_rfl⟩
  · intro haccepted p pd tris _ _ t hhit
    obtain rfl := triangleHit_ground (fun _ _ => namedVert_groundTile) hhit
    exact ⟨_, ⟨_, List.mem_singleton_self _, haccepted, _, _, _, ⟨0, 1, rfl, rfl, by decide, rfl⟩,
      _, _, _, rfl, rfl, rfl, by decide +kernel⟩, le_rfl⟩
  · rintro header ⟨⟩ -
    decide +kernel

/-- The second polygon is an off-mesh connection, and has no detail mesh to be read. -/
theorem screenRay_offMesh : ¬∀ (mesh : List (dtMeshTile ℚ)) (src dst : float3 ℚ),
    (∀ tile ∈ mesh, ∀ header, tile.header = some header → tile.Layout header) →
      PicksNearest src dst mesh := by
  intro h
  obtain ⟨n, hn, -⟩ := (h [groundTile [⟨![0, 1, 0, 0, 0, 0], 2, 64⟩]] ![1 / 4, 1, 1 / 4]
    ![1 / 4, -1, 1 / 4] (layout_groundTile (by decide))).result
  have hnone : screenRay ![1 / 4, 1, 1 / 4] ![1 / 4, -1, 1 / 4]
      [groundTile [⟨![0, 1, 0, 0, 0, 0], 2, 64⟩]] = none := by
    decide +kernel
  rw [hnone] at hn
  cases hn

end ClientServer
