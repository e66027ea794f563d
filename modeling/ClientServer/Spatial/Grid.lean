import ClientServer.Data.Strided
import ClientServer.Spatial.Rect
import Mathlib.Algebra.Order.Floor.Ring
import Mathlib.Data.Rat.Floor
import Mathlib.Tactic.NormNum

/-!
# Grid maps

`GridMap` has a cell of size one for every two coordinates below its width and height, in one
vector.  The constructor multiplies the row by the height, and `contains` divides a position by the
size of the whole map.

* `GridMap.writes`, `GridMap.new`, `GridMap.contains` : the functions.
* `GridMap.new_eq` : the cells, where the constructor writes each once.
* `GridMap.contains_eq` : the lookup gives the first cell.
* `GridMap.agrees_iff` : **exactly when constructor and lookup agree**.
-/

namespace ClientServer

namespace bb

/-- `vec2i8`. -/
structure vec2i8 where
  x : UInt8
  y : UInt8

/-- `GridMap`. -/
structure GridMap (K : Type*) where
  size_ : vec2i8
  bounds_ : rect K
  grids_ : List (rect K)

namespace GridMap

variable {K : Type*} [Field K]

/-- The cell of column `j` and row `i`. -/
def cell (j i : ℕ) : rect K := ⟨⟨j * 1, i * 1⟩, ⟨1, 1⟩⟩

/-- What the two loops of the constructor write, and where. -/
def writes (w h : ℕ) : List (ℕ × rect K) :=
  (List.range h).flatMap fun i => (List.range w).map fun j => (j + h * i, cell j i)

/-- The constructor: `none` if it writes behind the vector. -/
def new (w h : ℕ) (pos : vec2 K) : Option (GridMap K) :=
  ((writes w h).foldlM setAt (List.replicate (w * h) rect.default)).map fun grids =>
    ⟨⟨UInt8.ofNat w, UInt8.ofNat h⟩, ⟨pos, ⟨w * 1, h * 1⟩⟩, grids⟩

variable {w h : ℕ} {pos p : vec2 K} {r : rect K} {g : GridMap K}

theorem map_fst_writes : (writes w h : List (ℕ × rect K)).map Prod.fst = strided h w h := by
  simp only [writes, strided, List.map_flatMap, List.map_map]
  rfl

/-- With one row, or as many rows as columns, the loops go over the vector. -/
theorem writes_eq (hw : 0 < w) (hcond : h = 1 ∨ h = w) :
    (writes w h : List (ℕ × rect K)) =
      (List.range (w * h)).map fun k => (k, cell (k % w) (k / w)) := by
  rw [writes, flatMap_range_map (fun j i => (j + h * i, cell j i)) hw]
  refine List.map_congr_left fun k hk => ?_
  rw [List.mem_range] at hk
  have hindex : k % w + h * (k / w) = k := by
    rcases hcond with rfl | rfl
    · rw [Nat.mul_one] at hk
      rw [Nat.mod_eq_of_lt hk, Nat.div_eq_of_lt hk, Nat.mul_zero, Nat.add_zero]
    · exact Nat.mod_add_div k h
  rw [hindex]

/-- The writes of the constructor are in range and meet every cell once in just these cases. -/
theorem writes_exact_iff (hw : 0 < w) (hh : 0 < h) :
    ((∀ c ∈ (writes w h : List (ℕ × rect K)), c.1 < w * h) ∧
      ∀ k < w * h, ((writes w h : List (ℕ × rect K)).map Prod.fst).count k = 1) ↔
        h = 1 ∨ h = w := by
  rw [← List.forall_mem_map (f := Prod.fst) (P := (· < w * h)), map_fst_writes,
    strided_exact_iff hw]
  omega

/-- **The cells of the map**, in the case that every one is written once. -/
theorem new_eq (hw : 0 < w) (hcond : h = 1 ∨ h = w) (pos : vec2 K) :
    new w h pos = some ⟨⟨UInt8.ofNat w, UInt8.ofNat h⟩, ⟨pos, ⟨w * 1, h * 1⟩⟩,
      (List.range (w * h)).map fun k => cell (k % w) (k / w)⟩ := by
  rw [new, writes_eq hw hcond, foldlM_setAt_range, Option.map_some]

/-! ### Positions -/

variable [LinearOrder K]

/-- A position in a cell. -/
def Covers (c : rect K) (p : vec2 K) : Prop :=
  (c.pos.x ≤ p.x ∧ p.x < c.pos.x + c.size.x) ∧ (c.pos.y ≤ p.y ∧ p.y < c.pos.y + c.size.y)

/-- A position in the map. -/
def Inside (w h : ℕ) (p : vec2 K) : Prop := (0 ≤ p.x ∧ p.x < w) ∧ (0 ≤ p.y ∧ p.y < h)

theorem covers_cell {j i : ℕ} :
    Covers (cell j i) p ↔ ((j : K) ≤ p.x ∧ p.x < j + 1) ∧ ((i : K) ≤ p.y ∧ p.y < i + 1) := by
  simp only [Covers, cell, mul_one]

theorem exists_covers [FloorRing K] (hp : Inside w h p) :
    ∃ j < w, ∃ i < h, Covers (cell j i) p := by
  obtain ⟨⟨hx0, hx1⟩, hy0, hy1⟩ := hp
  exact ⟨⌊p.x⌋₊, (Nat.floor_lt hx0).2 hx1, ⌊p.y⌋₊, (Nat.floor_lt hy0).2 hy1,
    covers_cell.2 ⟨⟨Nat.floor_le hx0, Nat.lt_floor_add_one _⟩,
      Nat.floor_le hy0, Nat.lt_floor_add_one _⟩⟩

section

variable [IsStrictOrderedRing K]

theorem inside_of_covers {j i : ℕ} (hj : j < w) (hi : i < h) (hp : Covers (cell j i) p) :
    Inside w h p := by
  obtain ⟨⟨hx0, hx1⟩, hy0, hy1⟩ := covers_cell.1 hp
  refine ⟨⟨(Nat.cast_nonneg j).trans hx0, hx1.trans_le ?_⟩,
    (Nat.cast_nonneg i).trans hy0, hy1.trans_le ?_⟩
  · exact_mod_cast hj
  · exact_mod_cast hi

theorem covers_cell_lt_one {j i : ℕ} (hp : Covers (cell j i) p) :
    (p.x < 1 ∧ p.y < 1) ↔ j = 0 ∧ i = 0 := by
  obtain ⟨⟨hx0, hx1⟩, hy0, hy1⟩ := covers_cell.1 hp
  constructor
  · rintro ⟨hx, hy⟩
    have hj : j < 1 := by exact_mod_cast hx0.trans_lt hx
    have hi : i < 1 := by exact_mod_cast hy0.trans_lt hy
    omega
  · rintro ⟨rfl, rfl⟩
    simpa using And.intro hx1 hy1

end

/-! ### The lookup -/

variable [FloorRing K]

/-- `contains(rect)`. -/
def contains (g : GridMap K) (r : rect K) : List ℤ :=
  let x := ⌊r.pos.x / (g.size_.x.toNat : K)⌋
  let y := ⌊r.pos.y / (g.size_.y.toNat : K)⌋
  let index := y * g.size_.y.toNat + x
  [index]

/-- The constructor writes every cell once, and the lookup of a rectangle whose position is in a
cell gives indices of cells, its own among them. -/
structure Agrees (w h : ℕ) (pos : vec2 K) (r : rect K) : Prop where
  inRange : ∀ c ∈ (writes w h : List (ℕ × rect K)), c.1 < w * h
  once : ∀ k < w * h, ((writes w h : List (ℕ × rect K)).map Prod.fst).count k = 1
  found : ∀ g, new w h pos = some g → ∀ (k : ℕ) (c : rect K), g.grids_[k]? = some c →
    Covers c r.pos → (k : ℤ) ∈ g.contains r ∧ ∀ n ∈ g.contains r, 0 ≤ n ∧ n < w * h

variable [IsStrictOrderedRing K]

/-- **The lookup of a position in the map gives the first cell**, wherever it is. -/
theorem contains_eq (hw : w ≤ 255) (hh : h ≤ 255) (hp : Inside w h r.pos)
    (hsize : g.size_ = ⟨UInt8.ofNat w, UInt8.ofNat h⟩) : g.contains r = [0] := by
  have hw' : (UInt8.ofNat w).toNat = w := UInt8.toNat_ofNat_of_lt' (Nat.lt_succ_of_le hw)
  have hh' : (UInt8.ofNat h).toNat = h := UInt8.toNat_ofNat_of_lt' (Nat.lt_succ_of_le hh)
  obtain ⟨⟨hx0, hx1⟩, hy0, hy1⟩ := hp
  have hfx : ⌊r.pos.x / (w : K)⌋ = 0 :=
    Int.floor_eq_zero_iff.2 ⟨div_nonneg hx0 (Nat.cast_nonneg w),
      (div_lt_one (hx0.trans_lt hx1)).2 hx1⟩
  have hfy : ⌊r.pos.y / (h : K)⌋ = 0 :=
    Int.floor_eq_zero_iff.2 ⟨div_nonneg hy0 (Nat.cast_nonneg h),
      (div_lt_one (hy0.trans_lt hy1)).2 hy1⟩
  rw [contains, hsize, hw', hh', hfx, hfy, zero_mul, add_zero]

theorem found_iff (hw : 1 ≤ w) (hw' : w ≤ 255) (hh : 1 ≤ h) (hh' : h ≤ 255)
    (hcond : h = 1 ∨ h = w) :
    (∀ g, new w h pos = some g → ∀ (k : ℕ) (c : rect K), g.grids_[k]? = some c →
      Covers c r.pos → (k : ℤ) ∈ g.contains r ∧ ∀ n ∈ g.contains r, 0 ≤ n ∧ n < w * h) ↔
        (Inside w h r.pos → r.pos.x < 1 ∧ r.pos.y < 1) := by
  constructor
  · intro hfound hp
    obtain ⟨j, hj, i, hi, hcov⟩ := exists_covers hp
    have hk : j + w * i < w * h := by nlinarith
    have hcell : cell ((j + w * i) % w) ((j + w * i) / w) = (cell j i : rect K) := by
      rw [Nat.add_mul_mod_self_left, Nat.mod_eq_of_lt hj, Nat.add_mul_div_left _ _ hw,
        Nat.div_eq_of_lt hj, Nat.zero_add]
    have hmem := (hfound _ (new_eq hw hcond pos) (j + w * i) (cell j i)
      (by rw [List.getElem?_map, List.getElem?_range hk, Option.map_some, hcell]) hcov).1
    rw [contains_eq hw' hh' hp rfl, List.mem_singleton] at hmem
    refine (covers_cell_lt_one hcov).2 ?_
    have hzero : j + w * i = 0 := by exact_mod_cast hmem
    have hwi : w * i = 0 := by omega
    exact ⟨by omega, (Nat.mul_eq_zero.1 hwi).resolve_left (by omega)⟩
  · intro hp g hg k c hk hcov
    obtain rfl := Option.some.inj ((new_eq hw hcond pos).symm.trans hg)
    rw [List.getElem?_map] at hk
    obtain ⟨k', hk', rfl⟩ := Option.map_eq_some_iff.1 hk
    obtain ⟨hlt, rfl⟩ : k < w * h ∧ k' = k := by
      obtain ⟨hlt, heq⟩ := List.getElem?_eq_some_iff.1 hk'
      exact ⟨by simpa using hlt, by simpa using heq.symm⟩
    have hinside : Inside w h r.pos :=
      inside_of_covers (Nat.mod_lt _ hw) (Nat.div_lt_of_lt_mul hlt) hcov
    obtain ⟨hmod, hdiv⟩ := (covers_cell_lt_one hcov).1 (hp hinside)
    have hk0 : k' = 0 := by rw [← Nat.mod_add_div k' w, hmod, hdiv, Nat.mul_zero]
    rw [contains_eq hw' hh' hinside rfl, hk0]
    refine ⟨List.mem_singleton_self _, List.forall_mem_singleton.2 ⟨le_rfl, ?_⟩⟩
    exact_mod_cast Nat.mul_pos hw hh

/-- **When constructor and lookup agree.**  If there is one row, or as many rows as columns, and the
position is in the first cell or outside the map. -/
theorem agrees_iff (hw : 1 ≤ w) (hw' : w ≤ 255) (hh : 1 ≤ h) (hh' : h ≤ 255) (pos : vec2 K)
    (r : rect K) :
    Agrees w h pos r ↔
      (h = 1 ∨ h = w) ∧ (Inside w h r.pos → r.pos.x < 1 ∧ r.pos.y < 1) := by
  constructor
  · rintro ⟨hrange, honce, hfound⟩
    have hcond := (writes_exact_iff hw hh).1 ⟨hrange, honce⟩
    exact ⟨hcond, (found_iff hw hw' hh hh' hcond).1 hfound⟩
  · rintro ⟨hcond, hp⟩
    obtain ⟨hrange, honce⟩ := (writes_exact_iff (K := K) hw hh).2 hcond
    exact ⟨hrange, honce, (found_iff hw hw' hh hh' hcond).2 hp⟩

/-- The corner of a square map. -/
theorem agrees_iff_corner : Agrees 2 2 (⟨0, 0⟩ : vec2 ℚ) ⟨⟨0, 0⟩, ⟨1, 1⟩⟩ :=
  (agrees_iff (by decide) (by decide) (by decide) (by decide) _ _).2
    ⟨.inr rfl, fun _ => ⟨zero_lt_one, zero_lt_one⟩⟩

/-- The second cell of a square map is not found, and in a map of three columns and two rows two cells
have the index 2. -/
theorem not_agrees :
    ¬Agrees 2 2 (⟨0, 0⟩ : vec2 ℚ) ⟨⟨1, 0⟩, ⟨1, 1⟩⟩ ∧
      ¬Agrees 3 2 (⟨0, 0⟩ : vec2 ℚ) ⟨⟨0, 0⟩, ⟨1, 1⟩⟩ := by
  constructor
  · intro h
    have hcov : Covers (cell 1 0) (⟨1, 0⟩ : vec2 ℚ) := covers_cell.2 (by norm_num)
    have hmem := (h.found _ (new_eq (by decide) (.inr rfl) _) 1 (cell 1 0) rfl hcov).1
    rw [contains_eq (by decide) (by decide)
      (inside_of_covers (by decide) (by decide) hcov) rfl] at hmem
    simp at hmem
  · intro h
    have hcount := h.once 2 (by decide)
    rw [map_fst_writes] at hcount
    exact absurd hcount (by decide)

end GridMap

end bb

end ClientServer
