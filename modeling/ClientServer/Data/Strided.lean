import Mathlib.Data.List.Nodup
import Mathlib.Data.List.Range
import Mathlib.Tactic.Linarith

/-!
# Filling a vector by index

A table of `h` rows of `w` cells in one vector, where cell `j` of row `i` has the index
`j + stride * i`.

* `strided_exact_iff` : the indices are in range and every one is met once **exactly if the stride is
  the width**, or there is only one row.
* `flatMap_range_map` : then the two loops are one loop over the vector.
* `setAt`, `foldlM_setAt_range` : writing with a bound check, and what is there after a write to
  every index.
-/

namespace ClientServer

variable {α β : Type*}

/-! ### Writes -/

/-- Set one element, if it is there. -/
def setAt (vec : List α) (c : ℕ × α) : Option (List α) :=
  if c.1 < vec.length then some (vec.set c.1 c.2) else none

theorem foldl_set_range (f : ℕ → α) (d : α) {n size : ℕ} (hn : n ≤ size) :
    (List.range n).foldl (fun vec i => vec.set i (f i)) (List.replicate size d) =
      (List.range n).map f ++ List.replicate (size - n) d := by
  induction n with
  | zero => rw [Nat.sub_zero]; rfl
  | succ n ih =>
    have hlen : ((List.range n).map f).length = n := by rw [List.length_map, List.length_range]
    have hrest : size - n = size - (n + 1) + 1 := by omega
    rw [List.range_succ, List.foldl_append, ih (by omega), List.foldl_cons, List.foldl_nil,
      List.set_append_right _ _ hlen.le, hlen, Nat.sub_self, hrest, List.replicate_succ,
      List.set_cons_zero, List.map_append, List.append_assoc]
    rfl

theorem foldlM_setAt {cs : List (ℕ × α)} {vec : List α} (h : ∀ c ∈ cs, c.1 < vec.length) :
    cs.foldlM setAt vec = some (cs.foldl (fun vec c => vec.set c.1 c.2) vec) := by
  induction cs generalizing vec with
  | nil => rfl
  | cons c cs ih =>
    rw [List.forall_mem_cons] at h
    rw [List.foldlM_cons, setAt, if_pos h.1, Option.bind_eq_bind, Option.bind_some, List.foldl_cons]
    exact ih fun c' hc' => by rw [List.length_set]; exact h.2 c' hc'

theorem foldlM_setAt_range (f : ℕ → α) (d : α) (size : ℕ) :
    ((List.range size).map fun k => (k, f k)).foldlM setAt (List.replicate size d) =
      some ((List.range size).map f) := by
  rw [foldlM_setAt, List.foldl_map, foldl_set_range f d le_rfl, Nat.sub_self,
    List.replicate_zero, List.append_nil]
  simp

/-! ### Two loops -/

/-- Row by row, with the width as the stride. -/
theorem flatMap_range_map (f : ℕ → ℕ → β) {w : ℕ} (hw : 0 < w) (h : ℕ) :
    ((List.range h).flatMap fun i => (List.range w).map fun j => f j i) =
      (List.range (w * h)).map fun k => f (k % w) (k / w) := by
  induction h with
  | zero => rfl
  | succ h ih =>
    rw [List.range_succ, List.flatMap_append, ih, List.flatMap_singleton, Nat.mul_succ,
      List.range_add, List.map_append, List.map_map]
    congr 1
    refine List.map_congr_left fun j hj => ?_
    rw [List.mem_range] at hj
    rw [Function.comp_apply, Nat.mul_add_mod, Nat.mod_eq_of_lt hj, Nat.mul_add_div hw,
      Nat.div_eq_of_lt hj, Nat.add_zero]

/-- The indices of `h` rows of `w` cells. -/
def strided (stride w h : ℕ) : List ℕ :=
  (List.range h).flatMap fun i => (List.range w).map fun j => j + stride * i

theorem mem_strided {stride w h k : ℕ} :
    k ∈ strided stride w h ↔ ∃ i < h, ∃ j < w, j + stride * i = k := by
  simp [strided]

theorem strided_self {w : ℕ} (hw : 0 < w) (h : ℕ) : strided w w h = List.range (w * h) := by
  rw [strided, flatMap_range_map (fun j i => j + w * i) hw]
  simp [Nat.mod_add_div]

theorem strided_one_row (stride stride' w : ℕ) : strided stride w 1 = strided stride' w 1 := by
  simp [strided]

/-- With a stride below the width the first cell of the second row is one of the first row. -/
theorem not_nodup_strided {stride w h : ℕ} (hstride : stride < w) (hh : 1 < h) :
    ¬(strided stride w h).Nodup := by
  intro hnodup
  have hrows := List.pairwise_iff_getElem.1 (List.nodup_flatMap.1 hnodup).2 0 1
    (by rw [List.length_range]; omega) (by rwa [List.length_range]) Nat.zero_lt_one
  simp only [List.getElem_range, Function.onFun] at hrows
  refine hrows (a := stride) (List.mem_map.2 ⟨stride, List.mem_range.2 hstride, by omega⟩)
    (List.mem_map.2 ⟨0, List.mem_range.2 (by omega), by omega⟩)

/-- With a stride above the width the last cell is not in the vector. -/
theorem le_last_strided {stride w h : ℕ} (hw : 0 < w) (hstride : w < stride) (hh : 1 < h) :
    w * h ≤ w - 1 + stride * (h - 1) := by
  obtain ⟨w, rfl⟩ := Nat.exists_eq_add_of_lt hw
  obtain ⟨h, rfl⟩ := Nat.exists_eq_add_of_lt hh
  have hle : (0 + w + 1 + 1) * (1 + h + 1 - 1) ≤ stride * (1 + h + 1 - 1) :=
    Nat.mul_le_mul_right _ hstride
  simp only [Nat.add_sub_cancel] at hle ⊢
  nlinarith

/-- **Every index once.**  A smaller stride meets an index twice, a larger one leaves the vector. -/
theorem strided_exact_iff {stride w h : ℕ} (hw : 0 < w) :
    ((∀ k ∈ strided stride w h, k < w * h) ∧ ∀ k < w * h, (strided stride w h).count k = 1) ↔
      h ≤ 1 ∨ stride = w := by
  constructor
  · rintro ⟨hrange, honce⟩
    by_contra hne
    obtain ⟨hh, hne⟩ := not_or.1 hne
    have hh' : 1 < h := by omega
    rcases Nat.lt_or_gt_of_ne hne with hlt | hgt
    · refine not_nodup_strided hlt hh' (List.nodup_iff_count_le_one.2 fun k => ?_)
      by_cases hk : k ∈ strided stride w h
      · exact (honce k (hrange k hk)).le
      · exact (List.count_eq_zero_of_not_mem hk).le.trans (Nat.zero_le 1)
    · have hlast := hrange _ (mem_strided.2 ⟨h - 1, by omega, w - 1, by omega, rfl⟩)
      exact absurd hlast (le_last_strided hw hgt hh').not_gt
  · intro hcond
    have heq : strided stride w h = List.range (w * h) := by
      rcases hcond with hle | rfl
      · rcases Nat.le_one_iff_eq_zero_or_eq_one.1 hle with rfl | rfl
        · rfl
        · rw [strided_one_row stride w, strided_self hw]
      · exact strided_self hw h
    rw [heq]
    exact ⟨fun k hk => List.mem_range.1 hk,
      fun k hk => List.count_eq_one_of_mem List.nodup_range (List.mem_range.2 hk)⟩

end ClientServer
