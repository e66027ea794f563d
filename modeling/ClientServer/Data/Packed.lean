import Mathlib.Data.List.Nodup

/-!
# Packed arrays

An array without holes: what is added goes to the end, and what is removed is replaced by the
last element.  A *slot* is a position in it.  The lemmas say what each slot holds afterwards:
removing an element moves the last one, and a slot of it that was kept elsewhere is stale.
-/

namespace ClientServer

namespace Packed

variable {α : Type*}

/-- Remove the element of slot `i`: the last one is moved there. -/
def swapAndPop (l : List α) (i : ℕ) : List α :=
  match l.getLast? with
  | none => []
  | some a => (l.set i a).dropLast

variable {l : List α} {a : α} {i j : ℕ}

theorem getLast?_eq (h : l[j]? = some a) (hj : j + 1 = l.length) : l.getLast? = some a := by
  rw [List.getLast?_eq_getElem?, ← hj, Nat.add_sub_cancel, h]

theorem length_swapAndPop : (swapAndPop l i).length = l.length - 1 := by
  unfold swapAndPop
  split
  · rename_i h
    rw [List.getLast?_eq_none_iff.1 h]
    rfl
  · rw [List.length_dropLast, List.length_set]

theorem swapAndPop_last (h : l.length = i + 1) : swapAndPop l i = l.dropLast := by
  unfold swapAndPop
  split
  · rename_i hnone
    rw [List.getLast?_eq_none_iff.1 hnone]
    rfl
  · rename_i a ha
    rw [List.getLast?_eq_getElem?, h, Nat.add_sub_cancel] at ha
    have hset : l.set i a = l := by
      obtain ⟨hi, rfl⟩ := List.getElem?_eq_some_iff.1 ha
      exact List.set_getElem_self hi
    rw [hset]

theorem modify_append_last (f : α → α) : (l ++ [a]).modify l.length f = l ++ [f a] := by
  induction l with
  | nil => rfl
  | cons b l ih => rw [List.cons_append, List.length_cons, List.modify_succ_cons, ih,
      List.cons_append]

theorem getElem?_swapAndPop_self (h : l[j]? = some a) (hj : j + 1 = l.length) (hi : i < j) :
    (swapAndPop l i)[i]? = some a := by
  unfold swapAndPop
  rw [getLast?_eq h hj]
  have hlt : i < (l.set i a).dropLast.length := by
    rw [List.length_dropLast, List.length_set]
    omega
  rw [List.getElem?_eq_getElem hlt, List.getElem_dropLast, List.getElem_set_self]

theorem mem_of_mem_swapAndPop (h : a ∈ swapAndPop l i) : a ∈ l := by
  unfold swapAndPop at h
  split at h
  · cases h
  · rename_i b hb
    rcases List.mem_or_eq_of_mem_set (List.dropLast_subset _ h) with h | rfl
    · exact h
    · exact List.mem_of_getLast? hb

theorem getElem?_swapAndPop_last (hj : j + 1 = l.length) : (swapAndPop l i)[j]? = none := by
  rw [List.getElem?_eq_none_iff, length_swapAndPop]
  omega

theorem getElem?_dropLast_of_lt (h : i + 1 < l.length) : l.dropLast[i]? = l[i]? := by
  rw [List.getElem?_dropLast, if_pos (by omega)]

/-! ### Elements with keys -/

section Keys

variable {κ : Type*} [DecidableEq κ] {f : α → κ} {k : κ}

theorem find?_iff (h : (l.map f).Nodup) : l.find? (f · = k) = some a ↔ a ∈ l ∧ f a = k := by
  constructor
  · intro hfind
    exact ⟨List.mem_of_find?_eq_some hfind, by simpa using List.find?_some hfind⟩
  · rintro ⟨ha, rfl⟩
    obtain ⟨b, hb⟩ : ∃ b, l.find? (f · = f a) = some b :=
      Option.isSome_iff_exists.1 (List.find?_isSome.2 ⟨a, ha, by simp⟩)
    have hkey : f b = f a := by simpa using List.find?_some hb
    rw [hb, List.inj_on_of_nodup_map h (List.mem_of_find?_eq_some hb) ha hkey]

theorem findIdx_eq (h : (l.map f).Nodup) (hi : l[i]? = some a) : l.findIdx (f · = f a) = i := by
  obtain ⟨hlt, rfl⟩ := List.getElem?_eq_some_iff.1 hi
  refine (List.findIdx_eq hlt).2 ⟨by simp, fun j hj => ?_⟩
  have hne := List.pairwise_iff_getElem.1 (List.pairwise_map.1 h) j i (Nat.lt_trans hj hlt) hlt hj
  simpa using hne

end Keys

end Packed

end ClientServer
