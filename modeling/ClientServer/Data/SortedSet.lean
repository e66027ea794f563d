import Mathlib.Data.List.Sort

/-!
# Sorted sets

`SortedSet α` is the ordered set of the C++ library over a linear order: a strictly increasing
list, so that going through it and comparing two of them is what the code does.  Two of them
with the same elements are equal (`SortedSet.ext`).

* `mem_insert`, `mem_erase`, `mem_ofList` : the elements after each operation.
* `mem_diff` : `std::set_difference`, as the list of what is in one set and not in the other.
* `perm_diff_append` : the elements of `s`, less those not in `t`, plus those only in `t`, are
  the elements of `t`.
-/

namespace ClientServer

/-- The order of the 32-bit words. -/
instance linearOrderUInt32 : LinearOrder UInt32 where
  le_refl := UInt32.le_refl
  le_trans _ _ _ := UInt32.le_trans
  le_antisymm _ _ := UInt32.le_antisymm
  le_total := UInt32.le_total
  lt_iff_le_not_ge a b := by
    rw [UInt32.lt_iff_toNat_lt, UInt32.le_iff_toNat_le, UInt32.le_iff_toNat_le]
    omega
  toDecidableLE := inferInstance
  toDecidableEq := inferInstance
  toDecidableLT := inferInstance

/-- A set kept as a strictly increasing list. -/
structure SortedSet (α : Type*) [LinearOrder α] where
  /-- The elements in order. -/
  toList : List α
  /-- The list is strictly increasing. -/
  sorted : toList.Pairwise (· < ·)
  deriving DecidableEq

namespace SortedSet

variable {α : Type*} [LinearOrder α]

instance : Membership α (SortedSet α) := ⟨fun s a => a ∈ s.toList⟩

instance (a : α) (s : SortedSet α) : Decidable (a ∈ s) := inferInstanceAs (Decidable (a ∈ s.toList))

@[simp] theorem mem_toList {a : α} {s : SortedSet α} : a ∈ s.toList ↔ a ∈ s := Iff.rfl

@[ext] theorem ext {s t : SortedSet α} (h : ∀ a, a ∈ s ↔ a ∈ t) : s = t := by
  obtain ⟨l, hl⟩ := s
  obtain ⟨m, hm⟩ := t
  obtain rfl : l = m := hl.eq_of_mem_iff hm h
  rfl

theorem nodup (s : SortedSet α) : s.toList.Nodup := s.sorted.imp ne_of_lt

/-! ### Operations -/

/-- The set without elements. -/
def empty : SortedSet α := ⟨[], .nil⟩

instance : EmptyCollection (SortedSet α) := ⟨empty⟩

instance : Inhabited (SortedSet α) := ⟨∅⟩

/-- `emplace`: an element that is there already is not added again. -/
def insert (s : SortedSet α) (a : α) : SortedSet α :=
  if h : a ∈ s then s
  else
    ⟨s.toList.orderedInsert (· ≤ ·) a, by
      have hle : (s.toList.orderedInsert (· ≤ ·) a).Pairwise (· ≤ ·) :=
        (s.sorted.imp le_of_lt).orderedInsert a _
      have hnd : (s.toList.orderedInsert (· ≤ ·) a).Nodup :=
        ((List.perm_orderedInsert _ a _).nodup_iff).2 (List.nodup_cons.2 ⟨h, s.nodup⟩)
      exact (hle.and hnd).imp fun hab => lt_of_le_of_ne hab.1 hab.2⟩

/-- `erase`. -/
def erase (s : SortedSet α) (a : α) : SortedSet α :=
  ⟨s.toList.erase a, s.sorted.sublist List.erase_sublist⟩

/-- The set of the elements of a list, inserted one after the other. -/
def ofList (l : List α) : SortedSet α := l.foldl insert ∅

/-- `std::set_difference`: what is in `s` and not in `t`, in order. -/
def diff (s t : SortedSet α) : List α := s.toList.filter (· ∉ t)

variable {s t : SortedSet α} {a b : α}

@[simp] theorem not_mem_empty : a ∉ (∅ : SortedSet α) := List.not_mem_nil

@[simp] theorem mem_insert : b ∈ s.insert a ↔ b = a ∨ b ∈ s := by
  unfold insert
  split_ifs with h
  · exact ⟨Or.inr, fun hb => hb.elim (fun hba => hba ▸ h) id⟩
  · exact List.mem_orderedInsert (· ≤ ·)

theorem length_pos_iff : 0 < s.toList.length ↔ s ≠ ∅ := by
  rw [List.length_pos_iff, not_iff_not]
  constructor
  · intro h
    ext a
    rw [← mem_toList, h]
    exact Iff.rfl
  · rintro rfl
    rfl

theorem insert_of_mem (h : a ∈ s) : s.insert a = s := dif_pos h

@[simp] theorem mem_erase : b ∈ s.erase a ↔ b ≠ a ∧ b ∈ s := s.nodup.mem_erase_iff

theorem mem_ofList {l : List α} : a ∈ ofList l ↔ a ∈ l := by
  suffices h : ∀ s : SortedSet α, a ∈ l.foldl insert s ↔ a ∈ s ∨ a ∈ l by simpa [ofList] using h ∅
  induction l with
  | nil => simp
  | cons b l ih =>
    intro s
    rw [List.foldl_cons, ih, mem_insert, List.mem_cons]
    tauto

@[simp] theorem mem_diff : a ∈ s.diff t ↔ a ∈ s ∧ a ∉ t := by simp [diff]

theorem diff_self : s.diff s = [] := List.filter_eq_nil_iff.2 fun a ha => by simpa using ha

theorem nodup_diff : (s.diff t).Nodup := s.nodup.filter _

theorem eq_of_diff_eq_nil (hst : s.diff t = []) (hts : t.diff s = []) : s = t := by
  ext a
  have h₁ : a ∉ s.diff t := by simp [hst]
  have h₂ : a ∉ t.diff s := by simp [hts]
  rw [mem_diff] at h₁ h₂
  tauto

/-! ### The elements as a list, up to order -/

theorem perm_insert (h : a ∉ s) : (s.insert a).toList.Perm (a :: s.toList) := by
  rw [insert, dif_neg h]
  exact List.perm_orderedInsert _ a _

theorem toList_erase : (s.erase a).toList = s.toList.filter (· ≠ a) := by
  refine s.nodup.erase_eq_filter a |>.trans (List.filter_congr fun b _ => ?_)
  rw [bne, beq_eq_decide, decide_not]

theorem perm_diff_append : (s.toList ++ t.diff s).Perm (t.toList ++ s.diff t) := by
  have hnd : ∀ u v : SortedSet α, (u.toList ++ v.diff u).Nodup := fun u v =>
    List.nodup_append'.2 ⟨u.nodup, nodup_diff, fun a hu hv => (mem_diff.1 hv).2 hu⟩
  refine (List.perm_ext_iff_of_nodup (hnd s t) (hnd t s)).2 fun a => ?_
  simp only [List.mem_append, mem_toList, mem_diff]
  tauto

end SortedSet

end ClientServer
