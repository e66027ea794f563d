import Mathlib.Data.List.Basic
import Mathlib.Data.List.Induction

/-!
# What a log announces

A log is a list of messages, the oldest first.  A message may let items enter and let items leave.
An item is announced if it has entered and not left since.

* `announced_append_singleton` : one more message.
* `announced_append_of_forall` : messages that let nothing enter or leave.
* `announced_iff` : going through the log decides it.
-/

namespace ClientServer

variable {M E : Type*} {entered left : M → List E} {l l' : List M} {m : M} {e : E}

/-- A message that lets `e` enter is in the log, and neither it nor a later one lets `e` leave. -/
def Announced (entered left : M → List E) (l : List M) (e : E) : Prop :=
  ∃ l₁ m l₂, l = l₁ ++ m :: l₂ ∧ e ∈ entered m ∧ ∀ m' ∈ m :: l₂, e ∉ left m'

theorem not_announced_nil : ¬Announced entered left [] e := by
  rintro ⟨l₁, m, l₂, hl, -⟩
  exact absurd hl.symm (List.append_ne_nil_of_right_ne_nil l₁ (List.cons_ne_nil m l₂))

theorem announced_append_singleton : Announced entered left (l ++ [m]) e ↔
    (Announced entered left l e ∨ e ∈ entered m) ∧ e ∉ left m := by
  constructor
  · rintro ⟨l₁, m₁, l₂, hl, hin, hleft⟩
    rcases List.eq_nil_or_concat' l₂ with rfl | ⟨l₂, m₂, rfl⟩
    · obtain ⟨-, hm⟩ := List.append_inj' hl rfl
      obtain rfl := (List.cons.inj hm).1
      exact ⟨.inr hin, hleft m List.mem_cons_self⟩
    · rw [← List.cons_append, ← List.append_assoc] at hl
      obtain ⟨rfl, hm⟩ := List.append_inj' hl rfl
      obtain rfl := (List.cons.inj hm).1
      rw [← List.cons_append] at hleft
      refine ⟨.inl ⟨l₁, m₁, l₂, rfl, hin, fun m' hm' => ?_⟩, ?_⟩
      · exact hleft m' (List.mem_append_left _ hm')
      · exact hleft m (List.mem_append_right _ (List.mem_singleton_self m))
  · rintro ⟨⟨l₁, m₁, l₂, rfl, hin, hleft⟩ | hin, hm⟩
    · refine ⟨l₁, m₁, l₂ ++ [m], by rw [List.append_assoc, List.cons_append], hin, ?_⟩
      intro m' hm'
      rw [← List.cons_append, List.mem_append, List.mem_singleton] at hm'
      rcases hm' with hm' | rfl
      · exact hleft m' hm'
      · exact hm
    · refine ⟨l, m, [], rfl, hin, fun m' hm' => ?_⟩
      obtain rfl := List.mem_singleton.1 hm'
      exact hm

/-- Messages that let nothing enter or leave. -/
theorem announced_append_of_forall (h : ∀ m ∈ l', entered m = [] ∧ left m = []) :
    Announced entered left (l ++ l') e ↔ Announced entered left l e := by
  induction l' using List.reverseRecOn with
  | nil => rw [List.append_nil]
  | append_singleton l' m ih =>
    obtain ⟨hin, hout⟩ := h m (List.mem_append_right _ (List.mem_singleton_self m))
    rw [← List.append_assoc, announced_append_singleton, hin, hout,
      ih fun m' hm' => h m' (List.mem_append_left _ hm')]
    simp

/-! ### Message by message -/

variable [DecidableEq E]

/-- `Announced`, message by message. -/
def announced (entered left : M → List E) (e : E) (l : List M) : Bool :=
  l.foldl (fun b m => (b || e ∈ entered m) && e ∉ left m) false

theorem announced_iff : announced entered left e l = true ↔ Announced entered left l e := by
  induction l using List.reverseRecOn with
  | nil => exact iff_of_false Bool.false_ne_true not_announced_nil
  | append_singleton l m ih =>
    rw [announced_append_singleton, ← ih, announced, List.foldl_append, ← announced]
    simp

instance : Decidable (Announced entered left l e) := decidable_of_iff _ announced_iff

end ClientServer
