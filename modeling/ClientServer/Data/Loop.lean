import Mathlib.Data.List.Nodup

/-!
# Loops that may stop early

A loop goes through a list and takes a step at each element; the step also says whether the loop
goes on.  Where every step touches only what belongs to its element, the elements could as well be
visited one by one; an early end is what can keep them from it.

* `Loop.run` : the loop.
* `Loop.invariant` : what every step keeps holds after the loop.
* `Loop.alone_iff` : **when every element fares as if it were visited alone**: nothing after a
  step that ends the loop had something to do.
-/

namespace ClientServer

namespace Loop

variable {S α β : Type*}

/-- Take a step at each element, as long as the steps say that the loop goes on. -/
def run (step : S → α → S × Bool) (s : S) : List α → S
  | [] => s
  | a :: l => if (step s a).2 then run step (step s a).1 l else (step s a).1

/-- `own s a` is what belongs to `a`: a step at `a` touches only that, and what it makes of it, and
whether it ends the loop, depends on that alone. -/
structure Separate (step : S → α → S × Bool) (own : S → α → β) : Prop where
  others : ∀ s a b, b ≠ a → own (step s a).1 b = own s b
  congr : ∀ s s' a, own s a = own s' a →
    own (step s a).1 a = own (step s' a).1 a ∧ (step s a).2 = (step s' a).2

variable {step : S → α → S × Bool} {own : S → α → β} {s : S} {a : α} {l : List α}

theorem invariant {I : S → Prop} (hstep : ∀ s, ∀ a ∈ l, I s → I (step s a).1) (h : I s) :
    I (run step s l) := by
  induction l generalizing s with
  | nil => exact h
  | cons a l ih =>
    have ha := hstep s a List.mem_cons_self h
    rw [run]
    split_ifs
    · exact ih (fun s b hb => hstep s b (List.mem_cons_of_mem a hb)) ha
    · exact ha

theorem Separate.run_of_not_mem (h : Separate step own) (ha : a ∉ l) :
    own (run step s l) a = own s a :=
  invariant (I := fun s' => own s' a = own s a)
    (fun s' b hb hs' => (h.others s' b a (ne_of_mem_of_not_mem hb ha).symm).trans hs') rfl

/-- **Elements on their own.**  Each element fares in the loop as if it were visited alone iff
none that comes after the end of the loop had something to do. -/
theorem Separate.alone_iff (h : Separate step own) (hl : l.Nodup) :
    (∀ a ∈ l, own (run step s l) a = own (step s a).1 a) ↔
      l.Pairwise fun x a => (step s x).2 = false → own (step s a).1 a = own s a := by
  induction l generalizing s with
  | nil => simp
  | cons x l ih =>
    obtain ⟨hx, hl⟩ := List.nodup_cons.1 hl
    -- the step at `x` changes nothing for the others
    have hsame : ∀ a ∈ l, own (step s x).1 a = own s a := fun a ha =>
      h.others s x a (ne_of_mem_of_not_mem ha hx)
    have hcongr := fun a ha => h.congr (step s x).1 s a (hsame a ha)
    rw [List.forall_mem_cons, List.pairwise_cons, run]
    by_cases hon : (step s x).2 = true
    · have hpairs : (l.Pairwise fun y a => (step (step s x).1 y).2 = false →
          own (step (step s x).1 a).1 a = own (step s x).1 a) ↔
          l.Pairwise fun y a => (step s y).2 = false → own (step s a).1 a = own s a := by
        refine List.Pairwise.iff_of_mem fun {y a} hy ha => ?_
        rw [(hcongr y hy).2, (hcongr a ha).1, hsame a ha]
      have hrec := (ih (s := (step s x).1) hl).trans hpairs
      rw [if_pos hon, ← hrec, and_iff_right (h.run_of_not_mem hx),
        and_iff_right fun a _ hoff => absurd hon (by rw [hoff]; decide)]
      exact forall₂_congr fun a ha => by rw [(hcongr a ha).1]
    · have hoff : (step s x).2 = false := Bool.eq_false_iff.2 hon
      rw [if_neg hon, and_iff_right rfl]
      constructor
      · intro hall
        have hidle : ∀ a ∈ l, own (step s a).1 a = own s a := fun a ha =>
          (hall a ha).symm.trans (hsame a ha)
        exact ⟨fun a ha _ => hidle a ha,
          List.pairwise_of_forall_mem_list fun _ _ a ha _ => hidle a ha⟩
      · rintro ⟨hhead, -⟩ a ha
        rw [hhead a ha hoff, hsame a ha]

end Loop

end ClientServer
