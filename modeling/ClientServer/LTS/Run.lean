import Mathlib.Data.List.Basic

/-!
# Transition systems and their runs

Whatever takes step after step is given as a labelled transition system.  A *run* keeps the
state every step was taken from, so that a condition on a step may speak about the state before
it.

## Main definitions

* `LTS S L` : a transition relation `S → L → S → Prop`.
* `LTS.Run s₀ es s` : from `s₀`, the steps `es` (each a label with the state it was taken in)
  lead to `s`.
* `LTS.Always P es s` : `P` holds in every state of such a run.
* `LTS.Run.always_iff` : the rule the theorems on runs are instances of.  If the steps
  that satisfy `C` keep an invariant and every other step breaks `P` at once, then `P` holds
  all along a run exactly when all its steps satisfy `C`.
* `LTS.Run.refines`, `LTS.Run.refines_visible` : a system whose steps are steps of another, or
  cannot be seen there, has its runs only.
* `LTS.ofNext`, `LTS.execute` : systems given by a partial function can be run.
-/

namespace ClientServer

/-- A labelled transition system with states `S` and labels `L`. -/
structure LTS (S : Type*) (L : Type*) where
  /-- `step s l s'` : the system can move from `s` to `s'` by `l`. -/
  step : S → L → S → Prop

namespace LTS

variable {S L : Type*} (A : LTS S L)

/-- `Run s₀ es s` : the steps `es`, each recorded with the state it was taken in, lead from
`s₀` to `s`. -/
inductive Run (s₀ : S) : List (S × L) → S → Prop
  | start : Run s₀ [] s₀
  | snoc {es : List (S × L)} {s s' : S} {l : L} :
      Run s₀ es s → A.step s l s' → Run s₀ (es ++ [(s, l)]) s'

/-- `P` holds in every state of the run with steps `es` and last state `s`. -/
def Always (P : S → Prop) (es : List (S × L)) (s : S) : Prop := (∀ e ∈ es, P e.1) ∧ P s

variable {A}

theorem always_snoc {P : S → Prop} {es : List (S × L)} {s s' : S} {l : L} :
    Always P (es ++ [(s, l)]) s' ↔ Always P es s ∧ P s' := by
  simp only [Always, List.mem_append, List.mem_singleton, or_imp, forall_and, forall_eq]

namespace Run

variable {s₀ s : S} {es : List (S × L)}

/-- A run of a system that has fewer steps. -/
theorem mono {B : LTS S L} (hstep : ∀ s l s', A.step s l s' → B.step s l s')
    (h : A.Run s₀ es s) : B.Run s₀ es s := by
  induction h with
  | start => exact .start
  | snoc _ hst ih => exact ih.snoc (hstep _ _ _ hst)

/-- What holds at the start and is kept by every step that satisfies `C` holds in every state of
a run of such steps. -/
theorem always_of {I : S → Prop} {C : S → L → Prop} (h : A.Run s₀ es s) (h₀ : I s₀)
    (hstep : ∀ s l s', I s → A.step s l s' → C s l → I s') (hC : ∀ e ∈ es, C e.1 e.2) :
    Always I es s := by
  induction h with
  | start => exact ⟨by simp, h₀⟩
  | @snoc es s s' l _ hst ih =>
    have hall := ih fun e he => hC e (List.mem_append_left _ he)
    exact always_snoc.2 ⟨hall, hstep s l s' hall.2 hst
      (hC (s, l) (List.mem_append_right _ (List.mem_singleton_self _)))⟩

theorem of_always {P : S → Prop} (h : A.Run s₀ es s) (hP : Always P es s) : P s₀ := by
  induction h with
  | start => exact hP.2
  | snoc _ _ ih => exact ih (always_snoc.1 hP).1

/-- Induction over a run whose steps all satisfy `C`: what holds at the start and is kept by
every such step holds at the end. -/
theorem invariant_of {I : S → Prop} {C : S → L → Prop} (h : A.Run s₀ es s) (h₀ : I s₀)
    (hstep : ∀ s l s', I s → A.step s l s' → C s l → I s') (hC : ∀ e ∈ es, C e.1 e.2) : I s :=
  (h.always_of h₀ hstep hC).2

/-- What holds at the start and is kept by every step holds at the end. -/
theorem invariant {I : S → Prop} (h : A.Run s₀ es s) (h₀ : I s₀)
    (hstep : ∀ s l s', I s → A.step s l s' → I s') : I s :=
  h.invariant_of (C := fun _ _ => True) h₀ (fun s l s' hI hst _ => hstep s l s' hI hst)
    fun _ _ => trivial

/-- **Exact conditions over runs.**  `I` holds at the start, implies `P`, and is kept by every
step that satisfies `C`; a step from `I` that does not satisfy `C` ends in a state without
`P`.  Then `P` holds in every state of a run iff every step of it satisfies `C`. -/
theorem always_iff {I P : S → Prop} {C : S → L → Prop} (h : A.Run s₀ es s) (h₀ : I s₀)
    (hP : ∀ s, I s → P s)
    (hkeep : ∀ s l s', I s → A.step s l s' → C s l → I s')
    (hbreak : ∀ s l s', I s → A.step s l s' → P s' → C s l) :
    Always P es s ↔ ∀ e ∈ es, C e.1 e.2 := by
  induction h with
  | start => simp [Always, hP _ h₀]
  | @snoc es s s' l hrun hst ih =>
    rw [always_snoc, ih]
    simp only [List.mem_append, List.mem_singleton, or_imp, forall_and, forall_eq]
    refine and_congr_right fun hC => ?_
    have hI : I s := hrun.invariant_of h₀ hkeep hC
    exact ⟨hbreak s l s' hI hst, fun hc => hP s' (hkeep s l s' hI hst hc)⟩

/-- **Refinement.**  Where every step that satisfies `C`, from a state with the invariant `I`, is a
step of the system `B`, states seen by `f`, a run of such steps is a run of `B` with the same labels. -/
theorem refines_of {S' : Type*} {B : LTS S' L} {I : S → Prop} {C : S → L → Prop} (f : S → S')
    (h : A.Run s₀ es s) (h₀ : I s₀) (hkeep : ∀ s l s', I s → A.step s l s' → C s l → I s')
    (hstep : ∀ s l s', I s → A.step s l s' → C s l → B.step (f s) l (f s'))
    (hC : ∀ e ∈ es, C e.1 e.2) : B.Run (f s₀) (es.map fun e => (f e.1, e.2)) (f s) := by
  induction h with
  | start => exact .start
  | @snoc es s s' l hrun hst ih =>
    have hall : ∀ e ∈ es, C e.1 e.2 := fun e he => hC e (List.mem_append_left _ he)
    rw [List.map_append]
    exact (ih hall).snoc (hstep s l s' (hrun.invariant_of h₀ hkeep hall) hst (hC (s, l) (by simp)))

/-- Refinement where all steps are steps of `B`. -/
theorem refines {S' : Type*} {B : LTS S' L} {I : S → Prop} (f : S → S') (h : A.Run s₀ es s)
    (h₀ : I s₀) (hkeep : ∀ s l s', I s → A.step s l s' → I s')
    (hstep : ∀ s l s', I s → A.step s l s' → B.step (f s) l (f s')) :
    B.Run (f s₀) (es.map fun e => (f e.1, e.2)) (f s) :=
  h.refines_of (C := fun _ _ => True) f h₀ (fun s l s' hs hst _ => hkeep s l s' hs hst)
    (fun s l s' hs hst _ => hstep s l s' hs hst) fun _ _ => trivial

/-- **Refinement with invisible steps.**  Where every step from a state with the invariant `I` is a
step of `B` with the label that is seen of it, or leaves what `f` sees if there is none, the labels
that are seen are a run of `B`. -/
theorem refines_visible {S' L' : Type*} {B : LTS S' L'} {I : S → Prop} (f : S → S')
    (visible : S → L → Option L') (h : A.Run s₀ es s) (h₀ : I s₀)
    (hkeep : ∀ s l s', I s → A.step s l s' → I s')
    (hhidden : ∀ s l s', I s → A.step s l s' → visible s l = none → f s' = f s)
    (hstep : ∀ s l s' l', I s → A.step s l s' → visible s l = some l' → B.step (f s) l' (f s')) :
    B.Run (f s₀) (es.filterMap fun e => (visible e.1 e.2).map fun l' => (f e.1, l')) (f s) := by
  induction h with
  | start => exact .start
  | @snoc es s s' l hrun hst ih =>
    have hI : I s := hrun.invariant h₀ hkeep
    rw [List.filterMap_append]
    cases hl : visible s l with
    | none => simpa [hl, hhidden s l s' hI hst hl] using ih
    | some l' =>
      rw [List.filterMap_cons_some (by rw [hl]; rfl), List.filterMap_nil]
      exact ih.snoc (hstep s l s' l' hI hst hl)

/-- What holds of every step from the end of a run holds of every step in a run. -/
theorem forall_steps {P : S → L → Prop} (h : A.Run s₀ es s)
    (hP : ∀ es s l s', A.Run s₀ es s → A.step s l s' → P s l) : ∀ e ∈ es, P e.1 e.2 := by
  induction h with
  | start => simp
  | @snoc es s s' l hrun hst ih =>
    simp only [List.mem_append, List.mem_singleton, or_imp, forall_and, forall_eq]
    exact ⟨ih, hP es s l s' hrun hst⟩

/-- Where runs cannot be longer than `n` steps, one of them comes to a state without steps. -/
theorem exists_stuck {n : ℕ} (hn : ∀ es s, A.Run s₀ es s → es.length ≤ n) :
    ∃ es s, A.Run s₀ es s ∧ ∀ l s', ¬A.step s l s' := by
  -- otherwise every run can be continued
  by_contra hnone
  push Not at hnone
  have long : ∀ k, ∃ es s, A.Run s₀ es s ∧ es.length = k := by
    intro k
    induction k with
    | zero => exact ⟨[], s₀, .start, rfl⟩
    | succ k ih =>
      obtain ⟨es, s, hrun, hlen⟩ := ih
      obtain ⟨l, s', hst⟩ := hnone es s hrun
      exact ⟨_, s', hrun.snoc hst, by rw [List.length_append, hlen]; rfl⟩
  obtain ⟨es, s, hrun, hlen⟩ := long (n + 1)
  have := hn es s hrun
  omega

theorem append {s' : S} {es' : List (S × L)} (h : A.Run s₀ es s) (h' : A.Run s es' s') :
    A.Run s₀ (es ++ es') s' := by
  induction h' with
  | start => simpa using h
  | snoc _ hst ih => rw [← List.append_assoc]; exact ih.snoc hst

/-- **Progress.**  Where from every state with the invariant `I`, unless it has `D`, a step that
satisfies `C` keeps `I` and makes `m` smaller, such steps lead to a state with `D`. -/
theorem exists_done {I D : S → Prop} {C : S → L → Prop} (m : S → ℕ)
    (hstep : ∀ s, I s → ¬D s → ∃ l s', A.step s l s' ∧ C s l ∧ I s' ∧ m s' < m s) {s : S}
    (h : I s) : ∃ es s', A.Run s es s' ∧ (∀ e ∈ es, C e.1 e.2) ∧ I s' ∧ D s' := by
  induction hn : m s using Nat.strongRecOn generalizing s with
  | ind n ih =>
    by_cases hdone : D s
    · exact ⟨[], s, .start, by simp, h, hdone⟩
    · obtain ⟨l, s₁, hst, hl, hI, hm⟩ := hstep s h hdone
      obtain ⟨es, s', hrun, hC, hI', hdone'⟩ := ih _ (hn ▸ hm) hI rfl
      have hfirst : A.Run s [(s, l)] s₁ := Run.start.snoc hst
      exact ⟨_, s', hfirst.append hrun, List.forall_mem_cons.2 ⟨hl, hC⟩, hI', hdone'⟩

end Run

/-! ### Systems given by a function -/

/-- The system of a partial function: `none` means that the step is not possible. -/
def ofNext (next : S → L → Option S) : LTS S L where
  step s l s' := next s l = some s'

/-- Take the steps with these labels one after the other. -/
def execute (next : S → L → Option S) (s : S) : List L → Option S
  | [] => some s
  | l :: ls => (next s l).bind fun s' => execute next s' ls

/-- The steps of an execution. -/
def trace (next : S → L → Option S) (s : S) : List L → List (S × L)
  | [] => []
  | l :: ls =>
    match next s l with
    | none => [(s, l)]
    | some s' => (s, l) :: trace next s' ls

theorem run_of_execute {next : S → L → Option S} {ls : List L} {s s' : S}
    (h : execute next s ls = some s') : (ofNext next).Run s (trace next s ls) s' := by
  induction ls generalizing s with
  | nil =>
    obtain rfl := Option.some.inj h
    exact .start
  | cons l ls ih =>
    obtain ⟨t, ht, hexec⟩ := Option.bind_eq_some_iff.1 h
    rw [trace, ht]
    exact (Run.start.snoc ht : (ofNext next).Run s [(s, l)] t).append (ih hexec)

/-- An execution whose last state passes the test `p` is a run to such a state. -/
theorem exists_run (next : S → L → Option S) (s : S) (ls : List L) (p : S → Bool)
    (h : (execute next s ls).any p = true) :
    ∃ s', (ofNext next).Run s (trace next s ls) s' ∧ p s' = true := by
  cases hexec : execute next s ls with
  | none => rw [hexec] at h; cases h
  | some s' => rw [hexec] at h; exact ⟨s', run_of_execute hexec, h⟩

end LTS

end ClientServer
