import Mathlib.Data.Set.Insert
import Mathlib.Order.Bounds.Basic

/-!
# Searches for the nearest hit

A search keeps whether there was a hit, and the least of the values met so far.  Its steps may
fail, for what they read or for anything else that does not depend on the values met.

* `Nearest.offer` : one value, if there is one.
* `Searches f ok S` : the step `f` succeeds iff `ok`, and meets the values `S`.
* `searches_foldlM` : a loop meets what its steps meet, and succeeds iff all of them do.
-/

namespace ClientServer

/-- Whether there was a hit, and the least value. -/
structure Nearest (K : Type*) where
  hit : Bool
  tmin : K
  deriving DecidableEq

variable {K : Type*} [LinearOrder K]

/-- Two sets have the same least element, if neither has an element below all of the other. -/
theorem isLeast_of_coinitial {S S' : Set K} {m : K} (h : IsCoinitialFor S S')
    (h' : IsCoinitialFor S' S) (hm : IsLeast S m) : IsLeast S' m := by
  obtain ⟨s, hs, hsm⟩ := h hm.1
  have hbelow : ∀ t ∈ S', m ≤ t := fun t ht => by
    obtain ⟨r, hr, hrt⟩ := h' ht
    exact (hm.2 hr).trans hrt
  exact ⟨le_antisymm hsm (hbelow s hs) ▸ hs, hbelow⟩

namespace Nearest

/-- A value, if there is one. -/
def offer (n : Nearest K) : Option K → Nearest K
  | none => n
  | some t => ⟨true, if t < n.tmin then t else n.tmin⟩

/-- `n'` is `n` after the values `S`. -/
structure After (S : Set K) (n n' : Nearest K) : Prop where
  hit_iff : n'.hit = true ↔ n.hit = true ∨ S.Nonempty
  isLeast : IsLeast (insert n.tmin S) n'.tmin

variable {n n' n'' : Nearest K} {S S' : Set K}

theorem After.refl (n : Nearest K) : After ∅ n n :=
  ⟨by simp, by simp⟩

theorem After.trans (h : After S n n') (h' : After S' n' n'') : After (S ∪ S') n n'' := by
  refine ⟨by rw [h'.hit_iff, h.hit_iff, Set.union_nonempty, or_assoc], ?_, ?_⟩
  · rcases h'.isLeast.1 with heq | hmem
    · rw [heq]
      exact (Set.insert_subset_insert Set.subset_union_left) h.isLeast.1
    · exact .inr (.inr hmem)
  · have hle : n''.tmin ≤ n'.tmin := h'.isLeast.2 (.inl rfl)
    rintro t (rfl | hS | hS')
    · exact hle.trans (h.isLeast.2 (.inl rfl))
    · exact hle.trans (h.isLeast.2 (.inr hS))
    · exact h'.isLeast.2 (.inr hS')

theorem after_offer (n : Nearest K) (o : Option K) : After {t | o = some t} n (n.offer o) := by
  cases o with
  | none =>
    have hsame : After ∅ n (n.offer none) := .refl n
    simpa using hsame
  | some t =>
    have hset : {t' | some t = some t'} = ({t} : Set K) := by
      ext t'
      simp [eq_comm]
    rw [hset]
    refine ⟨by simp [offer], ?_⟩
    change IsLeast _ (if t < n.tmin then t else n.tmin)
    split_ifs with hlt
    · exact ⟨.inr rfl, by rintro _ (rfl | rfl); exacts [hlt.le, le_rfl]⟩
    · exact ⟨.inl rfl, by rintro _ (rfl | rfl); exacts [le_rfl, not_lt.1 hlt]⟩

theorem After.isLeast_of_hit (h : After S n n') (hn : n.hit = false) (hS : ∀ t ∈ S, t ≤ n.tmin) :
    (n'.hit = true ↔ S.Nonempty) ∧ (n'.hit = true → IsLeast S n'.tmin) := by
  have hiff : n'.hit = true ↔ S.Nonempty := by simpa [hn] using h.hit_iff
  refine ⟨hiff, fun hhit => ⟨?_, fun t ht => h.isLeast.2 (.inr ht)⟩⟩
  obtain ⟨t, ht⟩ := hiff.1 hhit
  rcases h.isLeast.1 with heq | hmem
  · have hle : n'.tmin ≤ t := h.isLeast.2 (.inr ht)
    rwa [le_antisymm hle (heq ▸ hS t ht)]
  · exact hmem

end Nearest

/-- The step `f` succeeds iff `ok`, and meets the values `S`. -/
structure Searches (f : Nearest K → Option (Nearest K)) (ok : Prop) (S : Set K) : Prop where
  isSome_iff : ∀ n, (f n).isSome ↔ ok
  after : ∀ n n', f n = some n' → Nearest.After S n n'

namespace Searches

variable {f : Nearest K → Option (Nearest K)} {ok : Prop} {S : Set K}

theorem skip : Searches (some : Nearest K → Option (Nearest K)) True ∅ :=
  ⟨fun _ => by simp, fun n _ h => Option.some.inj h ▸ .refl n⟩

theorem offer (o : Option K) : Searches (fun n => some (n.offer o)) True {t | o = some t} :=
  ⟨fun _ => by simp, fun n _ h => Option.some.inj h ▸ n.after_offer o⟩

theorem fail (S : Set K) : Searches (fun _ : Nearest K => none) False S :=
  ⟨fun _ => by simp, fun _ _ h => absurd h (Option.some_ne_none _).symm⟩

theorem congr {ok' : Prop} {S' : Set K} (h : Searches f ok S) (hok : ok ↔ ok')
    (hS : ok → S = S') : Searches f ok' S' := by
  refine ⟨fun n => (h.isSome_iff n).trans hok, fun n n' hn => ?_⟩
  rw [← hS ((h.isSome_iff n).1 (by rw [hn]; rfl))]
  exact h.after n n' hn

theorem bind {α : Type*} {o : Option α} {g : α → Nearest K → Option (Nearest K)}
    {ok' : α → Prop} {S' : α → Set K} (h : ∀ a, o = some a → Searches (g a) (ok' a) (S' a)) :
    Searches (fun n => o.bind fun a => g a n) (∃ a, o = some a ∧ ok' a)
      {t | ∃ a, o = some a ∧ t ∈ S' a} := by
  cases o with
  | none => exact (fail ∅).congr (by simp) fun hok => absurd hok not_false
  | some a => exact (h a rfl).congr (by simp) fun _ => by simp

/-- **A loop** meets what its steps meet. -/
theorem foldlM {α : Type*} {g : α → Nearest K → Option (Nearest K)} {ok' : α → Prop}
    {S' : α → Set K} {l : List α} (h : ∀ a ∈ l, Searches (g a) (ok' a) (S' a)) :
    Searches (fun n => l.foldlM (fun n a => g a n) n) (∀ a ∈ l, ok' a)
      {t | ∃ a ∈ l, t ∈ S' a} := by
  induction l with
  | nil => exact skip.congr (by simp) fun _ => by simp
  | cons a l ih =>
    rw [List.forall_mem_cons] at h
    have hrest := ih h.2
    refine ⟨fun n => ?_, fun n n' hn => ?_⟩
    · rw [List.foldlM_cons, List.forall_mem_cons, ← h.1.isSome_iff n]
      cases hg : g a n with
      | none => simp
      | some n' => simpa using hrest.isSome_iff n'
    · obtain ⟨m, hm, hn⟩ := Option.bind_eq_some_iff.1 hn
      have hall := (h.1.after n m hm).trans (hrest.after m n' hn)
      convert hall using 1
      ext t
      simp

end Searches

end ClientServer
