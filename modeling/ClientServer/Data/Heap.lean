import Mathlib.Data.Multiset.Range
import Mathlib.Data.Multiset.MapFold
import Mathlib.Logic.Equiv.Basic

/-!
# Binary heaps in an array

The first `n` places of an array are a tree: place `i > 0` is below place `(i - 1) / 2`.  A heap
has the least key on top.  It is repaired along one path: an element that is out of order is
*swapped* upwards, or a gap is moved down to a leaf first.  Whoever keeps the element aside and
writes it at the end only does the same with fewer writes (`update_update`).

* `Ordered key a n` : no place has a smaller key than the one above it.
* `Rising key a n i` : the same, but that the element at `i` may have to go up.
* `Gap key a n i` : the same, whatever is at `i`.
* `Ordered.top_le` : the top is the least.
* `content_swap` : swapping keeps the elements.
-/

namespace ClientServer

namespace Heap

variable {α K : Type*}

/-- The place above. -/
def parent (i : ℕ) : ℕ := (i - 1) / 2

/-- The elements at the first `n` places. -/
def content (a : ℕ → α) (n : ℕ) : Multiset α := (Multiset.range n).map a

/-- Exchange the elements at `i` and `j`. -/
def swap (a : ℕ → α) (i j : ℕ) : ℕ → α := a ∘ Equiv.swap i j

section Order

variable [LinearOrder K] (key : α → K) (a : ℕ → α) (n i : ℕ)

/-- No element is smaller than the one above it. -/
def Ordered : Prop := ∀ c, 0 < c → c < n → key (a (parent c)) ≤ key (a c)

/-- In order, but that the element at `i` may be smaller than the one above it. -/
structure Rising : Prop where
  others : ∀ c, 0 < c → c < n → c ≠ i → key (a (parent c)) ≤ key (a c)
  across : ∀ c, 0 < c → c < n → parent c = i → 0 < i → key (a (parent i)) ≤ key (a c)

/-- In order, whatever the element at `i` is. -/
structure Gap : Prop where
  others : ∀ c, 0 < c → c < n → c ≠ i → parent c ≠ i → key (a (parent c)) ≤ key (a c)
  across : ∀ c, 0 < c → c < n → parent c = i → 0 < i → key (a (parent i)) ≤ key (a c)

end Order

variable {a : ℕ → α} {n i j c : ℕ}

/-! ### Places -/

theorem parent_lt (h : 0 < i) : parent i < i := by unfold parent; omega

theorem eq_child (h : 0 < c) (hp : parent c = i) : c = 2 * i + 1 ∨ c = 2 * i + 2 := by
  unfold parent at hp; omega

/-! ### Elements -/

theorem swap_of_ne {k : ℕ} (hi : k ≠ i) (hj : k ≠ j) : swap a i j k = a k := by
  rw [swap, Function.comp_apply, Equiv.swap_apply_of_ne_of_ne hi hj]

theorem swap_left : swap a i j i = a j := by rw [swap, Function.comp_apply, Equiv.swap_apply_left]

theorem swap_right : swap a i j j = a i := by
  rw [swap, Function.comp_apply, Equiv.swap_apply_right]

/-- An element `x` kept aside is swapped, too. -/
theorem update_update (x : α) (h : j ≠ i) :
    Function.update (Function.update a i (a j)) j x = swap (Function.update a i x) i j := by
  funext k
  by_cases hj : k = j
  · rw [hj, Function.update_self, swap_right, Function.update_self]
  · by_cases hi : k = i
    · rw [hi, Function.update_of_ne h.symm, Function.update_self, swap_left,
        Function.update_of_ne h]
    · rw [Function.update_of_ne hj, Function.update_of_ne hi, swap_of_ne hi hj,
        Function.update_of_ne hi]

theorem mem_content {x : α} : x ∈ content a n ↔ ∃ k < n, a k = x := by simp [content]

theorem card_content : (content a n).card = n := by simp [content]

theorem content_congr {b : ℕ → α} (h : ∀ k < n, a k = b k) : content a n = content b n :=
  Multiset.map_congr rfl fun k hk => h k (Multiset.mem_range.1 hk)

/-- **Swapping keeps the elements.** -/
theorem content_swap (hi : i < n) (hj : j < n) : content (swap a i j) n = content a n := by
  have hrange : (Multiset.range n).map (Equiv.swap i j) = Multiset.range n := by
    refine (Multiset.Nodup.ext ?_ (Multiset.nodup_range n)).2 fun k => ?_
    · exact (Multiset.nodup_range n).map (Equiv.swap i j).injective
    · simp only [Multiset.mem_map, Multiset.mem_range]
      constructor
      · rintro ⟨l, hl, rfl⟩
        rw [Equiv.swap_apply_def]
        split_ifs <;> assumption
      · intro hk
        refine ⟨Equiv.swap i j k, ?_, Equiv.swap_apply_self i j k⟩
        rw [Equiv.swap_apply_def]
        split_ifs <;> assumption
  rw [content, swap, ← Multiset.map_map, hrange, content]

theorem content_push (x : α) : content (Function.update a n x) (n + 1) = x ::ₘ content a n := by
  have hsame : content (Function.update a n x) n = content a n :=
    content_congr fun k hk => Function.update_of_ne hk.ne x a
  rw [← hsame, content, Multiset.range_succ, Multiset.map_cons, Function.update_self, content]

theorem content_pop : a 0 ::ₘ content (Function.update a 0 (a n)) n = content a (n + 1) := by
  cases n with
  | zero => simp [content]
  | succ n =>
    have hswap : content (swap a 0 (n + 1)) (n + 1) =
        content (Function.update a 0 (a (n + 1))) (n + 1) := by
      refine content_congr fun k hk => ?_
      by_cases h0 : k = 0
      · rw [h0, swap_left, Function.update_self]
      · rw [swap_of_ne h0 hk.ne, Function.update_of_ne h0]
    have hall : content (swap a 0 (n + 1)) (n + 1 + 1) = content a (n + 1 + 1) :=
      content_swap (Nat.succ_pos (n + 1)) (Nat.lt_succ_self (n + 1))
    have hlast : content (swap a 0 (n + 1)) (n + 1 + 1) =
        swap a 0 (n + 1) (n + 1) ::ₘ content (swap a 0 (n + 1)) (n + 1) := by
      rw [content, Multiset.range_succ, Multiset.map_cons, content]
    rw [← hall, hlast, swap_right, hswap]

/-! ### Order -/

section Order

variable [LinearOrder K] {key : α → K}

theorem Ordered.top_le (h : Ordered key a n) {k : ℕ} (hk : k < n) : key (a 0) ≤ key (a k) := by
  induction k using Nat.strong_induction_on with
  | _ k ih =>
    rcases Nat.eq_zero_or_pos k with rfl | hpos
    · exact le_rfl
    · have hlt := parent_lt hpos
      exact (ih (parent k) hlt (hlt.trans hk)).trans (h k hpos hk)

theorem Ordered.le_of_mem (h : Ordered key a n) {x : α} (hx : x ∈ content a n) :
    key (a 0) ≤ key x := by
  obtain ⟨k, hk, rfl⟩ := mem_content.1 hx
  exact h.top_le hk

theorem Ordered.rising_of_le {key' : α → K} (h : Ordered key a n)
    (hle : key' (a i) ≤ key (a i)) (hsame : ∀ k < n, k ≠ i → key' (a k) = key (a k)) :
    Rising key' a n i where
  others c hc hn hne := by
    rw [hsame c hn hne]
    by_cases hp : parent c = i
    · exact (hp ▸ hle).trans (hp ▸ h c hc hn)
    · rw [hsame _ ((parent_lt hc).trans hn) hp]
      exact h c hc hn
  across c hc hn hp hi := by
    have hci : i < c := hp ▸ parent_lt hc
    rw [hsame c hn hci.ne', hsame _ ((parent_lt hi).trans (hci.trans hn)) (parent_lt hi).ne]
    have hup := h i hi (hci.trans hn)
    have hdown : key (a i) ≤ key (a c) := hp ▸ h c hc hn
    exact hup.trans hdown

theorem Ordered.rising_push (h : Ordered key a n) (x : α) :
    Rising key (Function.update a n x) (n + 1) n where
  others c hc hn hne := by
    have hlt : c < n := by omega
    have hp := parent_lt hc
    rw [Function.update_of_ne hne, Function.update_of_ne (hp.trans hlt).ne]
    exact h c hc hlt
  across c hc hn hp _ := by
    have hlt : n < c := hp ▸ parent_lt hc
    omega

theorem Ordered.gap_pop (h : Ordered key a (n + 1)) (x : α) :
    Gap key (Function.update a 0 x) n 0 where
  others c hc hn _ hp := by
    rw [Function.update_of_ne hc.ne', Function.update_of_ne hp]
    exact h c hc (by omega)
  across _ _ _ _ h0 := absurd h0 (lt_irrefl 0)

/-- Swapped with a greater element above it, the element may still have to go up. -/
theorem Rising.up (h : Rising key a n i) (hi : 0 < i) (hn : i < n)
    (hlt : key (a i) < key (a (parent i))) : Rising key (swap a i (parent i)) n (parent i) := by
  have hp := parent_lt hi
  constructor
  · intro c hc hcn hne
    by_cases hci : c = i
    · rw [hci, swap_right, swap_left]
      exact hlt.le
    rw [swap_of_ne hci hne]
    by_cases hpi : parent c = i
    · rw [hpi, swap_left]
      exact h.across c hc hcn hpi hi
    · by_cases hpp : parent c = parent i
      · rw [hpp, swap_right]
        exact hlt.le.trans (hpp ▸ h.others c hc hcn hci)
      · rw [swap_of_ne hpi hpp]
        exact h.others c hc hcn hci
  · intro c hc hcn hpc h0
    have hpp := parent_lt h0
    rw [swap_of_ne (hpp.trans hp).ne hpp.ne]
    have hup := h.others (parent i) h0 (hp.trans hn) hp.ne
    by_cases hci : c = i
    · rw [hci, swap_left]
      exact hup
    · rw [swap_of_ne hci (hpc ▸ parent_lt hc).ne']
      exact hup.trans (hpc ▸ h.others c hc hcn hci)

/-- It is in order as soon as it need not go up any more. -/
theorem Rising.ordered (h : Rising key a n i)
    (hstop : 0 < i → key (a (parent i)) ≤ key (a i)) : Ordered key a n := by
  intro c hc hn
  by_cases hci : c = i
  · subst hci
    exact hstop hc
  · exact h.others c hc hn hci

/-- The gap goes down to the smaller child. -/
theorem Gap.down (h : Gap key a n i) (hc : 0 < c) (hn : c < n) (hp : parent c = i)
    (hleast : ∀ d, 0 < d → d < n → parent d = i → key (a c) ≤ key (a d)) :
    Gap key (swap a i c) n c := by
  have hic : i < c := hp ▸ parent_lt hc
  constructor
  · intro d hd hdn hne hpd
    have hdi := parent_lt hd
    by_cases hpi : parent d = i
    · rw [hpi, swap_left, swap_of_ne (hpi ▸ hdi).ne' hne]
      exact hleast d hd hdn hpi
    · rw [swap_of_ne hpi hpd]
      by_cases hdi : d = i
      · subst hdi
        rw [swap_left]
        exact h.across c hc hn hp hd
      · rw [swap_of_ne hdi hne]
        exact h.others d hd hdn hdi hpi
  · intro d hd hdn hpd _
    have hcd : c < d := hpd ▸ parent_lt hd
    rw [hp, swap_left, swap_of_ne (hic.trans hcd).ne' hcd.ne']
    have hle := h.others d hd hdn (hic.trans hcd).ne' (hpd ▸ hic.ne')
    rwa [hpd] at hle

/-- At a leaf the gap is filled by an element that may have to go up. -/
theorem Gap.rising (h : Gap key a n i) (hleaf : n ≤ 2 * i + 1) : Rising key a n i where
  others c hc hn hne := by
    refine h.others c hc hn hne fun hp => ?_
    rcases eq_child hc hp with rfl | rfl <;> omega
  across c hc hn hp _ := by
    rcases eq_child hc hp with rfl | rfl <;> omega

end Order

end Heap

end ClientServer
