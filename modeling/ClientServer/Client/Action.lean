import ClientServer.LTS.Run
import Mathlib.Data.List.Perm.Subperm
import Mathlib.Algebra.Order.Group.Nat

/-!
# Delegates

An `Action` calls the functors that are subscribed to it.  They are kept in a vector, and who
subscribes gets the address of its slot, to unsubscribe with.  The vector is taken not to
reallocate, so that an address is an index.  But erasing a slot moves the later ones, and their
addresses stay as they are.

* `Action.call` : the functors that are called, one after the other.
* `subscriptionSystem` : subscribing and unsubscribing in any order.
* `Subscriptions.right_run_iff` : **exactly when every address removes its own subscription**.
-/

namespace ClientServer

/-- `Action`, with functors of type `T`. -/
structure Action (T : Type*) where
  functions_ : List T

namespace Action

variable {T S : Type*}

/-- `operator+=`, which returns the slot. -/
def subscribe (a : Action T) (f : T) : Action T × ℕ :=
  (⟨a.functions_ ++ [f]⟩, (a.functions_ ++ [f]).length - 1)

/-- `operator()`, where `invoke` is the effect of one functor. -/
def call (invoke : S → T → S) (a : Action T) (s : S) : S := a.functions_.foldl invoke s

/-- `operator-=`: the first slot with the address `f` is erased, if there is one. -/
def unsubscribe (a : Action T) (f : ℕ) : Action T :=
  match (List.range a.functions_.length).find? fun i => i = f with
  | some i => ⟨a.functions_.eraseIdx i⟩
  | none => a

theorem subscribe_snd (a : Action T) (f : T) : (a.subscribe f).2 = a.functions_.length := by
  simp [subscribe]

theorem unsubscribe_functions (a : Action T) (f : ℕ) :
    (a.unsubscribe f).functions_ = a.functions_.eraseIdx f := by
  rw [unsubscribe]
  cases hfind : (List.range a.functions_.length).find? fun i => i = f with
  | some i =>
    obtain rfl : i = f := by simpa using List.find?_some hfind
    rfl
  | none =>
    have hlen : a.functions_.length ≤ f := by
      refine Nat.le_of_not_lt fun hlt => ?_
      simpa using List.find?_eq_none.1 hfind f (List.mem_range.2 hlt)
    exact (List.eraseIdx_of_length_le hlen).symm

theorem call_log (a : Action T) : a.call (fun calls f => calls ++ [f]) [] = a.functions_ := by
  have hloop : ∀ fs calls : List T, fs.foldl (fun calls f => calls ++ [f]) calls = calls ++ fs := by
    intro fs
    induction fs with
    | nil => simp
    | cons f fs ih => intro calls; rw [List.foldl_cons, ih, List.append_assoc]; rfl
  exact hloop _ _

end Action

/-! ### Subscribing and unsubscribing -/

/-- A subscription: its number, its functor, the address returned, and the numbers of those that
were subscribed when it was made. -/
structure Subscription (T : Type*) where
  id : ℕ
  functor : T
  handle : ℕ
  others : List ℕ

/-- What is called for a subscription. -/
def Subscription.callee {T : Type*} (u : Subscription T) : ℕ × T := (u.id, u.functor)

/-- An `Action`, each functor with the number of its subscription; how many subscriptions were made;
and those that were not unsubscribed, in the order they were made. -/
structure Subscriptions (T : Type*) where
  action : Action (ℕ × T)
  made : ℕ
  live : List (Subscription T)

/-- What the owner of the `Action` and the subscribers can do. -/
inductive SubscriptionStep (T : Type*)
  | subscribe (f : T)
  | unsubscribe (u : Subscription T)

namespace Subscriptions

variable {T : Type*}

/-- Nobody is subscribed. -/
def start : Subscriptions T := ⟨⟨[]⟩, 0, []⟩

/-- A subscription, which gets the next number. -/
def subscribe (s : Subscriptions T) (f : T) : Subscriptions T where
  action := (s.action.subscribe (s.made, f)).1
  made := s.made + 1
  live := s.live ++
    [⟨s.made, f, (s.action.subscribe (s.made, f)).2, s.live.map Subscription.id⟩]

/-- `operator-=` with the address that was returned for `u`. -/
def unsubscribe (s : Subscriptions T) (u : Subscription T) : Subscriptions T where
  action := s.action.unsubscribe u.handle
  made := s.made
  live := s.live.filter fun v => v.id ≠ u.id

end Subscriptions

/-- Subscriptions in any order, each unsubscribed at most once. -/
def subscriptionSystem (T : Type*) : LTS (Subscriptions T) (SubscriptionStep T) where
  step s l s' :=
    match l with
    | .subscribe f => s' = s.subscribe f
    | .unsubscribe u => u ∈ s.live ∧ s' = s.unsubscribe u

namespace Subscriptions

variable {T : Type*} {s s' : Subscriptions T} {u : Subscription T} {l : SubscriptionStep T}

/-- Those that are subscribed are called, each once, in the order they subscribed. -/
def Right (s : Subscriptions T) : Prop :=
  s.action.call (fun calls f => calls ++ [f]) [] = s.live.map Subscription.callee

/-- None of those that were subscribed when it was made has been unsubscribed before it. -/
def NoneGone (s : Subscriptions T) : SubscriptionStep T → Prop
  | .subscribe _ => True
  | .unsubscribe u => ∀ k ∈ u.others, k ∈ s.live.map Subscription.id

/-- Numbers grow, addresses count those that were there, and those that are still there and came
before are among these. -/
structure Numbered (s : Subscriptions T) : Prop where
  right : s.Right
  fresh : ∀ u ∈ s.live, u.id < s.made
  increasing : s.live.Pairwise fun u v => u.id < v.id
  handle : ∀ u ∈ s.live, u.handle = u.others.length
  nodup : ∀ u ∈ s.live, u.others.Nodup
  earlier : ∀ u ∈ s.live, ∀ k ∈ u.others, k < u.id
  before : ∀ pre u post, s.live = pre ++ u :: post → (pre.map Subscription.id).Sublist u.others

theorem right_iff : s.Right ↔ s.action.functions_ = s.live.map Subscription.callee := by
  rw [Right, Action.call_log]

theorem numbered_start : (start : Subscriptions T).Numbered where
  right := rfl
  fresh := by simp [start]
  increasing := .nil
  handle := by simp [start]
  nodup := by simp [start]
  earlier := by simp [start]
  before := by simp [start]

namespace Numbered

theorem subscribe (hs : s.Numbered) (f : T) : (s.subscribe f).Numbered := by
  have hslot : (s.action.subscribe (s.made, f)).2 = (s.live.map Subscription.id).length := by
    rw [Action.subscribe_snd, right_iff.1 hs.right, List.length_map, List.length_map]
  have hids : s.live.map Subscription.id |>.Pairwise (· < ·) := List.pairwise_map.2 hs.increasing
  have hfresh : ∀ k ∈ s.live.map Subscription.id, k < s.made := by
    simpa using hs.fresh
  constructor
  case right =>
    rw [right_iff, Subscriptions.subscribe, List.map_append, ← right_iff.1 hs.right]
    rfl
  case fresh =>
    exact List.forall_mem_append.2 ⟨fun u hu => (hs.fresh u hu).trans (Nat.lt_succ_self _),
      List.forall_mem_singleton.2 (Nat.lt_succ_self _)⟩
  case increasing =>
    exact List.pairwise_append.2 ⟨hs.increasing, List.pairwise_singleton ..,
      fun u hu => List.forall_mem_singleton.2 (hs.fresh u hu)⟩
  case handle =>
    exact List.forall_mem_append.2 ⟨hs.handle, List.forall_mem_singleton.2 hslot⟩
  case nodup =>
    exact List.forall_mem_append.2
      ⟨hs.nodup, List.forall_mem_singleton.2 (hids.imp Nat.ne_of_lt)⟩
  case earlier =>
    exact List.forall_mem_append.2 ⟨hs.earlier, List.forall_mem_singleton.2 hfresh⟩
  case before =>
    intro pre u post hlive
    rcases List.eq_nil_or_concat post with rfl | ⟨post, v, rfl⟩
    · obtain ⟨rfl, heq⟩ := List.append_inj' hlive rfl
      obtain rfl := List.singleton_injective heq
      exact .refl _
    · have hlive' : (s.subscribe f).live = (pre ++ u :: post) ++ [v] := by simpa using hlive
      exact hs.before pre u post (List.append_inj' hlive' rfl).1

theorem filter_live {pre post : List (Subscription T)} (hs : s.Numbered)
    (hlive : s.live = pre ++ u :: post) :
    s.live.filter (fun v => v.id ≠ u.id) = pre ++ post := by
  have hinc := hs.increasing
  rw [hlive, List.pairwise_append, List.pairwise_cons] at hinc
  obtain ⟨-, ⟨hpost, -⟩, hpre⟩ := hinc
  have hpre' : ∀ v ∈ pre, v.id ≠ u.id := fun v hv => (hpre v hv u List.mem_cons_self).ne
  have hpost' : ∀ v ∈ post, v.id ≠ u.id := fun v hv => (hpost v hv).ne'
  rw [hlive, List.filter_append, List.filter_cons_of_neg (by simp),
    List.filter_eq_self.2 (by simpa using hpre'), List.filter_eq_self.2 (by simpa using hpost')]

/-- **The address is the place** exactly when none that was there before is gone. -/
theorem handle_eq_iff {pre post : List (Subscription T)} (hs : s.Numbered)
    (hlive : s.live = pre ++ u :: post) :
    u.handle = pre.length ↔ NoneGone s (.unsubscribe u) := by
  have hu : u ∈ s.live := hlive ▸ List.mem_append_right _ List.mem_cons_self
  have hsub := hs.before pre u post hlive
  have hinc := hs.increasing
  rw [hlive, List.pairwise_append, List.pairwise_cons] at hinc
  obtain ⟨-, ⟨hpost, -⟩, -⟩ := hinc
  rw [hs.handle u hu]
  constructor
  · intro hlen k hk
    have heq : pre.map Subscription.id = u.others := hsub.eq_of_length (by rw [List.length_map, hlen])
    rw [hlive, List.map_append]
    exact List.mem_append_left _ (heq ▸ hk)
  · intro hgone
    have hmem : u.others ⊆ pre.map Subscription.id := by
      intro k hk
      have hlt := hs.earlier u hu k hk
      have hk' := hgone k hk
      rw [hlive, List.map_append, List.map_cons, List.mem_append, List.mem_cons, List.mem_map,
        List.mem_map] at hk'
      rcases hk' with ⟨v, hv, rfl⟩ | rfl | ⟨v, hv, rfl⟩
      · exact List.mem_map_of_mem hv
      · exact absurd hlt (lt_irrefl _)
      · exact absurd hlt (hpost v hv).not_gt
    have hle := ((hs.nodup u hu).subperm hmem).length_le
    have hge := hsub.length_le
    rw [List.length_map] at hle hge
    exact le_antisymm hle hge

/-- Unsubscribing keeps the numbers, if it removed the right slot. -/
theorem unsubscribe (hs : s.Numbered) (hright : (s.unsubscribe u).Right) :
    (s.unsubscribe u).Numbered where
  right := hright
  fresh v hv := hs.fresh v (List.mem_of_mem_filter hv)
  increasing := hs.increasing.sublist List.filter_sublist
  handle v hv := hs.handle v (List.mem_of_mem_filter hv)
  nodup v hv := hs.nodup v (List.mem_of_mem_filter hv)
  earlier v hv := hs.earlier v (List.mem_of_mem_filter hv)
  before := by
    intro pre v post hlive
    obtain ⟨pre₁, rest, hsplit, rfl, hrest⟩ := List.filter_eq_append_iff.1 hlive
    obtain ⟨pre₂, post', rfl, -⟩ := List.filter_eq_cons_iff.1 hrest
    refine .trans ?_ (hs.before (pre₁ ++ pre₂) v post' (by rw [hsplit, List.append_assoc]))
    exact (List.filter_sublist.trans (List.sublist_append_left ..)).map _

/-- **Unsubscribing removes the right slot** exactly when none that was there before is gone: a slot
behind its own, or none at all, is removed otherwise. -/
theorem right_unsubscribe_iff (hs : s.Numbered) (hu : u ∈ s.live) :
    (s.unsubscribe u).Right ↔ NoneGone s (.unsubscribe u) := by
  obtain ⟨pre, post, hlive⟩ := List.append_of_mem hu
  have hvector : s.action.functions_ =
      pre.map Subscription.callee ++ u.callee :: post.map Subscription.callee := by
    rw [right_iff.1 hs.right, hlive, List.map_append, List.map_cons]
  have hleft : (s.unsubscribe u).live = pre ++ post := hs.filter_live hlive
  rw [right_iff, hleft, ← hs.handle_eq_iff hlive, Subscriptions.unsubscribe,
    Action.unsubscribe_functions, hvector]
  constructor
  · intro heq
    by_contra hne
    -- its own slot is still there, with its number
    have hmem : u.callee ∈ (pre.map Subscription.callee ++
        u.callee :: post.map Subscription.callee).eraseIdx u.handle := by
      refine List.mem_eraseIdx_iff_getElem?.2 ⟨pre.length, Ne.symm hne, ?_⟩
      rw [List.getElem?_append_right (by rw [List.length_map]), List.length_map, Nat.sub_self]
      rfl
    rw [heq, ← hs.filter_live hlive, List.mem_map] at hmem
    obtain ⟨v, hv, hcallee⟩ := hmem
    have hid : v.id ≠ u.id := by simpa using (List.mem_filter.1 hv).2
    exact hid (Prod.mk.inj hcallee).1
  · intro heq
    rw [heq, List.eraseIdx_append_of_length_le (by rw [List.length_map]), List.length_map,
      Nat.sub_self, List.eraseIdx_zero, List.tail_cons, List.map_append]

theorem step (hs : s.Numbered) (hstep : (subscriptionSystem T).step s l s')
    (hnone : NoneGone s l) : s'.Numbered := by
  cases l with
  | subscribe f =>
    obtain rfl := hstep
    exact hs.subscribe f
  | unsubscribe u =>
    obtain ⟨hu, rfl⟩ := hstep
    exact hs.unsubscribe ((hs.right_unsubscribe_iff hu).2 hnone)

end Numbered

/-- **When every address removes its own subscription.**  In every state of a run those that are
subscribed are called, each once and in order: iff nobody unsubscribes after one that was there
when he subscribed has left. -/
theorem right_run_iff {es : List (Subscriptions T × SubscriptionStep T)}
    (h : (subscriptionSystem T).Run start es s) :
    LTS.Always Right es s ↔ ∀ e ∈ es, NoneGone e.1 e.2 := by
  refine h.always_iff numbered_start (fun _ hs => hs.right)
    (fun _ _ _ hs hstep hnone => hs.step hstep hnone) ?_
  intro s l s' hs hstep hright
  cases l with
  | subscribe f => trivial
  | unsubscribe u =>
    obtain ⟨hu, rfl⟩ := hstep
    exact (hs.right_unsubscribe_iff hu).1 hright

/-- The second of two leaves. -/
theorem right_run_iff_last : ∃ es s,
    (subscriptionSystem ℕ).Run start es s ∧ es.length = 3 ∧ s.action.functions_ = [(0, 5)] ∧
      LTS.Always Right es s := by
  have hsub : ∀ s f, (subscriptionSystem ℕ).step s (.subscribe f) (s.subscribe f) := fun _ _ => rfl
  have hun : (subscriptionSystem ℕ).step ((start.subscribe 5).subscribe 6)
      (.unsubscribe ⟨1, 6, 1, [0]⟩) (((start.subscribe 5).subscribe 6).unsubscribe ⟨1, 6, 1, [0]⟩) :=
    ⟨List.mem_cons_of_mem _ List.mem_cons_self, rfl⟩
  have hrun := ((LTS.Run.start.snoc (hsub start 5)).snoc (hsub _ 6)).snoc hun
  refine ⟨_, _, hrun, rfl, by decide +kernel, (right_run_iff hrun).2 ?_⟩
  simp only [List.nil_append, List.mem_append, List.mem_singleton, or_imp, forall_and, forall_eq]
  exact ⟨⟨trivial, trivial⟩, by change ∀ k ∈ [0], k ∈ [0, 1]; decide⟩

/-- The first leaves, a third one comes, and when the second leaves the third is removed. -/
theorem not_right_first_left : ¬∀ (es : List (Subscriptions ℕ × SubscriptionStep ℕ))
    (s : Subscriptions ℕ), (subscriptionSystem ℕ).Run start es s → s.Right := by
  intro h
  have hsub : ∀ s f, (subscriptionSystem ℕ).step s (.subscribe f) (s.subscribe f) := fun _ _ => rfl
  have hun : ∀ s u, u ∈ s.live →
      (subscriptionSystem ℕ).step s (.unsubscribe u) (s.unsubscribe u) := fun _ _ hu => ⟨hu, rfl⟩
  have hright := h _ _ ((((LTS.Run.start.snoc (hsub start 5)).snoc (hsub _ 6)).snoc
    (hun _ ⟨0, 5, 0, []⟩ List.mem_cons_self)).snoc (hsub _ 7) |>.snoc
      (hun _ ⟨1, 6, 1, [0]⟩ List.mem_cons_self))
  exact absurd (right_iff.1 hright) (by decide +kernel)

end Subscriptions

end ClientServer
