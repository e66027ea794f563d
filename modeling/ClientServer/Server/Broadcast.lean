import ClientServer.Server.Movement
import ClientServer.Server.Players
import ClientServer.Server.Sight

/-!
# Who is told of a movement

A region in which `UpdatePath` is a step of its own.  Its `MoveNfy` goes to the players that the
tree finds just now, while what they know comes from the neighbours kept from step to step.

* `Region.informed_updatePath` : what the players know is not changed by a `MoveNfy`.
* `Region.always_introduced_iff` : **when no player ever gets a `MoveNfy` of an entity it does not
  know of**: each player that the tree finds has the entity as a neighbour.
-/

namespace ClientServer

open Components

variable {F U : Type*}

/-! ### Packets about entities one knows of -/

section Introduced

variable [DecidableEq U]

/-- Whoever gets a `MoveNfy` has been told before that the entity enters, and not since that it
leaves. -/
def Introduced (l : List (U × Message F)) : Prop := ∀ l₁ l₂ u dest spd e,
  l = l₁ ++ (u, .MoveNfy dest spd e) :: l₂ → Knows (packetsTo u l₁) e

variable {l l' : List (U × Message F)} {q : U × Message F} {e : Entity}

theorem introduced_nil : Introduced ([] : List (U × Message F)) := by
  intro l₁ l₂ u dest spd e h
  exact absurd h.symm (List.append_ne_nil_of_right_ne_nil l₁ (List.cons_ne_nil _ l₂))

theorem introduced_append_singleton : Introduced (l ++ [q]) ↔ Introduced l ∧
    ∀ dest spd e, q.2 = .MoveNfy dest spd e → Knows (packetsTo q.1 l) e := by
  constructor
  · intro h
    refine ⟨fun l₁ l₂ u dest spd e hl => ?_, fun dest spd e hq => ?_⟩
    · exact h l₁ (l₂ ++ [q]) u dest spd e (by rw [hl, List.append_assoc, List.cons_append])
    · exact h l [] q.1 dest spd e (by rw [← hq])
  · rintro ⟨hl, hq⟩ l₁ l₂ u dest spd e hsplit
    rcases List.eq_nil_or_concat' l₂ with rfl | ⟨l₂, q', rfl⟩
    · obtain ⟨rfl, hm⟩ := List.append_inj' hsplit rfl
      obtain rfl := (List.cons.inj hm).1
      exact hq dest spd e rfl
    · rw [← List.cons_append, ← List.append_assoc] at hsplit
      obtain ⟨hsplit, -⟩ := List.append_inj' hsplit rfl
      exact hl l₁ l₂ u dest spd e hsplit

/-- More packets, of which none is a `MoveNfy`. -/
theorem Introduced.append (h : Introduced l) (hl' : ∀ q ∈ l', q.2.isVisibility = true) :
    Introduced (l ++ l') := by
  induction l' using List.reverseRecOn with
  | nil => rwa [List.append_nil]
  | append_singleton l' q ih =>
    have hq := hl' q (List.mem_append_right _ (List.mem_singleton_self q))
    rw [← List.append_assoc, introduced_append_singleton]
    refine ⟨ih fun q' hq' => hl' q' (List.mem_append_left _ hq'), fun dest spd e hmove => ?_⟩
    rw [hmove] at hq
    cases hq

/-- More packets, all of them `MoveNfy`s of `e`: nobody learns of an entity by them. -/
theorem introduced_append_iff (hl' : ∀ q ∈ l', ∃ dest spd, q.2 = .MoveNfy dest spd e) :
    Introduced (l ++ l') ↔ Introduced l ∧ ∀ q ∈ l', Knows (packetsTo q.1 l) e := by
  induction l' using List.reverseRecOn with
  | nil => simp
  | append_singleton l' q ih =>
    have hinit : ∀ q' ∈ l', ∃ dest spd, q'.2 = .MoveNfy dest spd e := fun q' hq' =>
      hl' q' (List.mem_append_left _ hq')
    obtain ⟨dest, spd, hq⟩ := hl' q (List.mem_append_right _ (List.mem_singleton_self q))
    have hknows : Knows (packetsTo q.1 (l ++ l')) e ↔ Knows (packetsTo q.1 l) e := by
      rw [packetsTo_append]
      refine knows_append_of_forall fun m hm => ?_
      obtain ⟨dest', spd', hm'⟩ := hinit _ (mem_packetsTo.1 hm)
      obtain rfl : m = .MoveNfy dest' spd' e := hm'
      exact ⟨rfl, rfl⟩
    rw [← List.append_assoc, introduced_append_singleton, ih hinit, List.forall_mem_append,
      List.forall_mem_singleton, and_assoc]
    refine and_congr_right fun _ => and_congr_right fun _ => ?_
    rw [← hknows, hq]
    constructor
    · intro h
      exact h dest spd e rfl
    · intro h dest' spd' e' heq
      obtain ⟨-, -, rfl⟩ := Message.MoveNfy.inj heq
      exact h

end Introduced

/-! ### The steps -/

namespace Region

/-- What happens in a region, the iterations of `UpdatePath` included. -/
inductive PathAction (F U : Type*)
  | region (a : Action F U)
  | updatePath (eid : Entity) (contacts : SortedSet Entity)

section Defs

variable [Field F] [LinearOrder F] [DecidableEq U]

/-- One step. -/
def nextPath (g : Geometry F) (r : Region F U) : PathAction F U → Option (Region F U)
  | .region a => r.next a
  | .updatePath eid contacts =>
    if r.Answers eid contacts then some (r.updatePath g eid contacts).1 else none

/-- A step that tells only those of a movement who have the entity as a neighbour. -/
def PathAction.Introduces (g : Geometry F) (r : Region F U) : PathAction F U → Prop
  | .region _ => True
  | .updatePath eid contacts =>
    ((r.comps eid).bind fun c => (c.followPath g).2).isSome = true →
      ∀ x ∈ contacts.toList, (r.user x).isSome = true → eid ∈ r.view x

instance (g : Geometry F) (r : Region F U) : (a : PathAction F U) → Decidable (a.Introduces g r)
  | .region _ => .isTrue trivial
  | .updatePath eid contacts =>
    have : Decidable (∀ x ∈ contacts.toList, (r.user x).isSome = true → eid ∈ r.view x) :=
      List.decidableBAll _ _
    inferInstanceAs (Decidable (_ → _))

end Defs

section Steps

variable {r : Region F U} {e : Entity} {u : U} {m : Message F}

theorem mem_moveNfy {spd : F} {contacts : SortedSet Entity} {started : Option (Mover F)} :
    (u, m) ∈ r.moveNfy e spd contacts started ↔ ∃ mover, started = some mover ∧
      m = .MoveNfy mover.dest spd e ∧ ∃ x ∈ contacts, r.user x = some u := by
  cases started with
  | none => simp [moveNfy]
  | some mover =>
    simp only [moveNfy, Option.toList_some, List.flatMap_singleton, List.mem_filterMap,
      Option.map_eq_some_iff, Prod.mk.injEq, Option.some.injEq, exists_eq_left']
    constructor
    · rintro ⟨x, hx, v, hv, rfl, rfl⟩
      exact ⟨rfl, x, hx, hv⟩
    · rintro ⟨rfl, x, hx, hu⟩
      exact ⟨x, hx, u, hu, rfl, rfl⟩

variable [Field F] [LinearOrder F]

theorem quiet_updatePath (r : Region F U) (g : Geometry F) (e : Entity)
    (contacts : SortedSet Entity) (x : Entity) :
    (((r.updatePath g e contacts).1.comps x).map fun d => (d.neighbor, d.user)) =
      (r.comps x).map fun d => (d.neighbor, d.user) := by
  rw [comps_updatePath]
  split_ifs with hx
  · rw [hx, Option.map_map]
    refine congrArg (fun f => (r.comps e).map f) ?_
    funext c
    exact visible_followPath c g
  · rfl

theorem exists_sent_updatePath (r : Region F U) (g : Geometry F) (e : Entity)
    (contacts : SortedSet Entity) :
    ∃ l, (r.updatePath g e contacts).1.sent = r.sent ++ l ∧
      (∀ q ∈ l, ∃ dest spd, q.2 = .MoveNfy dest spd e) ∧
      ∀ u, (∃ m, (u, m) ∈ l) ↔ ((r.comps e).bind fun c => (c.followPath g).2).isSome = true ∧
        ∃ x ∈ contacts, r.user x = some u := by
  cases h : r.comps e with
  | none =>
    refine ⟨[], ?_, ?_, ?_⟩
    · unfold updatePath
      rw [h]
      exact (List.append_nil _).symm
    · exact fun q hq => absurd hq List.not_mem_nil
    · simp
  | some c =>
    refine ⟨_, sent_updatePath r g contacts h, ?_, ?_⟩
    · rintro ⟨u, m⟩ hq
      obtain ⟨mover, -, hm, -⟩ := mem_moveNfy.1 hq
      exact ⟨mover.dest, _, hm⟩
    · intro u
      simp only [mem_moveNfy, Option.bind_some, Option.isSome_iff_exists]
      constructor
      · rintro ⟨m, mover, hstarted, -, hx⟩
        exact ⟨⟨mover, hstarted⟩, hx⟩
      · rintro ⟨⟨mover, hstarted⟩, hx⟩
        exact ⟨_, mover, hstarted, rfl, hx⟩

variable [DecidableEq U]

theorem Informed.updatePath (h : r.Informed) (g : Geometry F) (e : Entity)
    (contacts : SortedSet Entity) : (r.updatePath g e contacts).1.Informed := by
  have hquiet := quiet_updatePath r g e contacts
  obtain ⟨l, hsent, hl, -⟩ := exists_sent_updatePath r g e contacts
  have huser : ∀ x, (r.updatePath g e contacts).1.user x = r.user x := fun x =>
    (quiet_visible hquiet x).2.1
  refine ⟨⟨total_quiet h.total hquiet, fun x y u hx hy => ?_, fun p u hp => ?_⟩,
    fun p u hp e' => ?_⟩
  · rw [huser] at hx hy
    exact h.users x y u hx hy
  · rw [huser] at hp
    rw [hsent, packetsTo_append]
    exact List.append_ne_nil_of_left_ne_nil (h.packet p u hp) _
  · rw [huser] at hp
    have hsilent : ∀ m ∈ packetsTo u l, m.entered = [] ∧ m.left = [] := fun m hm => by
      obtain ⟨dest, spd, hm⟩ := hl _ (mem_packetsTo.1 hm)
      obtain rfl : m = .MoveNfy dest spd e := hm
      exact ⟨rfl, rfl⟩
    rw [hsent, packetsTo_append, knows_append_of_forall hsilent, h.knows p u hp, view, view,
      (quiet_visible hquiet p).1]

/-- After `UpdatePath` everybody knows of what it was told iff those that were found did. -/
theorem introduced_updatePath_iff (h : r.Informed) (hr : Introduced r.sent) (g : Geometry F)
    (e : Entity) (contacts : SortedSet Entity) :
    Introduced (r.updatePath g e contacts).1.sent ↔
      (PathAction.updatePath e contacts).Introduces g r := by
  obtain ⟨l, hsent, hl, hmem⟩ := exists_sent_updatePath r g e contacts
  rw [hsent, introduced_append_iff hl, and_iff_right hr]
  constructor
  · intro hknows hstarted x hx hplayer
    obtain ⟨u, hu⟩ := Option.isSome_iff_exists.1 hplayer
    obtain ⟨m, hm⟩ := (hmem u).2 ⟨hstarted, x, hx, hu⟩
    exact (h.knows x u hu e).1 (hknows _ hm)
  · rintro hintro ⟨u, m⟩ hm
    obtain ⟨hstarted, x, hx, hu⟩ := (hmem u).1 ⟨m, hm⟩
    exact (h.knows x u hu e).2 (hintro hstarted x hx (Option.isSome_iff_exists.2 ⟨u, hu⟩))

end Steps

end Region

/-! ### Runs -/

/-- A region taking step after step, `UpdatePath` among them. -/
def pathSystem (F U : Type*) [Field F] [LinearOrder F] [DecidableEq U] (g : Geometry F) :
    LTS (Region F U) (Region.PathAction F U) := .ofNext (Region.nextPath g)

namespace Region

variable [Field F] [LinearOrder F] [DecidableEq U] {g : Geometry F} {r : Region F U}

/-- **Movements of known entities.**  In every state of a run, whoever has got a `MoveNfy` knew of
the entity by then, iff every step tells only those who have the entity as a neighbour. -/
theorem always_introduced_iff {es : List (Region F U × PathAction F U)}
    (h : (pathSystem F U g).Run empty es r) :
    LTS.Always (fun r => Introduced r.sent) es r ↔ ∀ s ∈ es, s.2.Introduces g s.1 := by
  refine h.always_iff (I := fun r => r.Informed ∧ Introduced r.sent)
    (C := fun r a => a.Introduces g r) ⟨informed_empty, introduced_nil⟩ (fun r hr => hr.2) ?_ ?_
  · rintro r (a | ⟨eid, contacts⟩) r' ⟨hinf, hintro⟩ hstep hc
    · have heff := next_effect hinf.total hstep
      obtain ⟨l, hsent, hvis⟩ := heff.sent hinf.total
      exact ⟨heff.informed hinf, hsent ▸ hintro.append hvis⟩
    · obtain ⟨-, hstep⟩ := Option.ite_none_right_eq_some.1 hstep
      obtain rfl := Option.some.inj hstep
      exact ⟨hinf.updatePath g eid contacts,
        (introduced_updatePath_iff hinf hintro g eid contacts).2 hc⟩
  · rintro r (a | ⟨eid, contacts⟩) r' ⟨hinf, hintro⟩ hstep hr'
    · trivial
    · obtain ⟨-, hstep⟩ := Option.ite_none_right_eq_some.1 hstep
      obtain rfl := Option.some.inj hstep
      exact (introduced_updatePath_iff hinf hintro g eid contacts).1 hr'

/-- A geometry that is exact for lengths of `0` and `1`. -/
def unitGeometry : Geometry ℚ := ⟨id, fun _ _ => 0⟩

/-- The first entity of the gathering gets a path, whose first segment has the length `1`. -/
def wander : PathAction ℚ ℕ := .region (.steer 0 0 1 none (some ⟨[⟨1, 0, 0⟩], .Start⟩))

theorem always_introduced_iff_gathering : ∃ es r, (pathSystem ℚ ℕ unitGeometry).Run empty es r ∧
    es.length = 6 ∧ (∃ m, (7, m) ∈ r.sent ∧ m.id = .MoveNfy) ∧
      LTS.Always (fun r => Introduced r.sent) es r := by
  obtain ⟨r, hrun, hsent⟩ := LTS.exists_run (nextPath unitGeometry) empty
    (gathering.map .region ++ [wander, .updatePath 0 (.ofList [1, 2])])
    (fun r => (packetsTo 7 r.sent).any fun m => m.id = .MoveNfy) (by decide +kernel)
  obtain ⟨m, hm, hid⟩ := List.any_eq_true.1 hsent
  exact ⟨_, r, hrun, by decide +kernel, ⟨m, mem_packetsTo.1 hm, of_decide_eq_true hid⟩,
    (always_introduced_iff hrun).2 (by decide +kernel)⟩

/-- The player loses the first entity, which still has the player as a neighbour, finds it again
and starts to move: the player does not know of it. -/
theorem updatePath_not_introduced : ¬∀ (g : Geometry ℚ)
    (es : List (Region ℚ ℕ × PathAction ℚ ℕ)) (r : Region ℚ ℕ),
    (pathSystem ℚ ℕ g).Run empty es r → LTS.Always (fun r => Introduced r.sent) es r := by
  intro h
  obtain ⟨r, hrun, hlast⟩ := LTS.exists_run (nextPath unitGeometry) empty
    (gathering.map .region ++ [.region (.steer 2 0 1 (some ⟨⟨-9, 0, 0⟩, ⟨-1, 0, 0⟩⟩) none),
      .region (.updateMove 2 1 (.ofList [1])), .region (.updateMove 0 1 (.ofList [1, 2])), wander,
      .updatePath 0 (.ofList [1, 2])])
    (fun r => r.sent = r.sent.dropLast ++ [(7, .MoveNfy ⟨1, 0, 0⟩ 1 0)] ∧
      ¬Knows (packetsTo 7 r.sent.dropLast) 0) (by decide +kernel)
  obtain ⟨hsent, hnot⟩ := of_decide_eq_true hlast
  exact hnot ((h _ _ _ hrun).2 _ _ _ _ _ _ hsent)

end Region

end ClientServer
