import ClientServer.Server.Region

/-!
# What the visibility functions do

For each function of `WorldSystem`: the components of every entity afterwards, and the packets
every user gets.  The results on runs use these and do not look inside the functions.

* `Region.comps_updateNeighbors`, `Region.sent_updateNeighbors` : `UpdateNeighbors`.
* `Region.comps_leave`, `Region.sent_leave` : `Leave`.
* `Region.user_updateNeighbors`, `Region.user_leave` : neither gives an entity another user.
-/

namespace ClientServer

namespace Components

variable {F U : Type*} (d : Components F U)

theorem user_setNeighbor (s : SortedSet Entity) : (d.setNeighbor s).user = d.user := rfl

theorem user_addNeighbor (c : Entity) : (d.addNeighbor c).user = d.user := rfl

theorem user_dropNeighbor (c : Entity) : (d.dropNeighbor c).user = d.user := rfl

end Components

open Components

namespace Region

variable {F U : Type*} (r : Region F U) {e c : Entity}

/-! ### The registry -/

@[simp] theorem comps_sendTo {u : U} {m : Message F} : (r.sendTo u m).comps = r.comps := rfl

@[simp] theorem comps_send {m : Message F} : (r.send e m).comps = r.comps := by
  unfold send
  split <;> rfl

theorem comps_set {d : Option (Components F U)} {x : Entity} :
    (r.set e d).comps x = if x = e then d else r.comps x := Function.update_apply ..

theorem comps_modify {f : Components F U → Components F U} {x : Entity} :
    (r.modify e f).comps x = if x = e then (r.comps e).map f else r.comps x :=
  Function.update_apply ..

@[simp] theorem sent_set {d : Option (Components F U)} : (r.set e d).sent = r.sent := rfl

@[simp] theorem sent_modify {f : Components F U → Components F U} :
    (r.modify e f).sent = r.sent := rfl

theorem sent_send {m : Message F} :
    (r.send e m).sent = r.sent ++ ((r.user e).map fun u => (u, m)).toList := by
  unfold send
  cases h : r.user e <;> simp [sendTo]

theorem valid_iff : r.valid e = true ↔ ∃ d, r.comps e = some d := Option.isSome_iff_exists

theorem valid_eq_false : r.valid e = false ↔ r.comps e = none := Option.isSome_eq_false_iff.trans
  Option.isNone_iff_eq_none

theorem user_of_comps {d : Components F U} (h : r.comps e = some d) : r.user e = d.user := by
  rw [user, h, Option.bind_some]

theorem neighbors_of_comps {d : Components F U} (h : r.comps e = some d) :
    r.neighbors e = d.neighbor := by rw [neighbors, h, Option.bind_some]

theorem user_set {d : Option (Components F U)} {x : Entity} :
    (r.set e d).user x = if x = e then d.bind Components.user else r.user x := by
  unfold user
  rw [comps_set]
  split_ifs <;> rfl

theorem user_modify {f : Components F U → Components F U} (hf : ∀ d, (f d).user = d.user)
    (x : Entity) : (r.modify e f).user x = r.user x := by
  unfold user
  rw [comps_modify]
  split_ifs with h
  · subst h
    cases r.comps x with
    | none => rfl
    | some d => exact hf d
  · rfl

/-! ### Going through a list of entities -/

/-- Rewrite each entity of a list and send it a packet if it is a player. -/
def tell (f : Components F U → Components F U) (m : Message F) (l : List Entity)
    (r : Region F U) : Region F U :=
  l.foldl (fun r e => (r.modify e f).send e m) r

section Tell

variable {f : Components F U → Components F U} {m : Message F}

theorem user_tell (hf : ∀ d, (f d).user = d.user) (l : List Entity) (x : Entity) :
    (r.tell f m l).user x = r.user x := by
  induction l generalizing r with
  | nil => rfl
  | cons e l ih =>
    have hsend : ((r.modify e f).send e m).user x = (r.modify e f).user x := by simp [user]
    rw [tell, List.foldl_cons, ← tell, ih, hsend, user_modify _ hf]

theorem comps_tell {l : List Entity} (hl : l.Nodup) (x : Entity) :
    (r.tell f m l).comps x = if x ∈ l then (r.comps x).map f else r.comps x := by
  induction l generalizing r with
  | nil => rfl
  | cons e l ih =>
    obtain ⟨he, hl⟩ := List.nodup_cons.1 hl
    rw [tell, List.foldl_cons, ← tell, ih _ hl, comps_send, comps_modify]
    by_cases hx : x = e
    · subst hx
      rw [if_neg he, if_pos rfl, if_pos List.mem_cons_self]
    · simp only [hx, List.mem_cons, false_or, if_false]

theorem sent_tell (hf : ∀ d, (f d).user = d.user) (l : List Entity) :
    (r.tell f m l).sent = r.sent ++ l.filterMap fun e => (r.user e).map fun u => (u, m) := by
  induction l generalizing r with
  | nil => simp [tell]
  | cons e l ih =>
    have huser : ∀ x, ((r.modify e f).send e m).user x = r.user x := fun x =>
      user_tell r hf [e] x
    rw [tell, List.foldl_cons, ← tell, ih, sent_send, user_modify _ hf, sent_modify,
      List.append_assoc]
    simp only [huser, List.filterMap_cons]
    cases r.user e with
    | none => rfl
    | some u => rfl

theorem tell_of_not_valid (h : r.valid e ≠ true) : (r.modify e f).send e m = r := by
  have hnone : r.comps e = none := r.valid_eq_false.1 (Bool.eq_false_of_not_eq_true h)
  have hmodify : r.modify e f = r := by
    rw [modify, hnone, Option.map_none, ← hnone, Function.update_eq_self]
  rw [hmodify, send, user, hnone]
  rfl

end Tell

/-! ### `Entered` and `UpdateNeighbors` -/

theorem entered_eq_tell {d : Components F U} (h : r.comps c = some d) (l : List Entity) :
    r.entered c l =
      r.tell (addNeighbor c) (.EnterNeighborsNfy (d.serializeEntityInfo c)) l := by
  unfold entered
  rw [h]
  refine congrArg (fun g => l.foldl g r) ?_
  funext r e
  split_ifs with hvalid
  · rfl
  · exact (r.tell_of_not_valid hvalid).symm

section UpdateNeighbors

variable {d : Components F U} {O N : SortedSet Entity}

/-- The packet a player gets about its own new view. -/
def updateNfy (r : Region F U) (O N : SortedSet Entity) : Message F :=
  .UpdateNeighborsNfy
    ((N.diff O).filterMap fun x => (r.comps x).map (serializeEntityInfo x)) (O.diff N)

theorem serialize_entered (h : r.comps c = some d) (hc : c ∉ N) :
    ((N.diff O).filterMap fun x =>
      (((r.entered c (N.diff O)).modify c (setNeighbor N)).comps x).map
        (serializeEntityInfo x)) =
      (N.diff O).filterMap fun x => (r.comps x).map (serializeEntityInfo x) := by
  refine List.filterMap_congr fun x hx => ?_
  have hxc : x ≠ c := fun e => hc (e ▸ (SortedSet.mem_diff.1 hx).1)
  rw [comps_modify, if_neg hxc, entered_eq_tell r h, comps_tell r SortedSet.nodup_diff, if_pos hx,
    Option.map_map]
  rfl

theorem comps_updateNeighbors (h : r.comps c = some d) (hO : d.neighbor = some O) (hc : c ∉ N)
    (x : Entity) :
    (r.updateNeighbors N c).comps x =
      if x = c then some (d.setNeighbor N)
      else if x ∈ N ∧ x ∉ O then (r.comps x).map (addNeighbor c) else r.comps x := by
  unfold updateNeighbors
  rw [neighbors_of_comps r h, hO]
  have hcd : c ∉ N.diff O := fun hin => hc (SortedSet.mem_diff.1 hin).1
  have htell : ∀ x, (r.entered c (N.diff O)).comps x =
      if x ∈ N ∧ x ∉ O then (r.comps x).map (addNeighbor c) else r.comps x := fun x => by
    rw [entered_eq_tell r h, comps_tell r SortedSet.nodup_diff]
    simp only [SortedSet.mem_diff]
  have hcomps : (r.entered c (N.diff O)).comps c = some d := by
    rw [htell, if_neg fun hin => hc hin.1, h]
  dsimp only
  by_cases hx : x = c
  · subst hx
    rw [if_pos rfl]
    split_ifs with hdiff
    · rw [comps_send, comps_modify, if_pos rfl, hcomps, Option.map_some]
    · -- no difference: the old view is the new one
      obtain ⟨hent, hlv⟩ := not_or.1 hdiff
      obtain rfl : N = O := SortedSet.eq_of_diff_eq_nil (not_not.1 hent) (not_not.1 hlv)
      rw [hcomps, setNeighbor, ← hO]
  · rw [if_neg hx, ← htell x]
    split_ifs with hdiff
    · rw [comps_send, comps_modify, if_neg hx]
    · rfl

/-- Those newly found hear of the caller, then the caller of what has changed. -/
theorem sent_updateNeighbors (h : r.comps c = some d) (hO : d.neighbor = some O) (hc : c ∉ N) :
    (r.updateNeighbors N c).sent = r.sent ++
      ((N.diff O).filterMap fun x =>
        (r.user x).map fun u => (u, .EnterNeighborsNfy (d.serializeEntityInfo c))) ++
      if N = O then [] else (d.user.map fun u => (u, r.updateNfy O N)).toList := by
  have hent := r.entered_eq_tell h (N.diff O)
  have hsent := r.sent_tell (m := .EnterNeighborsNfy (d.serializeEntityInfo c))
    (user_addNeighbor · c) (N.diff O)
  rw [← hent] at hsent
  unfold updateNeighbors
  rw [neighbors_of_comps r h, hO]
  dsimp only
  by_cases hNO : N = O
  · subst hNO
    rw [if_neg (by simp [SortedSet.diff_self]), if_pos rfl, List.append_nil, hsent]
  · have hdiff : N.diff O ≠ [] ∨ O.diff N ≠ [] := by
      by_contra hno
      obtain ⟨h₁, h₂⟩ := not_or.1 hno
      exact hNO (SortedSet.eq_of_diff_eq_nil (not_not.1 h₁) (not_not.1 h₂))
    rw [if_pos hdiff, if_neg hNO, sent_send, sent_modify, hsent, serialize_entered r h hc,
      user_modify _ (user_setNeighbor · N), hent, user_tell _ (user_addNeighbor · c),
      user_of_comps r h]
    rfl

theorem user_updateNeighbors (x : Entity) : (r.updateNeighbors N c).user x = r.user x := by
  unfold updateNeighbors
  cases hn : r.neighbors c with
  | none => rfl
  | some O =>
    obtain ⟨d, h, -⟩ := Option.bind_eq_some_iff.1 hn
    have huser : (r.entered c (N.diff O)).user x = r.user x := by
      rw [entered_eq_tell r h, user_tell _ (user_addNeighbor · c)]
    dsimp only
    split_ifs
    · rw [← huser, ← user_modify (r.entered c (N.diff O)) (e := c) (user_setNeighbor · N)]
      simp only [user, comps_send]
    · exact huser

end UpdateNeighbors

/-! ### `Leave` -/

theorem updateDestroyed_eq_tell {O : SortedSet Entity} (h : r.neighbors c = some O) :
    r.updateDestroyed c = r.tell (dropNeighbor c) (.LeaveNeighborsNfy c) O.toList := by
  unfold updateDestroyed
  rw [h]
  rfl

theorem comps_destroy {O : SortedSet Entity} (h : r.neighbors c = some O) (x : Entity) :
    (r.destroy c).comps x = if x = c then none
      else if x ∈ O then (r.comps x).map (dropNeighbor c) else r.comps x := by
  rw [destroy, comps_set, updateDestroyed_eq_tell r h, comps_tell r O.nodup]
  rfl

theorem sent_destroy {O : SortedSet Entity} (h : r.neighbors c = some O) :
    (r.destroy c).sent = r.sent ++
      O.toList.filterMap fun x => (r.user x).map fun u => (u, .LeaveNeighborsNfy c) := by
  rw [destroy, sent_set, updateDestroyed_eq_tell r h, sent_tell _ (user_dropNeighbor · c)]

theorem user_destroy (x : Entity) :
    (r.destroy c).user x = if x = c then none else r.user x := by
  have huser : (r.updateDestroyed c).user x = r.user x := by
    unfold updateDestroyed
    split
    · rfl
    · exact user_tell r (user_dropNeighbor · c) _ x
  unfold destroy user
  rw [comps_set]
  split_ifs
  · rfl
  · exact huser

theorem user_leave (x : Entity) : (r.leave c).user x = if x = c then none else r.user x := by
  unfold leave
  by_cases hvalid : r.valid c = true
  · rw [if_pos hvalid, user_destroy]
  · have hnone : r.comps c = none := r.valid_eq_false.1 (Bool.eq_false_of_not_eq_true hvalid)
    rw [if_neg hvalid]
    split_ifs with hx
    · rw [hx, user, hnone, Option.bind_none]
    · rfl

end Region

end ClientServer
