import ClientServer.Data.Announced
import ClientServer.Server.Neighbors

/-!
# What the players are told

A player hears of the entities that enter its view, or leave it, by packets.  What a step sends is
said here for each player, and what the player makes of it.

* `packetsTo` : the packets of one user.
* `Knows` : an entity has entered, and has not left since; `Data.Announced` for these packets.
* `Region.packets_look`, `Region.packets_destroy` : what a player gets when somebody looks around,
  or vanishes.
* `Region.Effect.informed` : **each player knows of its neighbours** and of nobody else, step after
  step.
-/

namespace ClientServer

open Components

variable {F U : Type*}

/-! ### Entering and leaving -/

namespace Message

/-- The entities that enter by a packet about the neighbours. -/
def entered : Message F → List Entity
  | EnterNeighborsNfy enter_entity => [enter_entity.entity_id]
  | UpdateNeighborsNfy enter_entity _ => enter_entity.map EntityInfo.entity_id
  | _ => []

/-- The entities that leave by a packet about the neighbours. -/
def left : Message F → List Entity
  | LeaveNeighborsNfy leave_entity => [leave_entity]
  | UpdateNeighborsNfy _ leave_entity => leave_entity
  | _ => []

/-- The answer to a player that enters the world, and the packets about the neighbours. -/
def isVisibility : Message F → Bool
  | EnterWorldAck _ | EnterNeighborsNfy _ | LeaveNeighborsNfy _ | UpdateNeighborsNfy _ _ => true
  | _ => false

theorem id_ne_of_isVisibility {m : Message F} (h : m.isVisibility = true) : m.id ≠ .DashReq := by
  cases m <;> simp_all [isVisibility, id]

theorem fits_of_isVisibility {m : Message F} (h : m.isVisibility = true) : m.Fits := by
  cases m <;> trivial

end Message

/-- An `Enter` of `e` is among the packets and not followed by a leave of it. -/
def Knows (l : List (Message F)) (e : Entity) : Prop := Announced Message.entered Message.left l e

instance (l : List (Message F)) (e : Entity) : Decidable (Knows l e) :=
  inferInstanceAs (Decidable (Announced ..))

section Knows

variable {l l' : List (Message F)} {m : Message F} {e : Entity}

theorem not_knows_nil : ¬Knows ([] : List (Message F)) e := not_announced_nil

theorem knows_append_singleton :
    Knows (l ++ [m]) e ↔ (Knows l e ∨ e ∈ m.entered) ∧ e ∉ m.left := announced_append_singleton

theorem knows_append_of_forall (h : ∀ m ∈ l', m.entered = [] ∧ m.left = []) :
    Knows (l ++ l') e ↔ Knows l e := announced_append_of_forall h

end Knows

/-! ### The packets of a user -/

/-- What is sent to `u`. -/
def packetsTo [DecidableEq U] (u : U) (l : List (U × Message F)) : List (Message F) :=
  l.filterMap fun p => if p.1 = u then some p.2 else none

section PacketsTo

variable [DecidableEq U] {u v : U}

theorem packetsTo_append (l l' : List (U × Message F)) :
    packetsTo u (l ++ l') = packetsTo u l ++ packetsTo u l' := List.filterMap_append

theorem packetsTo_eq_nil {l : List (U × Message F)} (h : ∀ p ∈ l, p.1 ≠ u) :
    packetsTo u l = [] :=
  List.filterMap_eq_nil_iff.2 fun p hp => if_neg (h p hp)

theorem mem_packetsTo {l : List (U × Message F)} {m : Message F} :
    m ∈ packetsTo u l ↔ (u, m) ∈ l := by
  simp only [packetsTo, List.mem_filterMap, Option.ite_none_right_eq_some, Option.some.injEq]
  constructor
  · rintro ⟨⟨v, m'⟩, hp, rfl, rfl⟩
    exact hp
  · intro hp
    exact ⟨(u, m), hp, rfl, rfl⟩

end PacketsTo

namespace Region

/-- A packet to the players of a list, if no two entities are players of one user. -/
theorem packetsTo_players [DecidableEq U] {r : Region F U} {u : U} {p : Entity}
    (husers : ∀ x, r.user x = some u ↔ x = p) (m : Message F) (l : List Entity) (hl : l.Nodup) :
    packetsTo u (l.filterMap fun x => (r.user x).map fun v => (v, m)) =
      if p ∈ l then [m] else [] := by
  induction l with
  | nil => rfl
  | cons x l ih =>
    obtain ⟨hx, hl⟩ := List.nodup_cons.1 hl
    have hcons : packetsTo u ((x :: l).filterMap fun x => (r.user x).map fun v => (v, m)) =
        (if x = p then [m] else []) ++
          packetsTo u (l.filterMap fun x => (r.user x).map fun v => (v, m)) := by
      rw [← List.singleton_append, List.filterMap_append, packetsTo_append]
      congr 1
      cases hxu : r.user x with
      | none =>
        have hxp : x ≠ p := fun e => by rw [(husers x).2 e] at hxu; cases hxu
        simp [packetsTo, hxu, hxp]
      | some v =>
        have hiff : v = u ↔ x = p := by
          rw [← husers x, hxu, Option.some.injEq]
        by_cases hxp : x = p
        · subst hxp
          obtain rfl := hiff.2 rfl
          simp [packetsTo, hxu]
        · simp [packetsTo, hxu, hxp, mt hiff.1 hxp]
    rw [hcons, ih hl]
    by_cases hxp : x = p
    · subst hxp
      simp [hx]
    · simp [hxp, Ne.symm hxp]

theorem map_entity_id {r : Region F U} {l : List Entity} (hl : ∀ x ∈ l, r.valid x = true) :
    (l.filterMap fun x => (r.comps x).map (serializeEntityInfo x)).map EntityInfo.entity_id =
      l := by
  induction l with
  | nil => rfl
  | cons x l ih =>
    rw [List.forall_mem_cons] at hl
    obtain ⟨d, hd⟩ := (valid_iff r).1 hl.1
    rw [List.filterMap_cons, hd, Option.map_some, List.map_cons, ih hl.2]
    rfl

theorem entered_updateNfy {r : Region F U} {O N : SortedSet Entity}
    (h : ∀ x ∈ N, r.valid x = true) : (r.updateNfy O N).entered = N.diff O :=
  map_entity_id fun x hx => h x (SortedSet.mem_diff.1 hx).1

theorem Ready.valid {r r₁ : Region F U} {c : Entity} {N : SortedSet Entity} (ready : Ready r r₁ c)
    (answers : r.Answers c N) : ∀ x ∈ N, r₁.valid x = true := by
  intro x hx
  rw [Region.valid, ready.others x (answers x hx).2]
  exact (answers x hx).1

theorem Effect.sent {r r' : Region F U} {e : Event} (hT : r.Total) (h : Effect r e r') :
    ∃ l : List (U × Message F), r'.sent = r.sent ++ l ∧ ∀ p ∈ l, p.2.isVisibility = true := by
  cases h with
  | quiet _ sent => exact ⟨[], by rw [sent, List.append_nil], fun _ hp => nomatch hp⟩
  | @look r₁ c N ready answers =>
    obtain ⟨d, hd, hO⟩ := ready.caller
    obtain ⟨l, hl, hid⟩ : ∃ l : List (U × Message F), r₁.sent = r.sent ++ l ∧
        ∀ p ∈ l, p.2.isVisibility = true := by
      rcases ready.sent with ⟨-, hsent⟩ | ⟨-, u, tf, -, -, hsent⟩
      · exact ⟨[], by rw [hsent, List.append_nil], fun _ hp => nomatch hp⟩
      · refine ⟨_, hsent, fun p hp => ?_⟩
        obtain rfl := List.mem_singleton.1 hp
        rfl
    have hsent := sent_updateNeighbors r₁ hd hO fun hc => (answers c hc).2 rfl
    rw [hl, List.append_assoc, List.append_assoc] at hsent
    refine ⟨_, hsent, fun p hp => ?_⟩
    rcases List.mem_append.1 hp with hp | hp
    · exact hid p hp
    · rcases List.mem_append.1 hp with hp | hp
      · obtain ⟨x, -, hx⟩ := List.mem_filterMap.1 hp
        obtain ⟨u, -, rfl⟩ := Option.map_eq_some_iff.1 hx
        rfl
      · split_ifs at hp
        · cases hp
        · obtain ⟨u, -, rfl⟩ := Option.map_eq_some_iff.1 (Option.mem_toList.1 hp)
          rfl
  | @vanish c valid =>
    obtain ⟨O, hO⟩ := hT.exists_neighbors valid
    refine ⟨_, sent_destroy r hO, fun p hp => ?_⟩
    obtain ⟨x, -, hx⟩ := List.mem_filterMap.1 hp
    obtain ⟨u, -, rfl⟩ := Option.map_eq_some_iff.1 hx
    rfl

/-! ### What each player gets -/

section Served

variable [DecidableEq U]

/-- Every player has a user of its own, who has got a packet. -/
structure Served (r : Region F U) : Prop where
  total : r.Total
  users : ∀ x y u, r.user x = some u → r.user y = some u → x = y
  packet : ∀ p u, r.user p = some u → packetsTo u r.sent ≠ []

variable {r r₁ r' : Region F U} {c p : Entity} {u : U} {N : SortedSet Entity}

theorem Served.user_iff (h : r.Served) (hp : r.user p = some u) (x : Entity) :
    r.user x = some u ↔ x = p :=
  ⟨fun hx => h.users x p u hx hp, fun hx => hx ▸ hp⟩

/-- Before the caller looks around nobody has got a packet, or the caller is new and has got the
answer to its request. -/
theorem Ready.packets (h : r.Served) (ready : Ready r r₁ c) :
    (∀ x y u, r₁.user x = some u → r₁.user y = some u → x = y) ∧
      ∀ p u, r₁.user p = some u →
        (r.user p = some u ∧ packetsTo u r₁.sent = packetsTo u r.sent) ∨
        (p = c ∧ r.comps c = none ∧
          ∃ tf : Transform F, packetsTo u r₁.sent = [enterWorldAck c tf]) := by
  have hother : ∀ x, x ≠ c → r₁.user x = r.user x := fun x hx => by
    rw [user, user, ready.others x hx]
  rcases ready.sent with ⟨huser, hsent⟩ | ⟨hnone, v, tf, huser, hfresh, hsent⟩
  · have hall : ∀ x, r₁.user x = r.user x := fun x => by
      by_cases hx : x = c
      · rw [hx, huser]
      · exact hother x hx
    refine ⟨fun x y u hx hy => ?_, fun p u hu => .inl ⟨hall p ▸ hu, by rw [hsent]⟩⟩
    exact h.users x y u (hall x ▸ hx) (hall y ▸ hy)
  · -- a new player: its user is the player of nobody else
    have hnil : packetsTo v r.sent = [] := packetsTo_eq_nil hfresh
    have hne : ∀ x u, x ≠ c → r₁.user x = some u → v ≠ u := by
      rintro x _ hx hu rfl
      exact h.packet x v ((hother x hx).symm.trans hu) hnil
    refine ⟨fun x y u hx hy => ?_, fun p u hu => ?_⟩
    · by_cases hxc : x = c <;> by_cases hyc : y = c
      · rw [hxc, hyc]
      · subst hxc
        exact absurd (Option.some.inj (huser.symm.trans hx)) (hne y u hyc hy)
      · subst hyc
        exact absurd (Option.some.inj (huser.symm.trans hy)) (hne x u hxc hx)
      · exact h.users x y u ((hother x hxc).symm.trans hx) ((hother y hyc).symm.trans hy)
    · by_cases hp : p = c
      · subst hp
        obtain rfl := Option.some.inj (huser.symm.trans hu)
        refine .inr ⟨rfl, hnone, tf, ?_⟩
        rw [hsent, packetsTo_append, hnil]
        simp [packetsTo]
      · refine .inl ⟨(hother p hp).symm.trans hu, ?_⟩
        have hack : packetsTo u [(v, (enterWorldAck c tf : Message F))] = [] :=
          packetsTo_eq_nil fun q hq => by
            obtain rfl := List.mem_singleton.1 hq
            exact hne p u hp hu
        rw [hsent, packetsTo_append, hack, List.append_nil]

/-- The packets of a call of `UpdateNeighbors`: the caller hears what has changed, one newly found
that the caller enters, and nobody else hears anything. -/
theorem packetsTo_updateNeighbors {d : Components F U} {O : SortedSet Entity}
    (h : r.comps c = some d) (hO : d.neighbor = some O) (hcN : c ∉ N)
    (hp : ∀ x, r.user x = some u ↔ x = p) :
    packetsTo u (r.updateNeighbors N c).sent = packetsTo u r.sent ++
      if p = c then if N = O then [] else [r.updateNfy O N]
      else if p ∈ N ∧ p ∉ O then [.EnterNeighborsNfy (d.serializeEntityInfo c)] else [] := by
  have huser : d.user = some u ↔ c = p := by rw [← hp c, user_of_comps r h]
  rw [sent_updateNeighbors r h hO hcN, packetsTo_append, packetsTo_append,
    packetsTo_players hp _ _ SortedSet.nodup_diff, List.append_assoc]
  simp only [SortedSet.mem_diff]
  congr 1
  by_cases hpc : p = c
  · have hpN : ¬(p ∈ N ∧ p ∉ O) := fun hin => hcN (hpc ▸ hin.1)
    rw [if_neg hpN, List.nil_append, if_pos hpc, huser.2 hpc.symm]
    split_ifs
    · rfl
    · simp [packetsTo]
  · have hupd : packetsTo u (if N = O then [] else
        (d.user.map fun u => (u, r.updateNfy O N)).toList) = [] := by
      refine packetsTo_eq_nil fun q hq hqu => ?_
      split_ifs at hq
      · cases hq
      · obtain ⟨v, hv, rfl⟩ := Option.map_eq_some_iff.1 (Option.mem_toList.1 hq)
        obtain rfl : v = u := hqu
        exact hpc (huser.1 hv).symm
    rw [hupd, List.append_nil, if_neg hpc]

/-- The packets when an entity looks around. -/
theorem packets_look (h : r.Served) (ready : Ready r r₁ c) (answers : r.Answers c N)
    (hp : (r₁.updateNeighbors N c).user p = some u) :
    (p = c → packetsTo u (r₁.updateNeighbors N c).sent =
      packetsTo u r₁.sent ++ if N = r.view c then [] else [r₁.updateNfy (r.view c) N]) ∧
    (p ≠ c → r.user p = some u ∧ ∃ info : EntityInfo F UInt32, info.entity_id = c ∧
      packetsTo u (r₁.updateNeighbors N c).sent = packetsTo u r.sent ++
        if p ∈ N ∧ p ∉ r.view c then [.EnterNeighborsNfy info] else []) := by
  obtain ⟨husers, hpackets⟩ := ready.packets h
  obtain ⟨d, hd, hO⟩ := ready.caller
  rw [user_updateNeighbors] at hp
  have hsent := packetsTo_updateNeighbors hd hO (fun hc => (answers c hc).2 rfl) fun x =>
    ⟨fun hx => husers x p u hx hp, fun hx => hx ▸ hp⟩
  constructor
  · intro hpc
    rw [hsent, if_pos hpc]
  · intro hpc
    rcases hpackets p u hp with ⟨hup, hsame⟩ | ⟨hpc', -⟩
    · refine ⟨hup, d.serializeEntityInfo c, rfl, ?_⟩
      rw [hsent, hsame, if_neg hpc]
    · exact absurd hpc' hpc

/-- The packets when an entity is destroyed: those it had in view hear that it leaves. -/
theorem packets_destroy (h : r.Served) (hvalid : r.valid c = true)
    (hp : (r.destroy c).user p = some u) :
    p ≠ c ∧ r.user p = some u ∧ packetsTo u (r.destroy c).sent =
      packetsTo u r.sent ++ if p ∈ r.view c then [.LeaveNeighborsNfy c] else [] := by
  obtain ⟨O, hO⟩ := h.total.exists_neighbors hvalid
  rw [user_destroy] at hp
  split_ifs at hp with hpc
  refine ⟨hpc, hp, ?_⟩
  rw [sent_destroy r hO, packetsTo_append, packetsTo_players (h.user_iff hp) _ _ O.nodup,
    view_of_neighbors hO]
  rfl

theorem served_empty : (empty : Region F U).Served where
  total _ _ h := nomatch h
  users _ _ _ h := nomatch h
  packet _ _ h := nomatch h

theorem Effect.served {e : Event} (h : r.Served) (heff : Effect r e r') : r'.Served := by
  cases heff with
  | quiet comps sent =>
    have hvis := quiet_visible comps
    refine ⟨(Effect.quiet comps sent).total h.total, fun x y u hx hy => ?_, fun p u hp => ?_⟩
    · rw [(hvis _).2.1] at hx hy
      exact h.users x y u hx hy
    · rw [(hvis p).2.1] at hp
      rw [sent]
      exact h.packet p u hp
  | @look r₁ c N ready answers =>
    obtain ⟨husers, hpackets⟩ := ready.packets h
    refine ⟨total_look h.total ready answers, fun x y u hx hy => ?_, fun p u hp => ?_⟩
    · rw [user_updateNeighbors] at hx hy
      exact husers x y u hx hy
    · obtain ⟨hself, hother⟩ := packets_look h ready answers hp
      rw [user_updateNeighbors] at hp
      by_cases hpc : p = c
      · rw [hself hpc]
        refine List.append_ne_nil_of_left_ne_nil ?_ _
        rcases hpackets p u hp with ⟨hup, hsame⟩ | ⟨-, -, tf, hnew⟩
        · rw [hsame]
          exact h.packet p u hup
        · rw [hnew]
          exact List.cons_ne_nil _ _
      · obtain ⟨hup, info, -, hsent⟩ := hother hpc
        rw [hsent]
        exact List.append_ne_nil_of_left_ne_nil (h.packet p u hup) _
  | @vanish c valid =>
    refine ⟨total_destroy h.total valid, fun x y u hx hy => ?_, fun p u hp => ?_⟩
    · exact h.users x y u (packets_destroy h valid hx).2.1 (packets_destroy h valid hy).2.1
    · obtain ⟨-, hup, hsent⟩ := packets_destroy h valid hp
      rw [hsent]
      exact List.append_ne_nil_of_left_ne_nil (h.packet p u hup) _

/-! ### What each player knows -/

/-- Each player knows of its neighbours and of nobody else. -/
structure Informed (r : Region F U) : Prop extends Served r where
  knows : ∀ p u, r.user p = some u → ∀ e, Knows (packetsTo u r.sent) e ↔ e ∈ r.view p

theorem informed_empty : (empty : Region F U).Informed where
  toServed := served_empty
  knows _ _ h := nomatch h

theorem Informed.look (h : r.Informed) (ready : Ready r r₁ c) (answers : r.Answers c N) :
    (r₁.updateNeighbors N c).Informed := by
  refine ⟨(Effect.look ready answers).served h.toServed, fun p u hp e => ?_⟩
  obtain ⟨hself, hother⟩ := packets_look h.toServed ready answers hp
  rw [user_updateNeighbors] at hp
  rw [view_look h.total ready answers]
  by_cases hpc : p = c
  · rw [hself hpc, if_pos hpc]
    have hold : Knows (packetsTo u r₁.sent) e ↔ e ∈ r.view c := by
      rcases (ready.packets h.toServed).2 p u hp with ⟨hup, hsame⟩ | ⟨-, hnone, tf, hnew⟩
      · rw [hsame, h.knows p u hup, hpc]
      · -- the answer to the request is not about neighbours
        rw [hnew, view_of_none hnone, ← List.nil_append [_], knows_append_singleton]
        simp [not_knows_nil, enterWorldAck, Message.entered]
    split_ifs with hNO
    · rw [List.append_nil, hold, hNO]
    · have hleft : (r₁.updateNfy (r.view c) N).left = (r.view c).diff N := rfl
      rw [knows_append_singleton, hold, entered_updateNfy (ready.valid answers), hleft,
        SortedSet.mem_diff, SortedSet.mem_diff]
      tauto
  · obtain ⟨hup, info, rfl, hsent⟩ := hother hpc
    rw [hsent, if_neg hpc]
    split_ifs
    · rw [knows_append_singleton, h.knows p u hup, SortedSet.mem_insert]
      simp [Message.entered, Message.left, or_comm]
    · rw [List.append_nil, h.knows p u hup]

theorem Informed.vanish (h : r.Informed) (hvalid : r.valid c = true) : (r.destroy c).Informed := by
  refine ⟨(Effect.vanish hvalid).served h.toServed, fun p u hp e => ?_⟩
  obtain ⟨hpc, hup, hsent⟩ := packets_destroy h.toServed hvalid hp
  rw [hsent, view_destroy h.total hvalid, if_neg hpc]
  split_ifs
  · rw [knows_append_singleton, h.knows p u hup, SortedSet.mem_erase]
    simp [Message.entered, Message.left, and_comm]
  · rw [List.append_nil, h.knows p u hup]

/-- **What the players know.**  Whatever a step does, each player knows of its neighbours
afterwards and of nobody else. -/
theorem Effect.informed {e : Event} (h : r.Informed) (heff : Effect r e r') : r'.Informed := by
  cases heff with
  | quiet comps sent =>
    refine ⟨(Effect.quiet comps sent).served h.toServed, fun p u hp e => ?_⟩
    obtain ⟨hneighbors, huser, -⟩ := quiet_visible comps p
    rw [huser] at hp
    rw [sent, view, hneighbors]
    exact h.knows p u hp e
  | look ready answers => exact h.look ready answers
  | vanish valid => exact h.vanish valid

end Served

end Region

end ClientServer
