import ClientServer.Client.Region
import ClientServer.Server.Players
import ClientServer.Server.Sight
import Mathlib.Algebra.Order.Field.Rat

/-!
# The client mirrors the server

A player's client, with all the packets the server sent it processed in order, has an entity
for each neighbour of the player on the server and no other.

* `Mirrors.update`, `Mirrors.enter`, `Mirrors.leave` : what each packet does to a client that
  mirrors a set.
* `Region.handled_sent` : the packets of a run are handled as what the region sent.
* `Region.always_mirror_iff` : **when all clients mirror the server in every state of a run**:
  nobody is newly found by an entity it still has as a neighbour.
-/

namespace ClientServer

open Components

variable {F U : Type*}

/-! ### One client -/

/-- The client of the player `p` has one entity for each element of `s`, and one for `p`. -/
structure Mirrors (c : ClientRegion F) (p : Entity) (s : SortedSet Entity) : Prop where
  coherent : c.Coherent
  players : c.players = [p]
  neighbours : c.neighbours.Perm s.toList

namespace Mirrors

variable {c : ClientRegion F} {p e : Entity} {s N : SortedSet Entity}

theorem mem_ids (h : Mirrors c p s) : e ∈ c.ids ↔ e ∈ s ∨ e = p := by
  rw [ClientRegion.mem_ids_iff, h.neighbours.mem_iff, h.players, List.mem_singleton,
    SortedSet.mem_toList]

theorem not_mem (h : Mirrors c p s) : p ∉ s := fun hin =>
  h.coherent.disjoint (h.neighbours.mem_iff.2 hin) (h.players ▸ List.mem_singleton_self p)

theorem ofAck [Field F] (info : EntityInfo F UInt32) :
    Mirrors (ClientRegion.init.enterPlayer info) info.entity_id ∅ := by
  obtain ⟨hcoh, hplayers, hneighbours⟩ := ClientRegion.enterPlayer_init info
  exact ⟨hcoh, hplayers, by rw [hneighbours]; exact .nil⟩

theorem enter [Field F] [LinearOrder F] (h : Mirrors c p s) {info : EntityInfo F UInt32}
    (hs : info.entity_id ∉ s) (hp : info.entity_id ≠ p) :
    Mirrors (c.enter info) p (s.insert info.entity_id) where
  coherent := h.coherent.create fun hin => (h.mem_ids.1 hin).elim hs hp
  players := (ClientRegion.players_enter info).trans h.players
  neighbours := by
    rw [ClientRegion.neighbours_enter]
    refine (h.neighbours.append_right _).trans ?_
    exact (List.perm_append_singleton _ _).trans (SortedSet.perm_insert hs).symm

theorem leave (h : Mirrors c p s) (hp : e ≠ p) : Mirrors (c.leave e) p (s.erase e) where
  coherent := h.coherent.leave e
  players := by
    rw [h.coherent.players_leave, h.players]
    exact List.filter_eq_self.2 (by simpa using hp.symm)
  neighbours := by
    rw [h.coherent.neighbours_leave]
    exact (h.neighbours.filter _).trans (.of_eq SortedSet.toList_erase.symm)

theorem update [Field F] [LinearOrder F] (h : Mirrors c p s) {infos : List (EntityInfo F UInt32)}
    (hinfos : infos.map EntityInfo.entity_id = N.diff s) (hN : p ∉ N) :
    Mirrors (c.recv (.UpdateNeighborsNfy infos (s.diff N))) p N := by
  have hnew : ∀ e ∈ infos.map EntityInfo.entity_id, e ∉ c.ids := by
    intro e he hin
    rw [hinfos, SortedSet.mem_diff] at he
    rcases h.mem_ids.1 hin with hes | rfl
    · exact he.2 hes
    · exact hN he.1
  obtain ⟨hcoh, hplayers, hneighbours⟩ :=
    h.coherent.enters (hinfos ▸ SortedSet.nodup_diff) hnew
  obtain ⟨hcoh', hplayers', hneighbours'⟩ := hcoh.leaves (l := s.diff N) fun e he hin => by
    rw [hplayers, h.players, List.mem_singleton] at hin
    exact h.not_mem (hin ▸ (SortedSet.mem_diff.1 he).1)
  refine ⟨hcoh', hplayers'.trans (hplayers.trans h.players), ?_⟩
  -- entering gives the old and the new elements, leaving takes away what is not in `N`
  have hperm : (c.neighbours ++ N.diff s).Perm (N.toList ++ s.diff N) :=
    (h.neighbours.append_right _).trans SortedSet.perm_diff_append
  have hkept : N.toList.filter (· ∉ s.diff N) = N.toList :=
    List.filter_eq_self.2 fun x hx => by simp [SortedSet.mem_toList.1 hx]
  have hgone : (s.diff N).filter (· ∉ s.diff N) = [] :=
    List.filter_eq_nil_iff.2 fun x hx => by simpa using SortedSet.mem_diff.1 hx
  refine (List.Perm.of_eq hneighbours').trans ?_
  rw [hneighbours, hinfos]
  refine (hperm.filter _).trans (.of_eq ?_)
  rw [List.filter_append, hkept, hgone, List.append_nil]

end Mirrors

namespace Region

/-- None that the caller newly finds has it as a neighbour already. -/
def Event.Announces (r : Region F U) : Event → Prop
  | .look c N => ∀ x ∈ N.toList, x ∉ r.view c → (r.user x).isSome = true → c ∉ r.view x
  | _ => True

instance (r : Region F U) : (e : Event) → Decidable (e.Announces r)
  | .look _ _ => List.decidableBAll _ _
  | .quiet => .isTrue trivial
  | .vanish _ => .isTrue trivial

section Client

variable [Field F] [LinearOrder F] [DecidableEq U]

/-- The client of `u`, once it has processed all that was sent to it. -/
def client (r : Region F U) (u : U) : ClientRegion F :=
  (packetsTo u r.sent).foldl ClientRegion.recv ClientRegion.init

/-- The neighbour entities of each player's client are the player's neighbours. -/
def Mirror (r : Region F U) : Prop := ∀ p u s, r.user p = some u → r.neighbors p = some s →
  (r.client u).neighbours.Perm s.toList

/-- No two entities are players of one user, and each player's client mirrors its view. -/
structure Mirrored (r : Region F U) : Prop where
  total : r.Total
  users : ∀ x y u, r.user x = some u → r.user y = some u → x = y
  mirrors : ∀ p u, r.user p = some u → Mirrors (r.client u) p (r.view p)

variable {r r₁ r' : Region F U} {c p : Entity} {u : U} {N O : SortedSet Entity}

theorem client_of_packets {l : List (Message F)}
    (h : packetsTo u r'.sent = packetsTo u r.sent ++ l) :
    r'.client u = l.foldl ClientRegion.recv (r.client u) := by
  rw [client, h, List.foldl_append]
  rfl

theorem Mirrored.served (h : r.Mirrored) : r.Served where
  total := h.total
  users := h.users
  packet := by
    intro p u hp hnil
    have hplayers := (h.mirrors p u hp).players
    rw [client, hnil] at hplayers
    cases hplayers

/-- Before it looks around the caller's client mirrors what the caller saw. -/
theorem Ready.mirrors (h : r.Mirrored) (ready : Ready r r₁ c) (hp : r₁.user p = some u) :
    Mirrors (r₁.client u) p (r.view p) := by
  rcases (ready.packets h.served).2 p u hp with ⟨hup, hsame⟩ | ⟨rfl, hnone, tf, hnew⟩
  · rw [client, hsame]
    exact h.mirrors p u hup
  · -- a new player: the answer to its request is the first packet
    have hclient : r₁.client u =
        ClientRegion.init.enterPlayer ⟨tf.v, tf.v, tf.speed, 0, p, tf.degree⟩ := by
      rw [client, hnew]
      rfl
    rw [hclient, view_of_none hnone]
    exact .ofAck _

/-- The clients after a call of `UpdateNeighbors`: the caller's has the new view, and one that
is newly found gets the caller entered. -/
theorem client_look (h : r.Mirrored) (ready : Ready r r₁ c) (answers : r.Answers c N) (p : Entity)
    (u : U) (hp : (r₁.updateNeighbors N c).user p = some u) :
    (p = c → Mirrors ((r₁.updateNeighbors N c).client u) p N) ∧
      (p ≠ c → r.user p = some u ∧ ∃ info : EntityInfo F UInt32, info.entity_id = c ∧
        (r₁.updateNeighbors N c).client u =
          if p ∈ N ∧ p ∉ r.view c then (r.client u).enter info else r.client u) := by
  obtain ⟨hself, hother⟩ := packets_look h.served ready answers hp
  rw [user_updateNeighbors] at hp
  constructor
  · rintro rfl
    have hm := ready.mirrors h hp
    rw [client_of_packets (hself rfl)]
    split_ifs with hNO
    · rw [hNO]
      exact hm
    · exact hm.update (entered_updateNfy (ready.valid answers)) fun hin => (answers p hin).2 rfl
  · intro hpc
    obtain ⟨hup, info, hinfo, hsent⟩ := hother hpc
    refine ⟨hup, info, hinfo, ?_⟩
    rw [client_of_packets hsent]
    split_ifs <;> rfl

/-- The clients after an entity is destroyed: those it had in view let it leave. -/
theorem client_destroy (h : r.Mirrored) (hvalid : r.valid c = true) (p : Entity) (u : U)
    (hp : (r.destroy c).user p = some u) :
    p ≠ c ∧ r.user p = some u ∧
      (r.destroy c).client u =
        if p ∈ r.view c then (r.client u).leave c else r.client u := by
  obtain ⟨hpc, hup, hsent⟩ := packets_destroy h.served hvalid hp
  refine ⟨hpc, hup, ?_⟩
  rw [client_of_packets hsent]
  split_ifs <;> rfl

/-- A step that announces nobody twice keeps the clients mirroring. -/
theorem Effect.mirrored {e : Event} (h : r.Mirrored) (heff : Effect r e r')
    (hann : e.Announces r) : r'.Mirrored := by
  have hserved := heff.served h.served
  refine ⟨hserved.total, hserved.users, fun p u hp => ?_⟩
  cases heff with
  | quiet comps sent =>
    obtain ⟨hneighbors, huser, -⟩ := quiet_visible comps p
    rw [huser] at hp
    rw [client, sent, ← client, view, hneighbors]
    exact h.mirrors p u hp
  | @look r₁ c N ready answers =>
    obtain ⟨hself, hother⟩ := client_look h ready answers p u hp
    rw [view_look h.total ready answers]
    by_cases hpc : p = c
    · rw [if_pos hpc]
      exact hself hpc
    · obtain ⟨hup, info, rfl, hclient⟩ := hother hpc
      have hm := h.mirrors p u hup
      rw [if_neg hpc, hclient]
      split_ifs with hfound
      · have hnew : info.entity_id ∉ r.view p :=
          hann p hfound.1 hfound.2 (Option.isSome_iff_exists.2 ⟨u, hup⟩)
        exact hm.enter hnew (Ne.symm hpc)
      · exact hm
  | @vanish c valid =>
    obtain ⟨hpc, hup, hclient⟩ := client_destroy h valid p u hp
    have hm := h.mirrors p u hup
    rw [view_destroy h.total valid, if_neg hpc, hclient]
    split_ifs
    · exact hm.leave (Ne.symm hpc)
    · exact hm

/-- A step that announces an entity to somebody who has it already leaves a client with two
entities for it. -/
theorem Effect.announces {e : Event} (h : r.Mirrored) (heff : Effect r e r')
    (hmirror : r'.Mirror) : e.Announces r := by
  cases heff with
  | quiet => trivial
  | vanish => trivial
  | @look r₁ c N ready answers =>
    intro x hxN hxO hplayer hcx
    obtain ⟨u, hu⟩ := Option.isSome_iff_exists.1 hplayer
    have hxc : x ≠ c := (answers x hxN).2
    have hu' : (r₁.updateNeighbors N c).user x = some u := by
      rw [user_updateNeighbors, user, ready.others x hxc]
      exact hu
    obtain ⟨-, info, -, hclient⟩ := (client_look h ready answers x u hu').2 hxc
    have hview : (r₁.updateNeighbors N c).view x = r.view x := by
      rw [view_look h.total ready answers, if_neg hxc, if_pos ⟨hxN, hxO⟩,
        SortedSet.insert_of_mem hcx]
    have htotal := total_look h.total ready answers
    obtain ⟨d, hd, -⟩ := Option.bind_eq_some_iff.1 hu'
    obtain ⟨s, hs⟩ := htotal.exists_neighbors ((valid_iff _).2 ⟨d, hd⟩)
    have hperm := hmirror x u s hu' hs
    rw [hclient, if_pos ⟨hxN, hxO⟩, ClientRegion.neighbours_enter, ← view_of_neighbors hs,
      hview] at hperm
    -- one entity more than neighbours
    have hlen := hperm.length_eq
    rw [List.length_append, (h.mirrors x u hu).neighbours.length_eq, List.length_singleton] at hlen
    omega

theorem Mirrored.mirror (h : r.Mirrored) : r.Mirror := by
  intro p u s hp hs
  have hm := (h.mirrors p u hp).neighbours
  rwa [view_of_neighbors hs] at hm

theorem mirrored_empty : (empty : Region F U).Mirrored where
  total _ _ h := nomatch h
  users _ _ _ h := nomatch h
  mirrors _ _ h := nomatch h

/-- The client handles every packet of a run as the one the region sent. -/
theorem handled_sent {es : List (Region F U × Action F U)}
    (h : (regionSystem F U).Run empty es r) (fb : FlatBuffers F) (uninit : Memory) :
    ∀ p ∈ r.sent, handled fb uninit p.2 = some p.2 := by
  have hinv : r.Total ∧ ∀ p ∈ r.sent, p.2.isVisibility = true := by
    refine h.invariant (I := fun r => r.Total ∧ ∀ p ∈ r.sent, p.2.isVisibility = true)
      ⟨fun _ _ hd => (nomatch hd), fun _ hp => (nomatch hp)⟩ fun r a r' hr hstep => ?_
    have heff := next_effect hr.1 hstep
    obtain ⟨l, hl, hvis⟩ := heff.sent hr.1
    refine ⟨heff.total hr.1, fun p hp => ?_⟩
    rw [hl] at hp
    exact (List.mem_append.1 hp).elim (hr.2 p) (hvis p)
  exact fun p hp => handled_of_ne fb uninit (Message.id_ne_of_isVisibility (hinv.2 p hp))
    (Message.fits_of_isVisibility (hinv.2 p hp))

/-- **The clients mirror the server.**  In every state of a run each player's client has an
entity for each neighbour and no other iff no entity is newly found by one that, as a player,
still has it as a neighbour. -/
theorem always_mirror_iff {es : List (Region F U × Action F U)}
    (h : (regionSystem F U).Run empty es r) :
    LTS.Always Mirror es r ↔ ∀ e ∈ es, (e.1.event e.2).Announces e.1 :=
  h.always_iff (I := Mirrored) (C := fun r a => (r.event a).Announces r) mirrored_empty
    (fun _ hr => hr.mirror)
    (fun _ _ _ hr hstep hc => (next_effect hr.total hstep).mirrored hr hc)
    fun _ _ _ hr hstep hm => (next_effect hr.total hstep).announces hr hm

theorem always_mirror_iff_gathering : ∃ es r, (regionSystem ℚ ℕ).Run empty es r ∧
    es.length = 6 ∧ LTS.Always Mirror es r := by
  obtain ⟨r, hrun, -⟩ := LTS.exists_run next empty
    (gathering ++ [.updateMove 0 1 (.ofList [1]), .leave 1]) (fun _ => true) (by decide +kernel)
  exact ⟨_, r, hrun, by decide +kernel, (always_mirror_iff hrun).2 (by decide +kernel)⟩

/-- The first entity loses the player and finds it again: the player's client has it twice. -/
theorem updateNeighbors_not_mirror : ¬∀ (es : List (Region ℚ ℕ × Action ℚ ℕ)) (r : Region ℚ ℕ),
    (regionSystem ℚ ℕ).Run empty es r → LTS.Always Mirror es r := by
  intro h
  obtain ⟨r, hrun, hview⟩ := LTS.exists_run next empty
    (gathering ++ [.updateMove 0 1 (.ofList [1]), .updateMove 0 1 (.ofList [1, 2])])
    (fun r => r.user 2 = some 7 ∧ r.neighbors 2 = some (.ofList [0, 1]) ∧
      (r.client 7).neighbours = [0, 1, 0]) (by decide +kernel)
  obtain ⟨huser, hneighbors, hclient⟩ := of_decide_eq_true hview
  have hperm := (h _ _ hrun).2 2 7 _ huser hneighbors
  rw [hclient] at hperm
  exact absurd hperm (by decide)

end Client

end Region

end ClientServer
