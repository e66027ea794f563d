import ClientServer.Client.Session
import Mathlib.Algebra.Order.BigOperators.Group.Finset

/-!
# The sessions of all users

A region of the server with any number of users, each with its own connection and its own client.
For one user it is a session, in which the requests of the others are served meanwhile.

* `Sessions.next` : the steps.
* `Sessions.session_cases` : what a step is in the session of a user.
* `Sessions.moveReqs_answered` : **every `MoveReq` gets its answer**, one and in order.
* `Sessions.clients_see_players` : **every client sees what its player sees**, as soon as it has
  heard of it.
* `Sessions.serves_everyone`, `Sessions.tells_everyone` : what was asked can be served, if its user is
  in the region, and what was sent can always be heard.
-/

namespace ClientServer

variable {F U : Type*}

/-- A region of the server, and the connections of its users. -/
structure Sessions (F U : Type*) where
  region : Region F U
  connections : U → Connection F

/-- What can happen. -/
inductive SessionsStep (F U : Type*)
  | region (a : Region.PathAction F U)
  /-- A step of the connection of a user. -/
  | client (u : U) (a : SessionStep F U)

/-- A step of the connection itself. -/
def SessionStep.isOwn : SessionStep F U → Bool
  | .region _ | .other _ _ _ _ _ => false
  | _ => true

namespace Sessions

section Steps

variable [Field F] [LinearOrder F] [DecidableEq U] (g : Geometry F) (fb : FlatBuffers F)
  (root : Codec (List UInt8) (Table fb.Raw)) (u : U)

/-- Nobody is in the world, and nothing was sent. -/
def start : Sessions F U := ⟨.empty, fun _ => .start⟩

/-- What belongs to one user. -/
def session (s : Sessions F U) : Session F U := ⟨s.connections u, s.region⟩

/-- One step. -/
def next (s : Sessions F U) : SessionsStep F U → Option (Sessions F U)
  | .region a => (s.region.nextPath g a).map fun region => { s with region }
  | .client u a =>
    if a.isOwn then ((s.session u).next g fb root u a).map fun t =>
      ⟨t.region, Function.update s.connections u t.toConnection⟩
    else none

/-- The steps of all users. -/
def system : LTS (Sessions F U) (SessionsStep F U) := .ofNext (next g fb root)

/-- What has to go well for each user. -/
def Orderly (s : Sessions F U) : SessionsStep F U → Prop
  | .region _ => True
  | .client u a => (s.session u).Orderly fb root u a

/-- What a step of the region announces is new to whom it is announced. -/
def Announces (s : Sessions F U) : SessionsStep F U → Prop
  | .region a => a.Announces s.region
  | .client _ _ => True

instance (s : Sessions F U) : DecidablePred (s.Orderly fb root)
  | .region _ => .isTrue trivial
  | .client u a => inferInstanceAs (Decidable ((s.session u).Orderly fb root u a))

instance (s : Sessions F U) : DecidablePred s.Announces
  | .region a => inferInstanceAs (Decidable (a.Announces s.region))
  | .client _ _ => .isTrue trivial

/-- The requests of these users come nearer to their handlers, which find `user` and `env`. -/
def Serves (us : Finset U) (user : U → User) (env : U → Surroundings F) : SessionsStep F U → Prop
  | .region _ => False
  | .client u a => u ∈ us ∧ a.Serves (user u) (env u)

/-- The packets to these users come nearer to their handlers. -/
def Tells (us : Finset U) : SessionsStep F U → Prop
  | .region _ => False
  | .client u a => u ∈ us ∧ a.Tells

variable {g fb root u} {s s' : Sessions F U} {es : List (Sessions F U × SessionsStep F U)}

omit [Field F] [LinearOrder F] in
theorem session_update (v : U) (t : Session F U) :
    (⟨t.region, Function.update s.connections v t.toConnection⟩ : Sessions F U).session u =
      if v = u then t else ⟨s.connections u, t.region⟩ := by
  split_ifs with hv
  · obtain rfl := hv
    simp only [session, Function.update_self]
  · simp only [session, Function.update_of_ne (Ne.symm hv)]

/-- **What a step is in the session of a user**: a step of the session in which as much goes well, or
nothing at all. -/
theorem session_cases {l : SessionsStep F U} (hstep : next g fb root s l = some s') (u : U) :
    s'.session u = s.session u ∨ ∃ a, (s.session u).next g fb root u a = some (s'.session u) ∧
      (s.Orderly fb root l → (s.session u).Orderly fb root u a) := by
  cases l with
  | region b =>
    obtain ⟨r, hr, rfl⟩ := Option.map_eq_some_iff.1 hstep
    exact .inr ⟨.region b, Option.map_eq_some_iff.2 ⟨r, hr, rfl⟩, fun _ => trivial⟩
  | client v b =>
    obtain ⟨hown, hstep⟩ := Option.ite_none_right_eq_some.1 hstep
    obtain ⟨t, ht, rfl⟩ := Option.map_eq_some_iff.1 hstep
    rw [session_update]
    by_cases hv : v = u
    · obtain rfl := hv
      exact .inr ⟨b, by rw [if_pos rfl, ht], id⟩
    · rw [if_neg hv]
      cases b with
      | region | other => cases hown
      | serve user env =>
        -- the request of another user is served
        obtain ⟨⟨m, req⟩, hp, rfl⟩ := Option.map_eq_some_iff.1 ht
        obtain ⟨call, -, hp⟩ := Option.bind_eq_some_iff.1 hp
        obtain ⟨m, -, hp⟩ := Option.bind_eq_some_iff.1 hp
        obtain ⟨req, hreq, ⟨⟩⟩ := Option.map_eq_some_iff.1 hp
        refine .inr ⟨.other v user env call.1 m, ?_, fun _ => trivial⟩
        exact (if_neg hv).trans (Option.map_eq_some_iff.2 ⟨req, hreq, rfl⟩)
      | ask m =>
        obtain ⟨-, ht⟩ := Option.ite_none_right_eq_some.1 ht
        obtain ⟨link, -, rfl⟩ := Option.map_eq_some_iff.1 ht
        exact .inl rfl
      | up l | readOnServer p | down l | readOnClient =>
        obtain ⟨-, ht⟩ := Option.ite_none_right_eq_some.1 ht
        obtain ⟨link, -, rfl⟩ := Option.map_eq_some_iff.1 ht
        exact .inl rfl
      | send =>
        obtain ⟨m, -, ht⟩ := Option.bind_eq_some_iff.1 ht
        obtain ⟨link, -, rfl⟩ := Option.map_eq_some_iff.1 ht
        exact .inl rfl
      | hear uninit =>
        obtain ⟨call, -, ht⟩ := Option.bind_eq_some_iff.1 ht
        obtain ⟨m, -, rfl⟩ := Option.map_eq_some_iff.1 ht
        exact .inl rfl

theorem next_client {a : SessionStep F U} {t : Session F U}
    (h : (s.session u).next g fb root u a = some t) (hown : a.isOwn = true) :
    next g fb root s (.client u a) =
      some ⟨t.region, Function.update s.connections u t.toConnection⟩ := by
  rw [next, if_pos hown, h, Option.map_some]

/-- All sessions are connected. -/
def AllConnected (fb : FlatBuffers F) (root : Codec (List UInt8) (Table fb.Raw))
    (s : Sessions F U) : Prop :=
  ∀ u, (s.session u).Connected fb root u

theorem AllConnected.step (h : s.AllConnected fb root) {l : SessionsStep F U}
    (hstep : (system g fb root).step s l s') (hgood : s.Orderly fb root l) :
    s'.AllConnected fb root := by
  intro u
  rcases session_cases hstep u with hsame | ⟨a, ha, horderly⟩
  · exact hsame ▸ h u
  · exact (h u).step ha (horderly hgood)

theorem allConnected_run (h : (system g fb root).Run start es s)
    (hgood : ∀ e ∈ es, e.1.Orderly fb root e.2) : s.AllConnected fb root :=
  h.invariant_of (C := Orderly fb root) (fun _ => Session.connected_start)
    (fun _ _ _ hs hstep hl => hs.step hstep hl) hgood

theorem mirrored_step (hm : s.region.Mirrored) {l : SessionsStep F U}
    (hstep : (system g fb root).step s l s') (hann : s.Announces l) : s'.region.Mirrored := by
  cases l with
  | region a =>
    obtain ⟨r, hr, rfl⟩ := Option.map_eq_some_iff.1 hstep
    exact hm.nextPath hr hann
  | client u a =>
    obtain ⟨hown, hstep⟩ := Option.ite_none_right_eq_some.1 hstep
    obtain ⟨t, ht, rfl⟩ := Option.map_eq_some_iff.1 hstep
    have hann : (s.session u).Announces a := by
      cases a <;> trivial
    exact Session.mirrored_step (s := s.session u) hm ht hann

theorem mirrored_run (h : (system g fb root).Run start es s)
    (hgood : ∀ e ∈ es, e.1.Announces e.2) : s.region.Mirrored :=
  h.invariant_of (I := fun s : Sessions F U => s.region.Mirrored) (C := Announces)
    Region.mirrored_empty (fun _ _ _ hs hstep hl => mirrored_step hs hstep hl) hgood

/-! ### Two players -/

/-- They see each other. -/
def meeting : List (SessionsStep ℚ ℕ) :=
  [.region (.region (.createPc 1 7 Region.origin ∅)),
    .region (.region (.createPc 2 8 Region.origin (.ofList [1])))]

/-- A client asks for a way, and `Region::Update` comes to its player. -/
def request (p : Entity) : List (SessionStep ℚ ℕ) :=
  [.ask (.MoveReq ⟨1, 0, 0⟩), .up (.write 58), .up (.receive 58 fun _ => 0), .readOnServer p]

/-- Both do, in turn. -/
def requests : List (SessionsStep ℚ ℕ) :=
  ((request 1).zip (request 2)).flatMap fun (a, b) => [.client 7 a, .client 8 b]

/-- A mesh on which every way is clear. -/
def meadow : Surroundings ℚ :=
  ⟨⟨Navigation.twoPolys 2, ⟨0, 0, 0⟩, ⟨0, 0, 0⟩⟩, 0, fun v t _ => ⟨v, t, fun _ => 0⟩, ∅⟩

/-- Their requests are served, in the other order. -/
def serving : List (SessionsStep ℚ ℕ) :=
  [.client 8 (.serve ⟨some 2, true⟩ meadow), .client 7 (.serve ⟨some 1, true⟩ meadow)]

/-- Three packets of these sizes are sent and heard. -/
def telling (i j k : ℕ) : List (SessionStep ℚ ℕ) :=
  [.send, .send, .down (.write i), .down (.receive i fun _ => 0), .send, .readOnClient,
    .hear fun _ => 0, .down (.write j), .down (.write k), .down (.receive j fun _ => 0),
    .down (.receive k fun _ => 0), .readOnClient, .hear fun _ => 0, .hear fun _ => 0]

/-- All of this. -/
def exchange : List (SessionsStep ℚ ℕ) :=
  meeting ++ requests ++ serving ++ (telling 170 174 6).map (.client 7) ++
    (telling 174 340 6).map (.client 8)

/-! ### Safety -/

/-- **Every `MoveReq` gets its answer.**  In every run in which all goes well, whatever the order of
the steps of the clients, of their connections and of the region, the requests of each client are
served once and in order, and the `MoveAck`s that it hears are the answers to its `MoveReq`s, one for
each and in their order. -/
theorem moveReqs_answered (h : (system g fb root).Run start es s)
    (hgood : ∀ e ∈ es, e.1.Orderly fb root e.2) (u : U) : (s.session u).Answered u :=
  (allConnected_run h hgood u).answered

theorem moveReqs_answered_exchange : ∃ es s,
    (system Region.unitGeometry FlatBuffers.plain FlatBuffers.plainRoot).Run start es s ∧
      (s.session 7).heard.filterMap Message.moveAck = [0] ∧ (s.session 7).Settled 7 ∧
      (s.session 7).Answered 7 := by
  obtain ⟨s, hrun, hs⟩ := LTS.exists_run
    (next Region.unitGeometry FlatBuffers.plain FlatBuffers.plainRoot) start exchange
    (fun s => (s.session 7).heard.filterMap Message.moveAck = [0] ∧ (s.session 7).Settled 7)
    (by decide +kernel)
  obtain ⟨hheard, hsettled⟩ := of_decide_eq_true hs
  exact ⟨_, s, hrun, hheard, hsettled, moveReqs_answered hrun (by decide +kernel) 7⟩

/-- **Every client sees what its player sees.**  In every run in which all goes well, and nobody is
announced twice, the region of each client is that of the packets it has heard so far, in order; and
a client that has heard all of them, as it has when nothing is under way, mirrors the neighbours that
its player has on the server. -/
theorem clients_see_players (h : (system g fb root).Run start es s)
    (hgood : ∀ e ∈ es, e.1.Orderly fb root e.2 ∧ e.1.Announces e.2) (u : U) :
    (s.session u).Seen u :=
  (allConnected_run h (fun e he => (hgood e he).1) u).seen
    (mirrored_run h fun e he => (hgood e he).2)

theorem clients_see_players_exchange : ∃ es s,
    (system Region.unitGeometry FlatBuffers.plain FlatBuffers.plainRoot).Run start es s ∧
      s.region.neighbors 2 = some (.ofList [1]) ∧ (s.session 8).Settled 8 ∧
      (s.session 8).Seen 8 := by
  obtain ⟨s, hrun, hs⟩ := LTS.exists_run
    (next Region.unitGeometry FlatBuffers.plain FlatBuffers.plainRoot) start exchange
    (fun s => s.region.neighbors 2 = some (.ofList [1]) ∧ (s.session 8).Settled 8)
    (by decide +kernel)
  obtain ⟨hneighbors, hsettled⟩ := of_decide_eq_true hs
  exact ⟨_, s, hrun, hneighbors, hsettled, clients_see_players hrun (by decide +kernel) 8⟩

/-! ### Progress -/

/-- What is left to do for some of the users, if it is less for one of them and the same for the
others. -/
theorem sum_lt_of_update {us : Finset U} {m m' : U → ℕ} (hu : u ∈ us) (hless : m' u < m u)
    (hsame : ∀ v, v ≠ u → m' v = m v) : ∑ v ∈ us, m' v < ∑ v ∈ us, m v := by
  refine Finset.sum_lt_sum (fun v _ => ?_) ⟨u, hu, hless⟩
  by_cases hv : v = u
  · exact hv ▸ hless.le
  · exact (hsame v hv).le

/-- **What was asked can be served.**  Every run in which all goes well can go on, with steps of the
links to the server and of its handlers only, and whatever these find, until all requests of these
users are served, if each of them has an entity in the region. -/
theorem serves_everyone (h : (system g fb root).Run start es s)
    (hgood : ∀ e ∈ es, e.1.Orderly fb root e.2) (us : Finset U)
    (hus : ∀ u ∈ us, ∃ p, s.region.user p = some u) (user : U → User)
    (env : U → Surroundings F) : ∃ es' s', (system g fb root).Run s es' s' ∧
      (∀ e ∈ es', Serves us user env e.2 ∧ e.1.Orderly fb root e.2) ∧
      ∀ u ∈ us, (s'.session u).served.map Prod.fst = (s.session u).asked := by
  obtain ⟨es', s', hrun, hgood', ⟨-, hasked, -⟩, hdone⟩ := LTS.Run.exists_done
    (A := system g fb root)
    (I := fun t => t.AllConnected fb root ∧ (∀ u, (t.session u).asked = (s.session u).asked) ∧
      ∀ x, t.region.user x = s.region.user x)
    (D := fun t => ∀ u ∈ us, (t.session u).served.map Prod.fst = (t.session u).asked)
    (C := fun t l => Serves us user env l ∧ t.Orderly fb root l)
    (fun t => ∑ u ∈ us, (t.session u).leftToServe)
    (fun t ⟨ht, hasked, husers⟩ hne => by
      push Not at hne
      obtain ⟨u, hu, hne⟩ := hne
      obtain ⟨p, hp⟩ := hus u hu
      obtain ⟨a, t', hstep, ⟨hserves, ha⟩, ⟨hsame, hkept⟩, hless⟩ :=
        (ht u).serves_more (g := g) (user u) (env u) ((husers p).trans hp) hne
      have hown : a.isOwn = true := by
        cases a <;> first | rfl | cases hserves
      have hnext := next_client hstep hown
      refine ⟨.client u a, _, hnext, ⟨⟨hu, hserves⟩, ha⟩,
        ⟨ht.step hnext ha, fun v => ?_, fun x => (hkept x).trans (husers x)⟩, ?_⟩
      · rw [session_update]
        split_ifs with hv
        · exact hv ▸ hsame.trans (hasked u)
        · exact hasked v
      · refine sum_lt_of_update hu ?_ fun v hv => ?_
        · rwa [session_update, if_pos rfl]
        · rw [session_update, if_neg (Ne.symm hv)]
          rfl)
    ⟨allConnected_run h hgood, fun _ => rfl, fun _ => rfl⟩
  exact ⟨es', s', hrun, hgood', fun u hu => (hdone u hu).trans (hasked u)⟩

/-- The requests were not served yet. -/
theorem serves_everyone_exchange : ∃ es s,
    (system Region.unitGeometry FlatBuffers.plain FlatBuffers.plainRoot).Run start es s ∧
      (s.session 7).served.length = 0 ∧
      ∃ es' s', (system Region.unitGeometry FlatBuffers.plain FlatBuffers.plainRoot).Run s es' s' ∧
        (∀ e ∈ es', Serves {7, 8} (fun u => ⟨some (.ofNat (u - 6)), true⟩) (fun _ => meadow) e.2 ∧
          e.1.Orderly FlatBuffers.plain FlatBuffers.plainRoot e.2) ∧
        ∀ u ∈ ({7, 8} : Finset ℕ), (s'.session u).served.map Prod.fst = (s.session u).asked := by
  obtain ⟨s, hrun, hs⟩ := LTS.exists_run
    (next Region.unitGeometry FlatBuffers.plain FlatBuffers.plainRoot) start
    (meeting ++ requests) (fun s => (s.session 7).served.length = 0 ∧
      s.region.user 1 = some 7 ∧ s.region.user 2 = some 8) (by decide +kernel)
  obtain ⟨hserved, hp, hq⟩ := of_decide_eq_true hs
  refine ⟨_, s, hrun, hserved, serves_everyone hrun (by decide +kernel) _ (fun u hu => ?_) _ _⟩
  rcases Finset.mem_insert.1 hu with rfl | hu
  · exact ⟨1, hp⟩
  · obtain rfl := Finset.mem_singleton.1 hu
    exact ⟨2, hq⟩

/-- **What was sent can be heard.**  Every run in which all goes well can go on, without a step of the
region, until these users have heard all that the region has sent them, if it fits into packets. -/
theorem tells_everyone (h : (system g fb root).Run start es s)
    (hgood : ∀ e ∈ es, e.1.Orderly fb root e.2) (us : Finset U)
    (hfit : ∀ u ∈ us, ∀ m ∈ (s.session u).log u, (m.body fb root).length ≤ 65531) :
    ∃ es' s', (system g fb root).Run s es' s' ∧
      (∀ e ∈ es', Tells us e.2 ∧ e.1.Orderly fb root e.2) ∧
      s'.region = s.region ∧ ∀ u ∈ us, (s'.session u).heard = (s.session u).log u := by
  have hlog : ∀ t : Sessions F U, t.region = s.region → ∀ u,
      (t.session u).log u = (s.session u).log u := fun t ht u =>
    congrArg (fun r : Region F U => packetsTo u r.sent) ht
  obtain ⟨es', s', hrun, hgood', ⟨-, hregion⟩, hdone⟩ := LTS.Run.exists_done
    (A := system g fb root) (I := fun t => t.AllConnected fb root ∧ t.region = s.region)
    (D := fun t => ∀ u ∈ us, (t.session u).heard = (t.session u).log u)
    (C := fun t l => Tells us l ∧ t.Orderly fb root l)
    (fun t => ∑ u ∈ us, (t.session u).leftToTell u)
    (fun t ⟨ht, hregion⟩ hne => by
      push Not at hne
      obtain ⟨u, hu, hne⟩ := hne
      obtain ⟨a, t', hstep, ⟨htells, ha⟩, hsame, hless⟩ :=
        (ht u).tells_more (g := g) (hlog t hregion u ▸ hfit u hu) hne
      have hown : a.isOwn = true := by
        cases a <;> first | rfl | cases htells
      have hnext := next_client hstep hown
      refine ⟨.client u a, _, hnext, ⟨⟨hu, htells⟩, ha⟩, ⟨ht.step hnext ha, hsame.trans hregion⟩, ?_⟩
      refine sum_lt_of_update hu ?_ fun v hv => ?_
      · rwa [session_update, if_pos rfl]
      · rw [session_update, if_neg (Ne.symm hv), hsame]
        rfl)
    ⟨allConnected_run h hgood, rfl⟩
  exact ⟨es', s', hrun, hgood', hregion, fun u hu => (hdone u hu).trans (hlog s' hregion u)⟩

/-- The second player has heard nothing yet. -/
theorem tells_everyone_exchange : ∃ es s,
    (system Region.unitGeometry FlatBuffers.plain FlatBuffers.plainRoot).Run start es s ∧
      ((s.session 8).log 8).length = 3 ∧ (s.session 8).heard.length = 0 ∧
      ∃ es' s', (system Region.unitGeometry FlatBuffers.plain FlatBuffers.plainRoot).Run s es' s' ∧
        (∀ e ∈ es', Tells {8} e.2 ∧ e.1.Orderly FlatBuffers.plain FlatBuffers.plainRoot e.2) ∧
        s'.region = s.region ∧ ∀ u ∈ ({8} : Finset ℕ), (s'.session u).heard = (s.session u).log u := by
  obtain ⟨s, hrun, hs⟩ := LTS.exists_run
    (next Region.unitGeometry FlatBuffers.plain FlatBuffers.plainRoot) start
    (meeting ++ requests ++ serving)
    (fun s => ((s.session 8).log 8).length = 3 ∧ (s.session 8).heard.length = 0 ∧
      (((s.session 8).log 8).all fun m =>
        (m.body FlatBuffers.plain FlatBuffers.plainRoot).length ≤ 65531) = true) (by decide +kernel)
  obtain ⟨hlog, hheard, hfit⟩ := of_decide_eq_true hs
  exact ⟨_, s, hrun, hlog, hheard, tells_everyone hrun (by decide +kernel) _ (by simpa using hfit)⟩

end Steps

end Sessions

end ClientServer
