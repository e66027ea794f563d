import ClientServer.Client.Mirror
import ClientServer.Schema.ByteFormat
import ClientServer.Schema.Conveyance
import ClientServer.Server.Asides

/-!
# A session, end to end

A region of the server, one of its users, and the client of that user, with a link in each
direction between them.  The client asks for something; the server's handlers serve the requests and
answer; what the region sends to the user goes through the link as packets, and the client's handlers
hear of it.  The region goes on meanwhile and serves its other users, and all of this happens in any
order.

* `Session.next` : the steps.
* `Session.Connected` : the invariant: both links convey their messages, and the answers among what
  the region sends are those to the requests served.
* `Session.Answered`, `Session.Seen` : what it means for the requests, and for the client's region.
-/

namespace ClientServer

variable {F U : Type*}

/-- What the mesh, the tree and the debug table answer to a handler of the server: the table has a
row for the collider that is asked for. -/
structure Surroundings (F : Type*) where
  nav : Navigation F
  z : F
  createCollider : fbVec F → UInt8 → Int16 → Collider F
  list : SortedSet Entity

/-- `SerializeDebugCollider`. -/
def Surroundings.serialize (env : Surroundings F) (center : fbVec F) (type : UInt8) (dir : Int16) :
    UInt8 × fbVec F × List UInt8 :=
  let info := DebugSystem.pack (env.createCollider center type dir)
  (info.type, info.center, info.data)

/-- The two directions of the connection of a user, and the region of the client. -/
structure Connection (F : Type*) where
  /-- To the server. -/
  up : Link PacketId
  /-- To the client. -/
  down : Link PacketId
  client : ClientRegion F
  /-- What the client has asked for. -/
  asked : List (Message F)
  /-- What the handlers of the server have got, with the error code of the `MoveAck` if it was
  answered with one. -/
  served : List (Message F × Option UInt16)
  /-- What the handlers of the client have got. -/
  heard : List (Message F)

/-- Nothing was sent. -/
def Connection.start : Connection F := ⟨.start, .start, .init, [], [], []⟩

/-- A region of the server, and the connection of one of its users. -/
structure Session (F U : Type*) extends Connection F where
  region : Region F U

/-- What can happen. -/
inductive SessionStep (F U : Type*)
  /-- A step of the region. -/
  | region (a : Region.PathAction F U)
  /-- A request of another user is served. -/
  | other (v : U) (user : User) (env : Surroundings F) (id : PacketId) (m : Message F)
  /-- The client sends a request. -/
  | ask (m : Message F)
  /-- A step of an io thread on the link to the server. -/
  | up (l : LinkAction)
  /-- `Region::Update` comes to the entity `p`, and calls `User::ReadPackets` of its user. -/
  | readOnServer (p : Entity)
  /-- The next handler is called in `User::ReadPackets`. -/
  | serve (user : User) (env : Surroundings F)
  /-- The next packet of the region to the user is sent. -/
  | send
  /-- A step of an io thread on the link to the client. -/
  | down (l : LinkAction)
  /-- `NetTcp::ReadPackets` is called. -/
  | readOnClient
  /-- The next handler is called in `NetTcp::ReadPackets`, over what is in the memory. -/
  | hear (uninit : Memory)

/-- A step of the link to the server, or of its handlers for `user` in `env`. -/
def SessionStep.Serves (user : User) (env : Surroundings F) : SessionStep F U → Prop
  | .up _ | .readOnServer _ => True
  | .serve user' env' => user' = user ∧ env' = env
  | _ => False

/-- A step that brings what the region sent nearer to the client. -/
def SessionStep.Tells : SessionStep F U → Prop
  | .send | .down _ | .readOnClient | .hear _ => True
  | _ => False

/-- The packet that a handler of the server has read: `Recv_DashReq` reads a destination. -/
def Message.request (env : Surroundings F) : PacketId → Message F → Option (Request F)
  | .MoveReq, .MoveReq dest => some (.MoveReq env.nav dest)
  | .DashReq, .MoveReq dest => some (.DashReq env.nav dest env.z)
  | .DebugColliderReq, .DebugColliderReq type dir =>
    some (.DebugColliderReq env.serialize dir type env.list)
  | _, _ => none

theorem Message.exists_request (env : Surroundings F) {m : Message F} (h : m.isRequest = true)
    (hdash : m.id ≠ .DashReq) : ∃ req, m.request env m.id = some req := by
  cases m <;> first | exact ⟨_, rfl⟩ | exact absurd rfl hdash | cases h

theorem Message.fits_request {env : Surroundings F} {id : PacketId} {m : Message F} {req : Request F}
    (h : m.request env id = some req) : req.Fits := by
  unfold Message.request at h
  split at h
  · obtain rfl := Option.some.inj h
    trivial
  · obtain rfl := Option.some.inj h
    trivial
  · obtain rfl := Option.some.inj h
    exact fun center type dir => DebugSystem.length_data_pack _
  · cases h

/-! ### The region -/

namespace Region

variable [Field F] [LinearOrder F] [DecidableEq U] {r r' : Region F U} {l : List (U × Message F)}

/-- Of what is not about neighbours the client's region makes nothing. -/
theorem foldl_recv_of_not_isVisibility {l : List (Message F)}
    (h : ∀ m ∈ l, m.isVisibility = false) (c : ClientRegion F) : l.foldl ClientRegion.recv c = c := by
  induction l with
  | nil => rfl
  | cons m l ih =>
    rw [List.forall_mem_cons] at h
    have hm : c.recv m = c := by
      cases m <;> first | rfl | cases h.1
    rw [List.foldl_cons, hm, ih h.2]

theorem Mirrored.aside (h : r.Mirrored) (ha : Aside r r' l) : r'.Mirrored where
  total := total_quiet h.total ha.comps
  users x y u hx hy := by
    rw [(quiet_visible ha.comps _).2.1] at hx hy
    exact h.users x y u hx hy
  mirrors p u hp := by
    obtain ⟨hneighbors, huser, -⟩ := quiet_visible ha.comps p
    rw [huser] at hp
    have hpackets : packetsTo u r'.sent = packetsTo u r.sent ++ packetsTo u l := by
      rw [ha.sent, packetsTo_append]
    rw [client_of_packets hpackets, foldl_recv_of_not_isVisibility
      fun m hm => (ha.other _ (mem_packetsTo.1 hm)).1, view, hneighbors]
    exact h.mirrors p u hp

/-- In a step of the region nobody is newly found by one who still has it as a neighbour. -/
def PathAction.Announces (r : Region F U) : PathAction F U → Prop
  | .region a => (r.event a).Announces r
  | .updatePath _ _ => True

instance (r : Region F U) : DecidablePred (PathAction.Announces r)
  | .region a => inferInstanceAs (Decidable ((r.event a).Announces r))
  | .updatePath _ _ => .isTrue trivial

theorem Mirrored.nextPath {g : Geometry F} {a : PathAction F U} (h : r.Mirrored)
    (hr : r.nextPath g a = some r') (hann : a.Announces r) : r'.Mirrored := by
  cases a with
  | region a => exact (next_effect h.total hr).mirrored h hann
  | updatePath eid contacts =>
    obtain ⟨-, hr⟩ := Option.ite_none_right_eq_some.1 hr
    obtain rfl := Option.some.inj hr
    obtain ⟨l, hl, -⟩ := exists_aside_updatePath r g eid contacts
    exact h.aside hl

theorem Mirrored.recv (h : r.Mirrored) (u : U) (user : User) (req : Request F) :
    (r.recv u user req).Mirrored := by
  obtain ⟨l, hl, -⟩ := exists_aside_recv r u user req
  exact h.aside hl

/-- What a step of the region sends: no requests, and no answers to requests. -/
theorem exists_sent_nextPath {g : Geometry F} {a : PathAction F U} (hT : r.Total)
    (h : r.nextPath g a = some r') : r'.Total ∧ ∃ l, r'.sent = r.sent ++ l ∧
      ∀ q ∈ l, (q.2.isRequest = false ∧ q.2.Fits) ∧ q.2.moveAck = none := by
  cases a with
  | region a =>
    have heff := next_effect hT h
    obtain ⟨l, hsent, hvis⟩ := heff.sent hT
    exact ⟨heff.total hT, l, hsent, fun q hq =>
      ⟨⟨Message.isRequest_of_isVisibility (hvis q hq), Message.fits_of_isVisibility (hvis q hq)⟩,
        Message.moveAck_of_isVisibility (hvis q hq)⟩⟩
  | updatePath eid contacts =>
    obtain ⟨-, h⟩ := Option.ite_none_right_eq_some.1 h
    obtain rfl := Option.some.inj h
    obtain ⟨l, hl, hsilent⟩ := exists_aside_updatePath r g eid contacts
    exact ⟨total_quiet hT hl.comps, l, hl.sent, fun q hq =>
      ⟨⟨(hl.other q hq).2, (hsilent q hq).2⟩, (hsilent q hq).1⟩⟩

omit [DecidableEq U] in
theorem isSome_moveCode {env : Surroundings F} {m : Message F} {req : Request F}
    (h : m.request env m.id = some req) (r : Region F U) (user : User) :
    (r.moveCode user req).isSome = m.moveReq.isSome := by
  cases m <;> first | (obtain rfl := Option.some.inj h; rfl) | cases h

end Region

namespace Session

/-- The loop of `User::ReadPackets`. -/
def readOnServer : List RecvPacket → Reading PacketId :=
  User.readPackets (.ofBinds (bindPackets Server.bound))

/-- The loop of `NetTcp::ReadPackets`. -/
def readOnClient : List RecvPacket → Reading PacketId :=
  NetTcp.readPackets (.ofBinds (bindPackets Client.bound))

section Steps

variable [Field F] [LinearOrder F] [DecidableEq U] (g : Geometry F) (fb : FlatBuffers F)
  (root : Codec (List UInt8) (Table fb.Raw)) (u : U)

/-- Nobody is in the world, and nothing was sent. -/
def start : Session F U := ⟨.start, .empty⟩

/-- What the region sent to the user. -/
def log (s : Session F U) : List (Message F) := packetsTo u s.region.sent

/-- The next request for the handlers of the server. -/
def nextRequest (s : Session F U) (env : Surroundings F) : Option (Message F × Request F) :=
  s.up.calls[s.served.length]?.bind fun call =>
    (Server.handle fb (root.get call.2) call.1).bind fun m =>
      (m.request env call.1).map fun req => (m, req)

/-- One step.  `ReadPackets` is called when it has returned before, and for a user that is in the
region.  A handler that follows a null pointer does not return. -/
def next (s : Session F U) : SessionStep F U → Option (Session F U)
  | .region a => (s.region.nextPath g a).map fun region => { s with region }
  | .other v user env id m =>
    if v = u then none
    else (m.request env id).map fun req => { s with region := s.region.recv v user req }
  | .ask m =>
    if m.isRequest then
      (s.up.next readOnServer (.send m.id.toUInt16 (m.body fb root))).map fun up =>
        { s with up, asked := s.asked ++ [m] }
    else none
  | .up l => if l.isIo then (s.up.next readOnServer l).map fun up => { s with up } else none
  | .readOnServer p =>
    if s.region.user p = some u ∧ s.served.length = s.up.calls.length then
      (s.up.next readOnServer .readPackets).map fun up => { s with up }
    else none
  | .serve user env =>
    (s.nextRequest fb root env).map fun (m, req) =>
      { s with
        region := s.region.recv u user req
        served := s.served ++ [(m, s.region.moveCode user req)] }
  | .send =>
    (s.log u)[s.down.sends.length]?.bind fun m =>
      (s.down.next readOnClient (.send m.id.toUInt16 (m.body fb root))).map fun down =>
        { s with down }
  | .down l => if l.isIo then (s.down.next readOnClient l).map fun down => { s with down } else none
  | .readOnClient =>
    if s.heard.length = s.down.calls.length then
      (s.down.next readOnClient .readPackets).map fun down => { s with down }
    else none
  | .hear uninit =>
    s.down.calls[s.heard.length]?.bind fun call =>
      (Client.handle fb uninit (root.get call.2) call.1).map fun m =>
        { s with client := s.client.recv m, heard := s.heard ++ [m] }

/-- The steps of a session. -/
def system : LTS (Session F U) (SessionStep F U) := .ofNext (next g fb root u)

/-- What has to go well: both links are orderly, bodies fit into a receive, and nobody dashes, for
`Recv_DashReq` reads another table than was sent. -/
def Orderly (s : Session F U) : SessionStep F U → Prop
  | .ask m => m.id ≠ .DashReq ∧ (m.body fb root).length ≤ 65531
  | .up l => s.up.Orderly (bindPackets Server.bound) l
  | .send => ∀ m ∈ (s.log u)[s.down.sends.length]?, (m.body fb root).length ≤ 65531
  | .down l => s.down.Orderly (bindPackets Client.bound) l
  | _ => True

/-- What a step of the region announces is new to whom it is announced. -/
def Announces (s : Session F U) : SessionStep F U → Prop
  | .region a => a.Announces s.region
  | _ => True

instance (s : Session F U) : DecidablePred (s.Orderly fb root u)
  | .ask m => inferInstanceAs (Decidable (m.id ≠ .DashReq ∧ (m.body fb root).length ≤ 65531))
  | .up l => inferInstanceAs (Decidable (s.up.Orderly (bindPackets Server.bound) l))
  | .send => inferInstanceAs (Decidable
      (∀ m ∈ (s.log u)[s.down.sends.length]?, (m.body fb root).length ≤ 65531))
  | .down l => inferInstanceAs (Decidable (s.down.Orderly (bindPackets Client.bound) l))
  | .region _ | .other _ _ _ _ _ | .readOnServer _ | .serve _ _ | .readOnClient | .hear _ =>
    .isTrue trivial

instance (s : Session F U) : DecidablePred s.Announces
  | .region a => inferInstanceAs (Decidable (a.Announces s.region))
  | .other _ _ _ _ _ | .ask _ | .up _ | .readOnServer _ | .serve _ _ | .send | .down _
  | .readOnClient | .hear _ => .isTrue trivial

/-- Nothing is under way any more. -/
structure Settled (s : Session F U) : Prop where
  up : s.up.Idle
  served : s.served.length = s.up.calls.length
  sent : s.down.sends.length = (s.log u).length
  down : s.down.Idle
  heard : s.heard.length = s.down.calls.length

instance (s : Session F U) : Decidable (s.Settled u) :=
  decidable_of_iff (s.up.Idle ∧ s.served.length = s.up.calls.length ∧
      s.down.sends.length = (s.log u).length ∧ s.down.Idle ∧ s.heard.length = s.down.calls.length)
    ⟨fun ⟨hup, hserved, hsent, hdown, hheard⟩ => ⟨hup, hserved, hsent, hdown, hheard⟩,
      fun h => ⟨h.up, h.served, h.sent, h.down, h.heard⟩⟩

/-- Both links convey their messages: the requests to the server, and what the region sends to the
client; and the `MoveAck`s among this are the answers to the requests served. -/
structure Connected (s : Session F U) : Prop where
  total : s.region.Total
  up : Conveyed fb root Server.bound s.up s.asked (s.served.map Prod.fst)
  asks : s.up.sends.length = s.asked.length
  requests : ∀ m ∈ s.asked, m.isRequest = true ∧ m.id ≠ .DashReq
  down : Conveyed fb root Client.bound s.down (s.log u) s.heard
  notifications : ∀ q ∈ s.region.sent, q.2.isRequest = false ∧ q.2.Fits
  codes : ∀ p ∈ s.served, p.2.isSome = p.1.moveReq.isSome
  answers : (s.log u).filterMap Message.moveAck = s.served.filterMap Prod.snd
  client : s.client = s.heard.foldl ClientRegion.recv .init

variable {g fb root u} {s s' : Session F U} {es : List (Session F U × SessionStep F U)}

theorem connected_start : Connected fb root u (start : Session F U) where
  total _ _ hd := nomatch hd
  up := .start
  asks := rfl
  requests := by simp [start, Connection.start]
  down := .start
  notifications := by simp [start, Region.empty]
  codes := by simp [start, Connection.start]
  answers := rfl
  client := rfl

omit [Field F] [LinearOrder F] in
theorem log_append {r : Region F U} {l : List (U × Message F)}
    (h : r.sent = s.region.sent ++ l) : packetsTo u r.sent = s.log u ++ packetsTo u l := by
  rw [h, packetsTo_append, log]

/-- The region sends more packets, which are answers to the requests served since. -/
theorem Connected.sends (h : Connected fb root u s) {r : Region F U} {l : List (U × Message F)}
    {k : List (Message F × Option UInt16)} (htotal : r.Total)
    (hsent : r.sent = s.region.sent ++ l) (hl : ∀ q ∈ l, q.2.isRequest = false ∧ q.2.Fits)
    (hup : Conveyed fb root Server.bound s.up s.asked ((s.served ++ k).map Prod.fst))
    (hcodes : ∀ p ∈ k, p.2.isSome = p.1.moveReq.isSome)
    (hanswers : (packetsTo u l).filterMap Message.moveAck = k.filterMap Prod.snd) :
    Connected fb root u { s with region := r, served := s.served ++ k } where
  total := htotal
  up := hup
  asks := h.asks
  requests := h.requests
  down := by
    have hmore := h.down.more (l := packetsTo u l) fun m hm =>
      Client.mem_bound (hl (u, m) (mem_packetsTo.1 hm)).1
    rwa [← log_append hsent] at hmore
  notifications q hq := by
    change q ∈ r.sent at hq
    rw [hsent] at hq
    exact (List.mem_append.1 hq).elim (h.notifications q) (hl q)
  codes := List.forall_mem_append.2 ⟨h.codes, hcodes⟩
  answers := by
    change (packetsTo u r.sent).filterMap _ = _
    rw [log_append hsent, List.filterMap_append, h.answers, hanswers, List.filterMap_append]
  client := h.client

theorem Connected.region (h : Connected fb root u s) {a : Region.PathAction F U}
    (hstep : next g fb root u s (.region a) = some s') : Connected fb root u s' := by
  obtain ⟨r, hr, rfl⟩ := Option.map_eq_some_iff.1 hstep
  obtain ⟨htotal, l, hsent, hl⟩ := Region.exists_sent_nextPath h.total hr
  have hacks : (packetsTo u l).filterMap Message.moveAck = [] :=
    Region.moveAcks_eq_nil fun q hq => (hl q hq).2
  simpa using h.sends (k := []) htotal hsent (fun q hq => (hl q hq).1) (by simpa using h.up)
    (by simp) hacks

theorem Connected.other (h : Connected fb root u s) {v : U} {user : User} {env : Surroundings F}
    {id : PacketId} {m : Message F}
    (hstep : next g fb root u s (.other v user env id m) = some s') : Connected fb root u s' := by
  obtain ⟨hv, hstep⟩ := Option.ite_none_left_eq_some.1 hstep
  obtain ⟨req, hreq, rfl⟩ := Option.map_eq_some_iff.1 hstep
  obtain ⟨l, hl, hacks, hfits⟩ := Region.exists_aside_recv s.region v user req
  have hnone := hacks u
  rw [if_neg hv] at hnone
  simpa using h.sends (k := []) (Region.total_quiet h.total hl.comps) hl.sent
    (fun q hq => ⟨(hl.other q hq).2, hfits (Message.fits_request hreq) q hq⟩) (by simpa using h.up)
    (by simp) hnone

theorem Connected.ask (h : Connected fb root u s) {m : Message F}
    (hstep : next g fb root u s (.ask m) = some s') (hgood : s.Orderly fb root u (.ask m)) :
    Connected fb root u s' := by
  obtain ⟨hreq, hstep⟩ := Option.ite_none_right_eq_some.1 hstep
  obtain ⟨up, hup, rfl⟩ := Option.map_eq_some_iff.1 hstep
  have hmore := h.up.more (l := [m]) (by simpa using Server.mem_bound hreq)
  have hnext : (s.asked ++ [m])[s.up.sends.length]? = some m := by
    rw [h.asks, List.getElem?_concat_length]
  have hlen : up.sends.length = s.up.sends.length + 1 := by
    obtain rfl := Option.some.inj hup
    exact List.length_append
  refine ⟨h.total, hmore.send Link.reads_user hnext hgood.2 hup, ?_, ?_, h.down, h.notifications,
    h.codes, h.answers, h.client⟩
  · rw [hlen, h.asks, List.length_append, List.length_singleton]
  · exact List.forall_mem_append.2 ⟨h.requests, by simpa using ⟨hreq, hgood.1⟩⟩

theorem Connected.upLink (h : Connected fb root u s) {l : LinkAction} {up : Link PacketId}
    (hup : s.up.next Session.readOnServer l = some up) (hsend : l.isSend = false)
    (hgood : s.up.Orderly (bindPackets Server.bound) l) :
    Connected fb root u { s with up } :=
  ⟨h.total, h.up.step Link.reads_user hup hsend hgood,
    (congrArg List.length (Link.sends_next hup hsend)).trans h.asks, h.requests, h.down,
    h.notifications, h.codes, h.answers, h.client⟩

theorem Connected.upStep (h : Connected fb root u s) {l : LinkAction}
    (hstep : next g fb root u s (.up l) = some s') (hgood : s.Orderly fb root u (.up l)) :
    Connected fb root u s' := by
  obtain ⟨hio, hstep⟩ := Option.ite_none_right_eq_some.1 hstep
  obtain ⟨up, hup, rfl⟩ := Option.map_eq_some_iff.1 hstep
  exact h.upLink hup (LinkAction.isSend_of_isIo hio) hgood

theorem Connected.readOnServer (h : Connected fb root u s) {p : Entity}
    (hstep : next g fb root u s (.readOnServer p) = some s') : Connected fb root u s' := by
  obtain ⟨-, hstep⟩ := Option.ite_none_right_eq_some.1 hstep
  obtain ⟨up, hup, rfl⟩ := Option.map_eq_some_iff.1 hstep
  exact h.upLink hup rfl trivial

theorem Connected.served_next (h : Connected fb root u s) (user : User) (env : Surroundings F)
    {call : PacketId × List UInt8} (hcall : s.up.calls[s.served.length]? = some call) :
    ∃ m req, Conveyed fb root Server.bound s.up s.asked (s.served.map Prod.fst ++ [m]) ∧
      m.request env m.id = some req ∧
      next g fb root u s (.serve user env) = some { s with
        region := s.region.recv u user req
        served := s.served ++ [(m, s.region.moveCode user req)] } := by
  have hnext := hcall
  rw [← List.length_map Prod.fst] at hnext
  obtain ⟨m, hm, rfl, hup⟩ := h.up.message hnext
  obtain ⟨hreq, hdash⟩ := h.requests m (List.mem_of_getElem? hm)
  obtain ⟨req, hrequest⟩ := Message.exists_request env hreq hdash
  refine ⟨m, req, hup, hrequest, ?_⟩
  simp only [next, nextRequest, hcall, Option.bind_some, Server.handle_call fb root hreq hdash, hrequest,
    Option.map_some]

theorem Connected.serve (h : Connected fb root u s) {user : User} {env : Surroundings F}
    (hstep : next g fb root u s (.serve user env) = some s') : Connected fb root u s' := by
  obtain ⟨_, hnext, -⟩ := Option.map_eq_some_iff.1 hstep
  obtain ⟨call, hcall, -⟩ := Option.bind_eq_some_iff.1 hnext
  obtain ⟨m, req, hup, hrequest, hnext⟩ := h.served_next (g := g) user env hcall
  obtain rfl := Option.some.inj (hnext.symm.trans hstep)
  obtain ⟨l, hl, hacks, hfits⟩ := Region.exists_aside_recv s.region u user req
  refine h.sends (Region.total_quiet h.total hl.comps) hl.sent
    (fun q hq => ⟨(hl.other q hq).2, hfits (Message.fits_request hrequest) q hq⟩) ?_ ?_ ?_
  · simpa using hup
  · simpa using Region.isSome_moveCode hrequest s.region user
  · rw [hacks, if_pos rfl]
    cases s.region.moveCode user req <;> rfl

theorem Connected.send (h : Connected fb root u s) (hstep : next g fb root u s .send = some s')
    (hgood : s.Orderly fb root u .send) : Connected fb root u s' := by
  obtain ⟨m, hm, hstep⟩ := Option.bind_eq_some_iff.1 hstep
  obtain ⟨down, hdown, rfl⟩ := Option.map_eq_some_iff.1 hstep
  exact ⟨h.total, h.up, h.asks, h.requests,
    h.down.send Link.reads_netTcp hm (hgood m hm) hdown, h.notifications, h.codes, h.answers,
    h.client⟩

theorem Connected.downLink (h : Connected fb root u s) {l : LinkAction} {down : Link PacketId}
    (hdown : s.down.next Session.readOnClient l = some down) (hsend : l.isSend = false)
    (hgood : s.down.Orderly (bindPackets Client.bound) l) :
    Connected fb root u { s with down } :=
  ⟨h.total, h.up, h.asks, h.requests, h.down.step Link.reads_netTcp hdown hsend hgood,
    h.notifications, h.codes, h.answers, h.client⟩

theorem Connected.downStep (h : Connected fb root u s) {l : LinkAction}
    (hstep : next g fb root u s (.down l) = some s') (hgood : s.Orderly fb root u (.down l)) :
    Connected fb root u s' := by
  obtain ⟨hio, hstep⟩ := Option.ite_none_right_eq_some.1 hstep
  obtain ⟨down, hdown, rfl⟩ := Option.map_eq_some_iff.1 hstep
  exact h.downLink hdown (LinkAction.isSend_of_isIo hio) hgood

theorem Connected.readOnClient (h : Connected fb root u s)
    (hstep : next g fb root u s .readOnClient = some s') : Connected fb root u s' := by
  obtain ⟨-, hstep⟩ := Option.ite_none_right_eq_some.1 hstep
  obtain ⟨down, hdown, rfl⟩ := Option.map_eq_some_iff.1 hstep
  exact h.downLink hdown rfl trivial

theorem Connected.heard_next (h : Connected fb root u s) (uninit : Memory)
    {call : PacketId × List UInt8} (hcall : s.down.calls[s.heard.length]? = some call) :
    ∃ m, Conveyed fb root Client.bound s.down (s.log u) (s.heard ++ [m]) ∧
      next g fb root u s (.hear uninit) =
        some { s with client := s.client.recv m, heard := s.heard ++ [m] } := by
  obtain ⟨m, hm, rfl, hdown⟩ := h.down.message hcall
  have hsent : (u, m) ∈ s.region.sent := mem_packetsTo.1 (List.mem_of_getElem? hm)
  obtain ⟨hnfy, hfits⟩ := h.notifications _ hsent
  refine ⟨m, hdown, ?_⟩
  simp only [next, hcall, Option.bind_some, Client.handle_call fb root uninit hnfy hfits,
    Option.map_some]

theorem Connected.hear (h : Connected fb root u s) {uninit : Memory}
    (hstep : next g fb root u s (.hear uninit) = some s') : Connected fb root u s' := by
  obtain ⟨call, hcall, -⟩ := Option.bind_eq_some_iff.1 hstep
  obtain ⟨m, hdown, hnext⟩ := h.heard_next (g := g) uninit hcall
  obtain rfl := Option.some.inj (hnext.symm.trans hstep)
  refine ⟨h.total, h.up, h.asks, h.requests, hdown, h.notifications, h.codes, h.answers, ?_⟩
  rw [List.foldl_append, ← h.client]
  rfl

/-- **A step in which all goes well.** -/
theorem Connected.step (h : Connected fb root u s) {a : SessionStep F U}
    (hstep : (system g fb root u).step s a s') (hgood : s.Orderly fb root u a) :
    Connected fb root u s' := by
  cases a with
  | region a => exact h.region hstep
  | other v user env id m => exact h.other hstep
  | ask m => exact h.ask hstep hgood
  | up l => exact h.upStep hstep hgood
  | readOnServer p => exact h.readOnServer hstep
  | serve user env => exact h.serve hstep
  | send => exact h.send hstep hgood
  | down l => exact h.downStep hstep hgood
  | readOnClient => exact h.readOnClient hstep
  | hear uninit => exact h.hear hstep

/-! ### Every request gets its answer -/

variable (u) in
/-- The requests are served once and in order, the `MoveReq`s among them are answered with one
`MoveAck` each, and the client hears these in the order of its requests. -/
structure Answered (s : Session F U) : Prop where
  inOrder : s.served.map Prod.fst <+: s.asked
  one : ∀ p ∈ s.served, p.2.isSome = p.1.moveReq.isSome
  acks : s.heard.filterMap Message.moveAck <+: s.served.filterMap Prod.snd
  all : s.Settled u → s.served.map Prod.fst = s.asked ∧
    s.heard.filterMap Message.moveAck = s.served.filterMap Prod.snd

/-- When nothing is under way everything was served, and everything heard. -/
theorem Connected.settled (h : Connected fb root u s) (hs : s.Settled u) :
    s.served.map Prod.fst = s.asked ∧ s.heard = s.log u :=
  ⟨h.up.got_eq h.asks hs.up (by rw [List.length_map, hs.served]),
    h.down.got_eq hs.sent hs.down hs.heard⟩

theorem Connected.answered (h : Connected fb root u s) : s.Answered u := by
  refine ⟨h.up.got, h.codes, h.answers ▸ h.down.got.filterMap _, fun hsettled => ?_⟩
  obtain ⟨hserved, hheard⟩ := h.settled hsettled
  exact ⟨hserved, by rw [hheard, h.answers]⟩

/-! ### The client sees what its player sees -/

variable (u) in
/-- The client's region is what the packets it has heard make of it, which are the first ones that
were sent, and all of them when nothing is under way; then it has one entity for each neighbour of the
player, and one for the player. -/
structure Seen (s : Session F U) : Prop where
  heard : s.heard <+: s.log u
  client : s.client = s.heard.foldl ClientRegion.recv .init
  all : s.Settled u → s.heard = s.log u
  mirrors : s.heard = s.log u → ∀ p, s.region.user p = some u →
    Mirrors s.client p (s.region.view p)

theorem mirrored_step (hm : s.region.Mirrored) {a : SessionStep F U}
    (hstep : (system g fb root u).step s a s') (hann : s.Announces a) : s'.region.Mirrored := by
  cases a with
  | region a =>
    obtain ⟨r, hr, rfl⟩ := Option.map_eq_some_iff.1 hstep
    exact hm.nextPath hr hann
  | other v user env id m =>
    obtain ⟨-, hstep⟩ := Option.ite_none_left_eq_some.1 hstep
    obtain ⟨req, -, rfl⟩ := Option.map_eq_some_iff.1 hstep
    exact hm.recv v user req
  | serve user env =>
    obtain ⟨p, -, rfl⟩ := Option.map_eq_some_iff.1 hstep
    exact hm.recv u user p.2
  | ask m =>
    obtain ⟨-, hstep⟩ := Option.ite_none_right_eq_some.1 hstep
    obtain ⟨up, -, rfl⟩ := Option.map_eq_some_iff.1 hstep
    exact hm
  | up l | readOnServer p | down l | readOnClient =>
    obtain ⟨-, hstep⟩ := Option.ite_none_right_eq_some.1 hstep
    obtain ⟨link, -, rfl⟩ := Option.map_eq_some_iff.1 hstep
    exact hm
  | send =>
    obtain ⟨m, -, hstep⟩ := Option.bind_eq_some_iff.1 hstep
    obtain ⟨down, -, rfl⟩ := Option.map_eq_some_iff.1 hstep
    exact hm
  | hear uninit =>
    obtain ⟨call, -, hstep⟩ := Option.bind_eq_some_iff.1 hstep
    obtain ⟨m, -, rfl⟩ := Option.map_eq_some_iff.1 hstep
    exact hm

theorem Connected.seen (h : Connected fb root u s) (hm : s.region.Mirrored) : s.Seen u := by
  refine ⟨h.down.got, h.client, fun hsettled => (h.settled hsettled).2, fun hall p hp => ?_⟩
  have hmirrors := hm.mirrors p u hp
  rwa [Region.client, ← log, ← hall, ← h.client] at hmirrors

/-! ### Progress -/

/-- How many steps it takes at most until all requests are served. -/
def leftToServe (s : Session F U) : ℕ := stepsLeft s.up s.asked (s.served.map Prod.fst)

variable (u) in
/-- How many steps it takes at most until all packets are heard. -/
def leftToTell (s : Session F U) : ℕ := stepsLeft s.down (s.log u) s.heard

/-- Until all requests are served, a step brings one nearer to its handler, if the user is in the
region; and it stays there. -/
theorem Connected.serves_more (h : Connected fb root u s) (user : User) (env : Surroundings F)
    {p : Entity} (hp : s.region.user p = some u) (hne : s.served.map Prod.fst ≠ s.asked) :
    ∃ a s', (system g fb root u).step s a s' ∧ (a.Serves user env ∧ s.Orderly fb root u a) ∧
      (s'.asked = s.asked ∧ ∀ x, s'.region.user x = s.region.user x) ∧
      s'.leftToServe < s.leftToServe := by
  rcases h.up.progress Link.reads_user hne with ⟨call, hcall⟩ | ⟨hcalls, hmore⟩
  · rw [List.length_map] at hcall
    obtain ⟨m, req, hserved, -, hstep⟩ := h.served_next (g := g) user env hcall
    obtain ⟨l, hl, -⟩ := Region.exists_aside_recv s.region u user req
    refine ⟨.serve user env, _, hstep, ⟨⟨rfl, rfl⟩, trivial⟩,
      ⟨rfl, fun x => (Region.quiet_visible hl.comps x).2.1⟩, ?_⟩
    simpa [leftToServe] using Conveyed.stepsLeft_got hserved.got
  rcases hmore with ⟨m, hm⟩ | ⟨l, up, hup, hsend, hl, hless⟩
  · -- all requests were sent when they were asked
    obtain ⟨hlt, -⟩ := List.getElem?_eq_some_iff.1 hm
    exact absurd h.asks hlt.ne
  rw [List.length_map] at hcalls
  have hup : s.up.next Session.readOnServer l = some up := hup
  have hleft : stepsLeft up s.asked (s.served.map Prod.fst) < s.leftToServe :=
    Conveyed.stepsLeft_step hup hsend hless
  cases hio : l.isIo with
  | true =>
    have hstep : next g fb root u s (.up l) = some { s with up } := by
      simp only [next, hio, if_true, hup, Option.map_some]
    exact ⟨.up l, _, hstep, ⟨trivial, hl⟩, ⟨rfl, fun _ => rfl⟩, hleft⟩
  | false =>
    obtain rfl := LinkAction.eq_readPackets hsend hio
    have hstep : next g fb root u s (.readOnServer p) = some { s with up } := by
      simp only [next, hp, hcalls, and_self, if_true, hup, Option.map_some]
    exact ⟨.readOnServer p, _, hstep, ⟨trivial, trivial⟩, ⟨rfl, fun _ => rfl⟩, hleft⟩

/-- Until all packets are heard, a step brings one nearer to its handler. -/
theorem Connected.tells_more (h : Connected fb root u s)
    (hfit : ∀ m ∈ s.log u, (m.body fb root).length ≤ 65531) (hne : s.heard ≠ s.log u) :
    ∃ a s', (system g fb root u).step s a s' ∧ (a.Tells ∧ s.Orderly fb root u a) ∧
      s'.region = s.region ∧ s'.leftToTell u < s.leftToTell u := by
  rcases h.down.progress Link.reads_netTcp hne with ⟨call, hcall⟩ | ⟨hcalls, hmore⟩
  · obtain ⟨m, hheard, hstep⟩ := h.heard_next (g := g) (fun _ => 0) hcall
    exact ⟨.hear _, _, hstep, ⟨trivial, trivial⟩, rfl, Conveyed.stepsLeft_got hheard.got⟩
  rcases hmore with ⟨m, hm⟩ | ⟨l, down, hdown, hsend, hl, hless⟩
  · obtain ⟨down, hdown⟩ : ∃ down,
        s.down.next Session.readOnClient (.send m.id.toUInt16 (m.body fb root)) = some down :=
      ⟨_, rfl⟩
    have hstep : next g fb root u s .send = some { s with down } := by
      simp only [next, hm, Option.bind_some]
      exact Option.map_eq_some_iff.2 ⟨down, hdown, rfl⟩
    exact ⟨.send, _, hstep, ⟨trivial, fun m hm => hfit m (List.mem_of_getElem? hm)⟩, rfl,
      Conveyed.stepsLeft_send hm hdown⟩
  have hdown : s.down.next Session.readOnClient l = some down := hdown
  have hleft : stepsLeft down (s.log u) s.heard < s.leftToTell u :=
    Conveyed.stepsLeft_step hdown hsend hless
  cases hio : l.isIo with
  | true =>
    have hstep : next g fb root u s (.down l) = some { s with down } := by
      simp only [next, hio, if_true, hdown, Option.map_some]
    exact ⟨.down l, _, hstep, ⟨trivial, hl⟩, rfl, hleft⟩
  | false =>
    obtain rfl := LinkAction.eq_readPackets hsend hio
    have hstep : next g fb root u s .readOnClient = some { s with down } := by
      simp only [next, hcalls, if_true, hdown, Option.map_some]
    exact ⟨.readOnClient, _, hstep, ⟨trivial, trivial⟩, rfl, hleft⟩

end Steps

end Session

end ClientServer
