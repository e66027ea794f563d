import ClientServer.Schema.Packets
import ClientServer.Server.Greeting

/-!
# What is sent beside the neighbours

The handlers of the requests, and `UpdatePath`, change neither the neighbours nor the user of anybody,
and what they send is not about neighbours.

* `Region.Aside` : that a function is of this kind, with what it sends.
* `Region.aside_recvReq` : a request to move gets one answer.
* `Region.exists_aside_recv` : a request gets a `MoveAck` if it is a `MoveReq`, and only then.
-/

namespace ClientServer

variable {F U : Type*}

namespace Message

/-- The destination of a `MoveReq`. -/
def moveReq : Message F → Option (fbVec F)
  | MoveReq dest => some dest
  | _ => none

/-- The error code of a `MoveAck`. -/
def moveAck : Message F → Option UInt16
  | MoveAck error_code => some error_code
  | _ => none

theorem isRequest_of_isVisibility {m : Message F} (h : m.isVisibility = true) :
    m.isRequest = false := by
  cases m <;> simp_all [isVisibility, isRequest]

theorem moveAck_of_isVisibility {m : Message F} (h : m.isVisibility = true) : m.moveAck = none := by
  cases m <;> simp_all [isVisibility, moveAck]

end Message

/-- The data that are made for a collider go with its type. -/
def Request.Fits : Request F → Prop
  | .DebugColliderReq serialize _ _ _ => ∀ v type dir,
    (serialize v type dir).2.2.length = ColliderType.dataSize (serialize v type dir).1
  | _ => True

namespace Region

open Components

/-- From `r` to `r'` nobody's neighbours or user change, and `l` is sent, of which nothing is about
neighbours. -/
structure Aside (r r' : Region F U) (l : List (U × Message F)) : Prop where
  comps : ∀ x, (r'.comps x).map (fun d => (d.neighbor, d.user)) =
    (r.comps x).map fun d => (d.neighbor, d.user)
  sent : r'.sent = r.sent ++ l
  other : ∀ q ∈ l, q.2.isVisibility = false ∧ q.2.isRequest = false

variable {r r' r'' : Region F U} {l l' : List (U × Message F)} {e : Entity} {u : U} {m : Message F}
  {user : User}

theorem Aside.refl (r : Region F U) : Aside r r [] := ⟨fun _ => rfl, by simp, by simp⟩

theorem Aside.trans (h : Aside r r' l) (h' : Aside r' r'' l') : Aside r r'' (l ++ l') where
  comps x := (h'.comps x).trans (h.comps x)
  sent := by rw [h'.sent, h.sent, List.append_assoc]
  other := List.forall_mem_append.2 ⟨h.other, h'.other⟩

theorem aside_set {d d' : Components F U} (hd : r.comps e = some d)
    (h : (d'.neighbor, d'.user) = (d.neighbor, d.user)) : Aside r (r.set e (some d')) [] where
  comps x := by
    rw [comps_set]
    split_ifs with hx
    · rw [hx, hd, Option.map_some, Option.map_some, h]
    · rfl
  sent := by simp
  other := by simp

theorem aside_sendTo (hm : m.isVisibility = false ∧ m.isRequest = false) (u : U) :
    Aside r (r.sendTo u m) [(u, m)] :=
  ⟨fun _ => rfl, rfl, by simpa using hm⟩

theorem aside_tell (hm : m.isVisibility = false ∧ m.isRequest = false) {l : List Entity}
    (hl : l.Nodup) :
    Aside r (r.tell id m l) (l.filterMap fun x => (r.user x).map fun v => (v, m)) where
  comps x := by
    rw [comps_tell _ hl]
    split_ifs <;> simp
  sent := sent_tell r (fun _ => rfl) l
  other q hq := by
    obtain ⟨x, -, hx⟩ := List.mem_filterMap.1 hq
    obtain ⟨v, -, rfl⟩ := Option.map_eq_some_iff.1 hx
    exact hm

/-! ### The handlers -/

/-- The error code with which `Recv_MoveReq` and `Recv_DashReq` answer, if `ok` says whether the
entity of the user moves. -/
def errorCode (ok : Entity → Bool) (user : User) : ErrorCode :=
  if user.world then
    if user.eid.any ok then .None else .InValidPos
  else .InValidSession

theorem aside_recvReq {move : Entity → Region F U × Bool} {ack : UInt16 → Message F}
    (hmove : ∀ eid, Aside r (move eid).1 [])
    (hack : ∀ n, (ack n).isVisibility = false ∧ (ack n).isRequest = false) :
    Aside r (r.recvReq move ack u user)
      [(u, ack (errorCode (fun eid => (move eid).2) user).toUInt16)] := by
  obtain ⟨eid, world⟩ := user
  cases world with
  | false => exact aside_sendTo (hack _) u
  | true =>
    cases eid with
    | none => exact aside_sendTo (hack _) u
    | some eid => exact (hmove eid).trans (aside_sendTo (hack _) u)

variable [Field F] [LinearOrder F] {nav : Navigation F} {dest : fbVec F} {z : F}

theorem aside_headTo (speed : Transform F → F) : Aside r (r.headTo nav dest e z speed).1 [] := by
  unfold headTo
  cases hc : r.comps e with
  | none => exact .refl r
  | some c =>
    dsimp only
    split
    · exact .refl r
    · exact aside_set hc rfl

theorem aside_pathTo : Aside r (r.pathTo nav dest e).1 [] := by
  unfold pathTo
  cases hc : r.comps e with
  | none => exact .refl r
  | some c => exact aside_set hc rfl

omit [Field F] [LinearOrder F] in
theorem exists_aside_createDebugColliderObject
    (serialize : fbVec F → UInt8 → Int16 → UInt8 × fbVec F × List UInt8) (dir : Int16)
    (type : UInt8) (list : SortedSet Entity) :
    ∃ l, Aside r (r.createDebugColliderObject e serialize dir type list) l ∧
      ∀ q ∈ l, q.2.moveAck = none ∧
        ((Request.DebugColliderReq serialize dir type list).Fits → q.2.Fits) := by
  unfold createDebugColliderObject
  split
  · exact ⟨[], .refl r, by simp⟩
  · rename_i c _
    dsimp only
    rw [foldl_send_eq_tell]
    refine ⟨_, aside_tell ⟨rfl, rfl⟩ list.nodup, fun q hq => ?_⟩
    obtain ⟨x, -, hx⟩ := List.mem_filterMap.1 hq
    obtain ⟨v, -, rfl⟩ := Option.map_eq_some_iff.1 hx
    exact ⟨rfl, fun hfits => hfits c.transform.v type dir⟩

/-- The error code of the answer to a `MoveReq`. -/
def moveCode (r : Region F U) (user : User) : Request F → Option UInt16
  | .MoveReq nav dest => some (errorCode (fun eid => (r.pathTo nav dest eid).2) user).toUInt16
  | _ => none

omit [Field F] [LinearOrder F] in
theorem moveAcks_eq_nil [DecidableEq U] (h : ∀ q ∈ l, q.2.moveAck = none) :
    (packetsTo u l).filterMap Message.moveAck = [] :=
  List.filterMap_eq_nil_iff.2 fun _ hm => h _ (mem_packetsTo.1 hm)

/-- **A `MoveReq` gets one `MoveAck`**, the one who made it gets it, and another request gets none. -/
theorem exists_aside_recv [DecidableEq U] (r : Region F U) (u : U) (user : User)
    (req : Request F) : ∃ l, Aside r (r.recv u user req) l ∧
      (∀ v, (packetsTo v l).filterMap Message.moveAck =
        if u = v then (r.moveCode user req).toList else []) ∧
      (req.Fits → ∀ q ∈ l, q.2.Fits) := by
  cases req with
  | EnterWorldReq => exact ⟨[], .refl r, fun v => by simp [packetsTo, moveCode], by simp⟩
  | MoveReq nav dest =>
    refine ⟨_, aside_recvReq (fun _ => aside_pathTo) fun _ => ⟨rfl, rfl⟩, fun v => ?_,
      fun _ => by simp [Message.Fits]⟩
    by_cases huv : u = v <;> simp [packetsTo, Message.moveAck, moveCode, huv]
  | DashReq nav dest z =>
    refine ⟨_, aside_recvReq (fun _ => aside_headTo _) fun _ => ⟨rfl, rfl⟩, fun v => ?_,
      fun _ => by simp [Message.Fits]⟩
    by_cases huv : u = v <;> simp [packetsTo, Message.moveAck, moveCode, huv]
  | DebugColliderReq serialize dir type list =>
    simp only [Region.recv, recvDebugColliderReq]
    split
    · obtain ⟨l, hl, hsent⟩ := exists_aside_createDebugColliderObject serialize dir type list
      exact ⟨l, hl, fun v => by simp [moveAcks_eq_nil fun q hq => (hsent q hq).1, moveCode],
        fun hfits q hq => (hsent q hq).2 hfits⟩
    · exact ⟨[], .refl r, fun v => by simp [packetsTo, moveCode], by simp⟩

theorem exists_aside_updatePath (r : Region F U) (g : Geometry F) (e : Entity)
    (contacts : SortedSet Entity) :
    ∃ l, Aside r (r.updatePath g e contacts).1 l ∧ ∀ q ∈ l, q.2.moveAck = none ∧ q.2.Fits := by
  obtain ⟨l, hsent, hmove, -⟩ := exists_sent_updatePath r g e contacts
  refine ⟨l, ⟨quiet_updatePath r g e contacts, hsent, fun q hq => ?_⟩, fun q hq => ?_⟩ <;>
    obtain ⟨dest, spd, hq⟩ := hmove q hq <;> rw [hq]
  · exact ⟨rfl, rfl⟩
  · exact ⟨rfl, trivial⟩

end Region

end ClientServer
