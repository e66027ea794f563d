import ClientServer.Schema.Collider
import Mathlib.Algebra.Ring.Int.Defs

/-!
# Senders and handlers

A `Message` is what one side stores in a table before it packs it, with the packet id it sends
it under.  The `Recv_` functions of the other side unpack the table and act on what they find:
here they return it, as the `Message` of the table they read, or `none` where they follow a
null pointer or read behind the end of a vector.

* `handled_iff` : **exactly which messages reach their handler**: all but `DashReq`, which
  `Recv_DashReq` reads as a `MoveReq`, and colliders with other data than go with their type.
-/

namespace ClientServer

open Schema

variable {F : Type*}

/-- What the senders store, by packet. -/
inductive Message (F : Type*)
  /-- `MoveSystem::Send_MoveReq` of the client. -/
  | MoveReq (dest : fbVec F)
  /-- `MoveSystem::Send_DashReq` of the client. -/
  | DashReq (dir : Int16)
  /-- `DebugSystem::SendDebugCollision` of the client. -/
  | DebugColliderReq (type : UInt8) (dir : Int16)
  /-- The answer of `Recv_MoveReq`. -/
  | MoveAck (error_code : UInt16)
  /-- The answer of `Recv_DashReq`. -/
  | DashAck (error_code : UInt16)
  /-- `MoveSystem::UpdatePath` of the server. -/
  | MoveNfy (dest : fbVec F) (spd : F) (eid : UInt32)
  /-- `UserSystem::Send_EnterNeighborsAck`. -/
  | EnterWorldAck (entity : EntityInfo F UInt32)
  /-- `WorldSystem::Entered`. -/
  | EnterNeighborsNfy (enter_entity : EntityInfo F UInt32)
  /-- `WorldSystem::Leaved` and `UpdateDestroyed`. -/
  | LeaveNeighborsNfy (leave_entity : UInt32)
  /-- `WorldSystem::UpdateNeighbors`. -/
  | UpdateNeighborsNfy (enter_entity : List (EntityInfo F UInt32)) (leave_entity : List UInt32)
  /-- `DebugSystem::CreateDebugColliderObject` of the server. -/
  | DebugColliderNfy (type : UInt8) (center : fbVec F) (data : List UInt8)
  deriving DecidableEq

namespace Message

/-- The packet id a message is sent under. -/
def id : Message F → PacketId
  | MoveReq _ => .MoveReq
  | DashReq _ => .DashReq
  | DebugColliderReq _ _ => .DebugColliderReq
  | MoveAck _ => .MoveAck
  | DashAck _ => .DashAck
  | MoveNfy _ _ _ => .MoveNfy
  | EnterWorldAck _ => .EnterWorldAck
  | EnterNeighborsNfy _ => .EnterNeighborsNfy
  | LeaveNeighborsNfy _ => .LeaveNeighborsNfy
  | UpdateNeighborsNfy _ _ => .UpdateNeighborsNfy
  | DebugColliderNfy _ _ _ => .DebugColliderNfy

/-- The data of a collider are as many bytes as go with its type. -/
def Fits : Message F → Prop
  | DebugColliderNfy type _ data => data.length = ColliderType.dataSize type
  | _ => True

instance : DecidablePred (Fits : Message F → Prop)
  | DebugColliderNfy type _ data =>
    inferInstanceAs (Decidable (data.length = ColliderType.dataSize type))
  | MoveReq _ | DashReq _ | DebugColliderReq _ _ | MoveAck _ | DashAck _ | MoveNfy _ _ _
  | EnterWorldAck _ | EnterNeighborsNfy _ | LeaveNeighborsNfy _ | UpdateNeighborsNfy _ _ =>
    .isTrue trivial

variable [Zero F] [DecidableEq F] (fb : FlatBuffers F)

/-- The table a message is packed as. -/
def pack : Message F → Table fb.Raw
  | MoveReq dest => Schema.MoveReq.Pack fb (some dest)
  | DashReq dir => Schema.DashReq.Pack fb dir
  | DebugColliderReq type dir => Schema.DebugColliderReq.Pack fb ⟨type, dir⟩
  | MoveAck error_code => Schema.MoveAck.Pack fb error_code
  | DashAck error_code => Schema.DashAck.Pack fb error_code
  | MoveNfy dest spd eid => Schema.MoveNfy.Pack fb ⟨some dest, spd, eid⟩
  | EnterWorldAck entity => Schema.EnterWorldAck.Pack fb (some entity)
  | EnterNeighborsNfy enter_entity => Schema.EnterNeighborsNfy.Pack fb (some enter_entity)
  | LeaveNeighborsNfy leave_entity => Schema.LeaveNeighborsNfy.Pack fb leave_entity
  | UpdateNeighborsNfy enter_entity leave_entity =>
    Schema.UpdateNeighborsNfy.Pack fb ⟨enter_entity, leave_entity⟩
  | DebugColliderNfy type center data =>
    Schema.DebugColliderNfy.Pack fb (some ⟨type, some center, data⟩)

end Message

/-! ### The handlers of the server -/

namespace Server

variable (fb : FlatBuffers F) (data : Table fb.Raw)

/-- `Recv_MoveReq`. -/
def Recv_MoveReq : Option (Message F) := (MoveReq.UnPack fb data).map .MoveReq

/-- `Recv_DashReq`: it takes the root for a `MoveReq`, and dashes to its `dest`. -/
def Recv_DashReq : Option (Message F) := (MoveReq.UnPack fb data).map .MoveReq

/-- `Recv_DebugColliderReq`. -/
def Recv_DebugColliderReq : Option (Message F) :=
  let req := DebugColliderReq.read fb data
  some (.DebugColliderReq req.type req.dir)

/-- The `BINDPACKET` lines of `Server::Initialize`, for the packets the client sends. -/
def handle : PacketId → Option (Message F)
  | .MoveReq => Recv_MoveReq fb data
  | .DashReq => Recv_DashReq fb data
  | .DebugColliderReq => Recv_DebugColliderReq fb data
  | _ => none

end Server

/-! ### The handlers of the client -/

namespace Client

variable [Zero F] [DecidableEq F] (fb : FlatBuffers F) (uninit : Memory) (data : Table fb.Raw)

/-- `Recv_MoveAck`. -/
def Recv_MoveAck : Option (Message F) := some (.MoveAck (MoveAck.UnPack fb data))

/-- `Recv_DashAck`. -/
def Recv_DashAck : Option (Message F) := some (.DashAck (DashAck.UnPack fb data))

/-- `Recv_MoveNfy`. -/
def Recv_MoveNfy : Option (Message F) :=
  let t := MoveNfy.UnPack fb data
  t.dest.map fun dest => .MoveNfy dest t.spd t.eid

/-- `Recv_EnterWorldAck`. -/
def Recv_EnterWorldAck : Option (Message F) := (EnterWorldAck.UnPack fb data).map .EnterWorldAck

/-- `Recv_EnterNeighborsNfy`. -/
def Recv_EnterNeighborsNfy : Option (Message F) :=
  (EnterNeighborsNfy.UnPack fb data).map .EnterNeighborsNfy

/-- `Recv_LeaveNeighborsNfy`. -/
def Recv_LeaveNeighborsNfy : Option (Message F) :=
  some (.LeaveNeighborsNfy (LeaveNeighborsNfy.UnPack fb data))

/-- `Recv_UpdateNeighborsNfy`. -/
def Recv_UpdateNeighborsNfy : Option (Message F) :=
  let t := UpdateNeighborsNfy.UnPack fb data
  some (.UpdateNeighborsNfy t.enter_entity t.leave_entity)

/-- `Recv_DebugColliderNfy`: it copies the data into the `Collider` it declares, with `uninit` in its
union.  What the collider has by then is read off as the server packs it. -/
def Recv_DebugColliderNfy : Option (Message F) :=
  (DebugColliderNfy.UnPack fb data).bind fun collider =>
    collider.center.bind fun center =>
      ((DebugSystem.recvDebugColliderNfy uninit ⟨collider.type, center, collider.data⟩).map
        DebugSystem.pack).map fun info => .DebugColliderNfy info.type info.center info.data

/-- The `BINDPACKET` lines of `App::Initialize`, for the packets the server sends. -/
def handle : PacketId → Option (Message F)
  | .MoveAck => Recv_MoveAck fb data
  | .DashAck => Recv_DashAck fb data
  | .MoveNfy => Recv_MoveNfy fb data
  | .EnterWorldAck => Recv_EnterWorldAck fb data
  | .EnterNeighborsNfy => Recv_EnterNeighborsNfy fb data
  | .LeaveNeighborsNfy => Recv_LeaveNeighborsNfy fb data
  | .UpdateNeighborsNfy => Recv_UpdateNeighborsNfy fb data
  | .DebugColliderNfy => Recv_DebugColliderNfy fb uninit data
  | _ => none

end Client

/-! ### Round trips -/

section RoundTrip

variable [Zero F] [DecidableEq F] (fb : FlatBuffers F) (uninit : Memory)

/-- What the side that gets a message makes of it. -/
def handled : Message F → Option (Message F)
  | m@(.MoveReq _) | m@(.DashReq _) | m@(.DebugColliderReq _ _) =>
    Server.handle fb (m.pack fb) m.id
  | m => Client.handle fb uninit (m.pack fb) m.id

/-- `Recv_DebugColliderNfy` gets what was sent iff the data go with the type. -/
theorem handled_debugColliderNfy_iff (type : UInt8) (center : fbVec F) (data : List UInt8) :
    handled fb uninit (.DebugColliderNfy type center data) =
      some (.DebugColliderNfy type center data) ↔ data.length = ColliderType.dataSize type := by
  have hread := DebugColliderNfy.UnPack_Pack fb (some ⟨type, some center, data⟩)
  simp only [handled, Message.id, Message.pack, Client.handle, Client.Recv_DebugColliderNfy, hread,
    Option.bind_some]
  rw [← DebugSystem.map_pack_recv_iff uninit ⟨type, center, data⟩, Option.map_eq_some_iff]
  constructor
  · rintro ⟨⟨type', center', data'⟩, hinfo, hmsg⟩
    obtain ⟨rfl, rfl, rfl⟩ := Message.DebugColliderNfy.inj hmsg
    exact hinfo
  · exact fun hinfo => ⟨_, hinfo, rfl⟩

theorem handled_of_ne {m : Message F} (hm : m.id ≠ .DashReq) (hfits : m.Fits) :
    handled fb uninit m = some m := by
  cases m with
  | MoveReq dest =>
    exact congrArg (Option.map Message.MoveReq) (unpackPointer_packPointer fb.vec (some dest))
  | DashReq dir => exact absurd rfl hm
  | DebugColliderReq type dir =>
    have hread := DebugColliderReq.read_Pack fb ⟨type, dir⟩
    simp only [handled, Message.id, Message.pack, Server.handle, Server.Recv_DebugColliderReq,
      hread]
  | MoveAck error_code =>
    exact congrArg (fun e => some (Message.MoveAck e))
      (unpackScalar_packScalar fb.ushort error_code 0)
  | DashAck error_code =>
    exact congrArg (fun e => some (Message.DashAck e))
      (unpackScalar_packScalar fb.ushort error_code 0)
  | MoveNfy dest spd eid =>
    have hread := MoveNfy.UnPack_Pack fb ⟨some dest, spd, eid⟩
    simp only [handled, Message.id, Message.pack, Client.handle, Client.Recv_MoveNfy, hread,
      Option.map_some]
  | EnterWorldAck entity =>
    exact congrArg (Option.map Message.EnterWorldAck)
      (unpackPointer_packPointer fb.entityInfo (some entity))
  | EnterNeighborsNfy enter_entity =>
    exact congrArg (Option.map Message.EnterNeighborsNfy)
      (unpackPointer_packPointer fb.entityInfo (some enter_entity))
  | LeaveNeighborsNfy leave_entity =>
    exact congrArg (fun e => some (Message.LeaveNeighborsNfy e))
      (unpackScalar_packScalar fb.uint leave_entity 0)
  | UpdateNeighborsNfy enter_entity leave_entity =>
    have hread := UpdateNeighborsNfy.UnPack_Pack fb ⟨enter_entity, leave_entity⟩
    simp only [handled, Message.id, Message.pack, Client.handle, Client.Recv_UpdateNeighborsNfy,
      hread]
  | DebugColliderNfy type center data =>
    exact (handled_debugColliderNfy_iff fb uninit type center data).2 hfits

/-- `Recv_DashReq` never gets a `DashReq`: it reads another table. -/
theorem handled_dashReq_ne (dir : Int16) :
    handled fb uninit (.DashReq dir) ≠ some (.DashReq dir) := by
  change (MoveReq.UnPack fb _).map Message.MoveReq ≠ some (.DashReq dir)
  intro h
  obtain ⟨dest, -, hdest⟩ := Option.map_eq_some_iff.1 h
  cases hdest

/-- A `DashReq` in the direction that is left out as a default: the destination is null. -/
theorem handled_dashReq_zero : handled fb uninit (.DashReq 0) = none := by
  simp only [handled, Message.id, Message.pack, Server.handle, Server.Recv_DashReq,
    Schema.DashReq.Pack, packScalar, Table.addElement, if_true, Schema.MoveReq.UnPack,
    unpackPointer, Table.getPointer, Table.slot]
  rfl

/-- **When a handler recovers what the sender stored**, whatever is in the memory it declares: for
every message but a `DashReq`, and a collider with other data than go with its type. -/
theorem handled_iff (m : Message F) :
    handled fb uninit m = some m ↔ m.id ≠ .DashReq ∧ m.Fits := by
  refine ⟨fun h => ?_, fun h => handled_of_ne fb uninit h.1 h.2⟩
  cases m with
  | DashReq dir => exact absurd h (handled_dashReq_ne fb uninit dir)
  | DebugColliderNfy type center data =>
    exact ⟨PacketId.noConfusion, (handled_debugColliderNfy_iff fb uninit type center data).1 h⟩
  | _ => exact ⟨PacketId.noConfusion, trivial⟩

end RoundTrip

theorem handled_dashReq_not_recovered :
    ¬∀ (fb : FlatBuffers ℤ) (uninit : Memory) (m : Message ℤ), handled fb uninit m = some m := by
  intro h
  have hnone := handled_dashReq_zero (FlatBuffers.typed ℤ) fun _ => 0
  rw [h] at hnone
  cases hnone

end ClientServer
