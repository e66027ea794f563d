import ClientServer.Net.RecvBuffer
import ClientServer.Schema.Handlers

/-!
# Messages in packets

A message is packed as a table, the table is finished as the bytes of a buffer, and these are the
body of a packet with the id of the message.  The handler that is bound to the id gets the root of
the buffer.

* `Message.packet` : what `Send(id, size, buf)` is called with.
* `Server.bound`, `Client.bound` : the `BINDPACKET` lines.
* `Server.handle_call`, `Client.handle_call` : the handler of the other side gets the message.
-/

namespace ClientServer

/-- The values of the enumerators. -/
def PacketId.toUInt16 : PacketId → UInt16
  | ChatReq => 0
  | ChatAck => 1
  | ChatNfy => 2
  | EnterNeighborsNfy => 3
  | LeaveNeighborsNfy => 4
  | UpdateNeighborsNfy => 5
  | MoveReq => 6
  | MoveAck => 7
  | MoveNfy => 8
  | DashReq => 9
  | DashAck => 10
  | DashNfy => 11
  | EnterWorldReq => 12
  | EnterWorldAck => 13
  | Debug3DPosition => 14
  | DebugColliderReq => 15
  | DebugColliderNfy => 16

theorem PacketId.toUInt16_inj {id id' : PacketId} (h : id.toUInt16 = id'.toUInt16) : id = id' := by
  cases id <;> cases id' <;> first | rfl | exact absurd h (by decide)

/-! ### The `BINDPACKET` lines -/

/-- `BINDPACKET` for each of these ids: the handler of an id has its name. -/
def bindPackets (ids : List PacketId) : List (UInt16 × PacketId) :=
  ids.map fun id => (id.toUInt16, id)

/-- The lines of `Server::Initialize`. -/
def Server.bound : List PacketId := [.EnterWorldReq, .MoveReq, .DashReq, .DebugColliderReq]

/-- The lines of `App::Initialize`. -/
def Client.bound : List PacketId :=
  [.ChatNfy, .UpdateNeighborsNfy, .EnterNeighborsNfy, .LeaveNeighborsNfy, .DebugColliderNfy,
    .MoveAck, .MoveNfy, .DashAck, .DashNfy, .EnterWorldAck, .Debug3DPosition]

section Binds

variable {ids : List PacketId} {id : PacketId}

theorem mem_bindPackets : id.toUInt16 ∈ (bindPackets ids).map Prod.fst ↔ id ∈ ids := by
  simp only [bindPackets, List.map_map, List.mem_map, Function.comp_apply]
  exact ⟨fun ⟨_, hmem, h⟩ => PacketId.toUInt16_inj h ▸ hmem, fun h => ⟨id, h, rfl⟩⟩

theorem handlerOf_bindPackets (h : id ∈ ids) :
    HandOff.handlerOf (bindPackets ids) id.toUInt16 = some id := by
  have hsome : ((bindPackets ids).find? fun b => b.1 = id.toUInt16).isSome = true := by
    rw [List.find?_isSome]
    exact ⟨(id.toUInt16, id), List.mem_map.2 ⟨id, h, rfl⟩, by simp⟩
  obtain ⟨b, hb⟩ := Option.isSome_iff_exists.1 hsome
  obtain ⟨id', -, rfl⟩ := List.mem_map.1 (List.mem_of_find?_eq_some hb)
  have hid : id' = id := PacketId.toUInt16_inj (by simpa using List.find?_some hb)
  rw [HandOff.handlerOf, hb, Option.map_some, hid]

end Binds

namespace Message

variable {F : Type*}

/-- The messages of the client; the others are those of the server. -/
def isRequest : Message F → Bool
  | MoveReq _ | DashReq _ | DebugColliderReq _ _ => true
  | _ => false

variable [Zero F] [DecidableEq F] (fb : FlatBuffers F) (root : Codec (List UInt8) (Table fb.Raw))

/-- The body of a message: `root` finishes a table as the bytes of a buffer. -/
def body (m : Message F) : List UInt8 := root.put (m.pack fb)

/-- What `Send(id, size, buf)` is called with. -/
def packet (m : Message F) : UInt16 × List UInt8 := (m.id.toUInt16, m.body fb root)

/-- The call of the handler of a message. -/
def call (m : Message F) : Option PacketId × List UInt8 := (some m.id, m.body fb root)

end Message

section Calls

variable {F : Type*} [Zero F] [DecidableEq F] (fb : FlatBuffers F)
  (root : Codec (List UInt8) (Table fb.Raw)) {m : Message F}

omit [Zero F] [DecidableEq F] in
theorem Server.mem_bound (h : m.isRequest = true) : m.id ∈ Server.bound := by
  cases m <;> simp_all [Message.isRequest, Message.id, Server.bound]

omit [Zero F] [DecidableEq F] in
theorem Client.mem_bound (h : m.isRequest = false) : m.id ∈ Client.bound := by
  cases m <;> simp_all [Message.isRequest, Message.id, Client.bound]

/-- The server's handler of a request, but for a `DashReq`, gets the message. -/
theorem Server.handle_call (h : m.isRequest = true) (hdash : m.id ≠ .DashReq) :
    Server.handle fb (root.get (m.body fb root)) m.id = some m := by
  have hfits : m.Fits := by cases m <;> trivial
  rw [Message.body, root.get_put, ← handled_of_ne fb (fun _ => 0) hdash hfits]
  cases m <;> first | rfl | cases h

theorem Client.handle_call (uninit : Memory) (h : m.isRequest = false) (hfits : m.Fits) :
    Client.handle fb uninit (root.get (m.body fb root)) m.id = some m := by
  have hdash : m.id ≠ .DashReq := by cases m <;> simp_all [Message.isRequest, Message.id]
  rw [Message.body, root.get_put, ← handled_of_ne fb uninit hdash hfits]
  cases m <;> first | rfl | exact absurd h (by simp [Message.isRequest])

end Calls

end ClientServer
