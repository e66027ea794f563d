import ClientServer.Net.Receive
import Mathlib.Data.List.TakeWhile

/-!
# Dispatching the packets received

`PacketHandler` maps packet ids to handlers, and gives an empty function for an id that is not
bound.  To call an empty function throws `std::bad_function_call`.  `NetTcp::ReadPackets` of the
client catches it packet by packet, `User::ReadPackets` of the server does not: the exception
leaves the function, and `Region::Update` that called it.

* `PacketHandler.invoke_ofBinds` : the handler of an id is the first one bound to it.
* `readPackets_iff` : **exactly when both sides call the handlers of all packets that have
  one**: every packet has one.
-/

namespace ClientServer

variable {H : Type*}

/-! ### The handlers -/

/-- `PacketHandler`, with handlers `H`. -/
structure PacketHandler (H : Type*) where
  packet_handler : UInt16 → Option H

namespace PacketHandler

/-- No handler is bound. -/
def empty : PacketHandler H := ⟨fun _ => none⟩

/-- `Bind(id, callback)`: an id keeps the handler it has. -/
def bind (p : PacketHandler H) (id : UInt16) (callback : H) : PacketHandler H × Bool :=
  match p.packet_handler id with
  | some _ => (p, false)
  | none => (⟨Function.update p.packet_handler id (some callback)⟩, true)

/-- `Invoke(id)`: `none` is the empty function. -/
def invoke (p : PacketHandler H) (id : UInt16) : Option H := p.packet_handler id

/-- The `BINDPACKET` lines of a program. -/
def ofBinds (binds : List (UInt16 × H)) : PacketHandler H :=
  binds.foldl (fun p b => (p.bind b.1 b.2).1) empty

theorem invoke_bind (p : PacketHandler H) (id id' : UInt16) (callback : H) :
    (p.bind id callback).1.invoke id' =
      (p.invoke id').or (if id = id' then some callback else none) := by
  unfold bind invoke
  split
  · rename_i h hid
    split_ifs with heq
    · rw [← heq, hid, Option.some_or]
    · rw [Option.or_none]
  · rename_i hid
    dsimp only
    rw [Function.update_apply]
    split_ifs with heq heq' heq'
    · rw [heq, hid, Option.none_or]
    · exact absurd heq.symm heq'
    · exact absurd heq'.symm heq
    · rw [Option.or_none]

theorem invoke_ofBinds (binds : List (UInt16 × H)) (id : UInt16) :
    (ofBinds binds).invoke id = (binds.find? fun b => b.1 = id).map Prod.snd := by
  have hfold : ∀ p : PacketHandler H,
      (binds.foldl (fun p b => (p.bind b.1 b.2).1) p).invoke id =
        (p.invoke id).or ((binds.find? fun b => b.1 = id).map Prod.snd) := by
    induction binds with
    | nil => intro p; simp
    | cons b binds ih =>
      intro p
      rw [List.foldl_cons, ih, invoke_bind, Option.or_assoc]
      congr 1
      by_cases hb : b.1 = id
      · simp [hb]
      · simp [hb]
  rw [ofBinds, hfold]
  rfl

theorem isSome_invoke_ofBinds (binds : List (UInt16 × H)) (id : UInt16) :
    ((ofBinds binds).invoke id).isSome ↔ id ∈ binds.map Prod.fst := by
  rw [invoke_ofBinds, Option.isSome_map, List.find?_isSome]
  simp

end PacketHandler

/-! ### `ReadPackets` -/

/-- What a call of `ReadPackets` did: the handlers it called, each with the bytes it got, and
whether it returned, as opposed to threw. -/
structure Reading (H : Type*) where
  calls : List (H × List UInt8)
  returned : Bool

namespace Reading

/-- Nothing was called, and the loop is over. -/
def done : Reading H := ⟨[], true⟩

/-- An exception left the loop. -/
def thrown : Reading H := ⟨[], false⟩

/-- A handler was called first, and returned. -/
def call (h : H) (data : List UInt8) (rest : Reading H) : Reading H :=
  ⟨(h, data) :: rest.calls, rest.returned⟩

end Reading

/-- The loop of `User::ReadPackets` on what `recv_buffer().Get()` gave. -/
def User.readPackets (p : PacketHandler H) : List RecvPacket → Reading H
  | [] => .done
  | e :: list =>
    match p.invoke e.1.toUInt16 with
    | some handler => .call handler e.2 (readPackets p list)
    | none => .thrown

/-- The loop of `NetTcp::ReadPackets`. -/
def NetTcp.readPackets (p : PacketHandler H) : List RecvPacket → Reading H
  | [] => .done
  | e :: list =>
    match p.invoke e.1.toUInt16 with
    | some handler => .call handler e.2 (readPackets p list)
    | none => readPackets p list

/-- The calls for the packets whose id is bound. -/
def boundCalls (p : PacketHandler H) (list : List RecvPacket) : List (H × List UInt8) :=
  list.filterMap fun e => (p.invoke e.1.toUInt16).map fun handler => (handler, e.2)

/-- Both sides return and make the calls for the packets whose id is bound. -/
structure Dispatched (p : PacketHandler H) (list : List RecvPacket) : Prop where
  server : User.readPackets p list = ⟨boundCalls p list, true⟩
  client : NetTcp.readPackets p list = ⟨boundCalls p list, true⟩

variable {p : PacketHandler H} {list : List RecvPacket}

theorem NetTcp.readPackets_eq : NetTcp.readPackets p list = ⟨boundCalls p list, true⟩ := by
  induction list with
  | nil => rfl
  | cons e list ih =>
    rw [NetTcp.readPackets, ih, boundCalls, boundCalls, List.filterMap_cons]
    cases p.invoke e.1.toUInt16 <;> rfl

/-- The server calls the handlers up to the first packet that is not bound. -/
theorem User.readPackets_eq : User.readPackets p list =
    ⟨boundCalls p (list.takeWhile fun e => (p.invoke e.1.toUInt16).isSome),
      list.all fun e => (p.invoke e.1.toUInt16).isSome⟩ := by
  induction list with
  | nil => rfl
  | cons e list ih =>
    rw [User.readPackets, ih, List.takeWhile_cons, List.all_cons]
    cases h : p.invoke e.1.toUInt16 with
    | none => rfl
    | some handler => simp [Reading.call, boundCalls, h]

theorem User.readPackets_of_bound {binds : List (UInt16 × H)} {list : List RecvPacket}
    (h : ∀ e ∈ list, e.1.toUInt16 ∈ binds.map Prod.fst) :
    User.readPackets (.ofBinds binds) list = ⟨boundCalls (.ofBinds binds) list, true⟩ := by
  have hall : ∀ e ∈ list,
      ((PacketHandler.ofBinds binds).invoke e.1.toUInt16).isSome = true := fun e he =>
    (PacketHandler.isSome_invoke_ofBinds binds _).2 (h e he)
  rw [User.readPackets_eq, List.takeWhile_eq_self_iff.2 hall, List.all_eq_true.2 hall]

/-- **When bad packets do not stop good ones.**  Both sides return and call the handlers of all
packets whose id is bound iff the ids of all packets received are. -/
theorem readPackets_iff (binds : List (UInt16 × H)) (list : List RecvPacket) :
    Dispatched (.ofBinds binds) list ↔ ∀ e ∈ list, e.1.toUInt16 ∈ binds.map Prod.fst := by
  have hall : (∀ e ∈ list, e.1.toUInt16 ∈ binds.map Prod.fst) ↔
      list.all (fun e => ((PacketHandler.ofBinds binds).invoke e.1.toUInt16).isSome) = true := by
    simp only [List.all_eq_true, PacketHandler.isSome_invoke_ofBinds]
  rw [hall]
  constructor
  · intro h
    have hserver := h.server
    rw [User.readPackets_eq] at hserver
    exact congrArg Reading.returned hserver
  · intro h
    refine ⟨?_, NetTcp.readPackets_eq⟩
    have htake : list.takeWhile
        (fun e => ((PacketHandler.ofBinds binds).invoke e.1.toUInt16).isSome) = list :=
      List.takeWhile_eq_self_iff.2 (List.all_eq_true.1 h)
    rw [User.readPackets_eq, htake, h]

/-- An unknown packet in front of a known one. -/
theorem readPackets_not_dispatched :
    ¬∀ (binds : List (UInt16 × ℕ)) (list : List RecvPacket), Dispatched (.ofBinds binds) list := by
  intro h
  have hserver := (h [(12, 0)] [(99, []), (12, [])]).server
  exact absurd (congrArg Reading.returned hserver) (by decide)

end ClientServer
