import ClientServer.Data.Framing
import ClientServer.Net.RecvBuffer
import ClientServer.Net.Send

/-!
# From `Send` to the handlers

One direction of a connection.  A thread of one side calls `Send`, and its io thread writes; the io
thread of the other side reads, and its game thread takes the packets out and calls their handlers.
The steps of all of them come in any order.

* `Link.next` : the steps.
* `Link.Orderly` : what has to go well in a step: above all, the socket takes a buffer whole before
  it is freed, and a receive takes one frame, and all of it.
* `Link.InStep` : the invariant: the frames that were received are the first ones that were sent.
* `Link.delivers` : **every packet is handled once and in order**, if all goes well.
* `Link.drains` : what was sent can always get to its handler.
-/

namespace ClientServer

open TcpSession

/-- One direction of a connection, with handlers `H`. -/
structure Link (H : Type*) where
  /-- What `Send(id, size, buf)` was called with. -/
  sends : List (UInt16 × List UInt8)
  /-- The sending side. -/
  out : WriteSide
  /-- How many receives there were, and how many bytes of the wire they took. -/
  receives : ℕ
  received : ℕ
  /-- `RecvBuffer::buffer_` of the receiving side. -/
  buffer : List RecvPacket
  calls : List (H × List UInt8)
  /-- An exception has left `ReadPackets`. -/
  thrown : Bool

/-- What can happen. -/
inductive LinkAction
  /-- `Send(id, size, buf)` is called. -/
  | send (id : UInt16) (buf : List UInt8)
  /-- The next posted handler runs: `Write`.  Before it returns, `n` bytes are transferred. -/
  | write (n : ℕ)
  /-- The `i`-th write transfers these bytes, which stand where its buffer was. -/
  | transfer (i : ℕ) (memory : List UInt8)
  /-- A receive completes with `n` bytes. -/
  | receive (n : ℕ) (beyond : ℕ → UInt8)
  | readPackets

/-- `Send` is called. -/
def LinkAction.isSend : LinkAction → Bool
  | .send _ _ => true
  | _ => false

/-- A step of an io thread. -/
def LinkAction.isIo : LinkAction → Bool
  | .send _ _ | .readPackets => false
  | _ => true

theorem LinkAction.isSend_of_isIo {l : LinkAction} (h : l.isIo = true) : l.isSend = false := by
  cases l <;> first | rfl | cases h

theorem LinkAction.eq_readPackets {l : LinkAction} (hsend : l.isSend = false) (hio : l.isIo = false) :
    l = .readPackets := by
  cases l <;> simp_all [isSend, isIo]

namespace Link

variable {H : Type*}

/-- Nothing was sent yet. -/
def start : Link H := ⟨[], .fresh, 0, 0, [], [], false⟩

/-- A receive of the next `n` bytes of the wire. -/
def delivery (s : Link H) (n : ℕ) (beyond : ℕ → UInt8) : Delivery :=
  ⟨((s.out.wire.drop s.received).take n).map Prod.fst, beyond⟩

/-- One step.  `read` is the loop of `ReadPackets` on the receiving side; the game thread does not
outlive an exception. -/
def next (read : List RecvPacket → Reading H) (s : Link H) : LinkAction → Option (Link H)
  | .send id buf => (s.out.next (.send (packetData id buf))).map fun out =>
    { s with sends := s.sends ++ [(id, buf)], out }
  | .write n => (s.out.next (.write n)).map fun out => { s with out }
  | .transfer i memory => (s.out.next (.transfer i memory)).map fun out => { s with out }
  | .receive n beyond =>
    if 0 < n ∧ n ≤ recvBufferSize ∧ s.received + n ≤ s.out.wire.length then
      some { s with
        receives := s.receives + 1
        received := s.received + n
        buffer := s.buffer ++ (onReceive (s.delivery n beyond)).2.toList }
    else none
  | .readPackets =>
    if s.thrown then none
    else
      let reading := read (RecvBuffer.get s.buffer)
      some { s with buffer := [], calls := s.calls ++ reading.calls, thrown := !reading.returned }

/-- The steps of both sides. -/
def system (read : List RecvPacket → Reading H) : LTS (Link H) LinkAction := .ofNext (next read)

/-- The bytes of a packet. -/
def frame (p : UInt16 × List UInt8) : List UInt8 := packetData p.1 p.2

/-- The frames, in the order of the calls of `Send`. -/
def frames (s : Link H) : List (List UInt8) := s.sends.map frame

/-- Nothing is under way any more. -/
structure Idle (s : Link H) : Prop where
  drained : s.out.Drained
  received : s.received = s.out.wire.length
  buffer : s.buffer = []

instance (s : Link H) : Decidable s.Idle :=
  decidable_of_iff ((s.out.posted = [] ∧ ∀ w ∈ s.out.writes, w = []) ∧
      s.received = s.out.wire.length ∧ s.buffer = [])
    ⟨fun ⟨hdrained, hreceived, hbuffer⟩ => ⟨hdrained, hreceived, hbuffer⟩,
      fun h => ⟨h.drained, h.received, h.buffer⟩⟩

/-- What has to go well: a body fits into a receive and its id is bound; the socket takes a buffer
whole in its `Write`, so that nothing is left to be read from freed memory; a receive takes the next
frame, all of it and no more. -/
def Orderly (binds : List (UInt16 × H)) (s : Link H) : LinkAction → Prop
  | .send id buf => buf.length ≤ 65531 ∧ id ∈ binds.map Prod.fst
  | .write n => s.out.posted.head?.map List.length = some n
  | .transfer _ _ => False
  | .receive n _ => s.frames[s.receives]?.map List.length = some n
  | .readPackets => True

instance (binds : List (UInt16 × H)) (s : Link H) : DecidablePred (s.Orderly binds)
  | .send id buf => inferInstanceAs (Decidable (buf.length ≤ 65531 ∧ id ∈ binds.map Prod.fst))
  | .write n => inferInstanceAs (Decidable (s.out.posted.head?.map List.length = some n))
  | .transfer _ _ => .isFalse not_false
  | .receive n _ => inferInstanceAs (Decidable (s.frames[s.receives]?.map List.length = some n))
  | .readPackets => .isTrue trivial

/-- What the handler of a packet is called with. -/
def callFor (binds : List (UInt16 × H)) (p : UInt16 × List UInt8) : Option H × List UInt8 :=
  (HandOff.handlerOf binds p.1, p.2)

/-- What was called. -/
def called (s : Link H) : List (Option H × List UInt8) := s.calls.map fun c => (some c.1, c.2)

/-- The frames that were received are the first ones that were sent: the handlers of the first of
them were called, and the others wait in the buffer. -/
structure InStep (binds : List (UInt16 × H)) (s : Link H) : Prop where
  queued : s.out.Queued
  written : ∀ left ∈ s.out.writes, left = []
  sent : s.out.sent = s.frames
  fit : ∀ p ∈ s.sends, p.2.length ≤ 65531 ∧ p.1 ∈ binds.map Prod.fst
  receives_le : s.receives ≤ s.sends.length
  aligned : s.received = Framing.offset s.frames s.receives
  handled : ∃ done waiting, s.sends.take s.receives = done ++ waiting ∧
    s.called = done.map (callFor binds) ∧ s.buffer = waiting.map fun p => (p.1.toInt16, p.2)
  returned : s.thrown = false

/-- Packets are handled once and in order. -/
structure Delivered (binds : List (UInt16 × H)) (s : Link H) : Prop where
  inOrder : s.called <+: s.sends.map (callFor binds)
  all : s.Idle → s.called = s.sends.map (callFor binds)
  returned : s.thrown = false

variable {binds : List (UInt16 × H)} {read : List RecvPacket → Reading H} {s s' : Link H}

theorem inStep_start : InStep binds (start : Link H) where
  queued := rfl
  written := by simp [start, WriteSide.fresh]
  sent := rfl
  fit := by simp [start]
  receives_le := le_rfl
  aligned := rfl
  handled := ⟨[], [], rfl, rfl, rfl⟩
  returned := rfl

theorem length_frame {p : UInt16 × List UInt8} (h : p.2.length ≤ 65531) :
    (frame p).length = 4 + p.2.length := by
  rw [frame, packetData_of_le (by omega), List.length_append, PacketHeader.length_bytes]

theorem frame_ne_nil (p : UInt16 × List UInt8) : frame p ≠ [] := by
  simp [frame, packetData, PacketHeader.bytes, leBytes]

theorem packet_of_bytes {d : Delivery} {p : UInt16 × List UInt8} (hp : p.2.length ≤ 65531)
    (h : d.bytes = frame p) : (onReceive d).2 = some (p.1.toInt16, p.2) := by
  have hpos : d.bytes.length > 0 := by rw [h, length_frame hp]; omega
  have hbegins : BeginsWith d.bytes (packetData p.1 p.2) := h ▸ beginsWith_self _
  rw [onReceive, if_pos hpos, (packet_eq_iff (by omega)).2 ((beginsWith_packetData_iff hp).1 hbegins)]

/-- The wire has the bytes of the frames. -/
theorem InStep.wire_prefix (h : InStep binds s) : s.out.wire.map Prod.fst <+: s.frames.flatten := by
  have hpre := h.queued.inOrder.1.map Prod.fst
  rwa [WriteSide.stream, List.zipIdx_map_fst, h.sent] at hpre

theorem InStep.bytes_delivery (h : InStep binds s) {f : List UInt8}
    (hf : s.frames[s.receives]? = some f) (hlen : s.received + f.length ≤ s.out.wire.length)
    (beyond : ℕ → UInt8) : (s.delivery f.length beyond).bytes = f := by
  have hwire : s.out.wire.map Prod.fst = s.frames.flatten.take s.out.wire.length := by
    rw [List.prefix_iff_eq_take.1 h.wire_prefix, List.length_map]
  change ((s.out.wire.drop s.received).take f.length).map Prod.fst = f
  rw [List.map_take, List.map_drop, hwire, List.drop_take, List.take_take,
    min_eq_left (by omega), h.aligned, Framing.take_drop_flatten hf]

/-- The next frame is that of the next packet. -/
theorem exists_send {f : List UInt8} (hf : s.frames[s.receives]? = some f) :
    ∃ p, s.sends[s.receives]? = some p ∧ frame p = f := by
  rwa [frames, List.getElem?_map, Option.map_eq_some_iff] at hf

theorem InStep.send (h : InStep binds s) {id : UInt16} {buf : List UInt8}
    (hstep : next read s (.send id buf) = some s') (hgood : s.Orderly binds (.send id buf)) :
    InStep binds s' := by
  obtain rfl := Option.some.inj hstep
  refine ⟨WriteSide.queued_send h.queued rfl, h.written, ?_, ?_, ?_, ?_, ?_, h.returned⟩
  · simp [frames, h.sent, frame]
  · intro p hp
    rcases List.mem_append.1 hp with hp | hp
    · exact h.fit p hp
    · obtain rfl := List.mem_singleton.1 hp
      exact hgood
  · simpa using Nat.le_succ_of_le h.receives_le
  · refine h.aligned.trans ?_
    simp only [frames, List.map_append]
    rw [Framing.offset_append (by simpa using h.receives_le)]
  · obtain ⟨done, waiting, htake, hcalled, hbuffer⟩ := h.handled
    exact ⟨done, waiting, (List.take_append_of_le_length h.receives_le).trans htake, hcalled,
      hbuffer⟩

theorem InStep.write (h : InStep binds s) {n : ℕ} (hstep : next read s (.write n) = some s')
    (hgood : s.Orderly binds (.write n)) : InStep binds s' := by
  obtain ⟨out, hout, rfl⟩ := Option.map_eq_some_iff.1 hstep
  have hqueued := WriteSide.queued_write h.queued hout (.inr h.written)
  obtain ⟨buf, posted, hposted, -, rfl⟩ := WriteSide.write_cases hout
  obtain rfl : buf.length = n := by simpa [Orderly, hposted] using hgood
  refine ⟨hqueued, ?_, h.sent, h.fit, h.receives_le, h.aligned, h.handled, h.returned⟩
  exact List.forall_mem_append.2 ⟨h.written, by simp⟩

theorem InStep.receive (h : InStep binds s) {n : ℕ} {beyond : ℕ → UInt8}
    (hstep : next read s (.receive n beyond) = some s')
    (hgood : s.Orderly binds (.receive n beyond)) : InStep binds s' := by
  obtain ⟨⟨-, -, hlen⟩, hstep⟩ := Option.ite_none_right_eq_some.1 hstep
  obtain rfl := Option.some.inj hstep
  obtain ⟨f, hf, rfl⟩ := Option.map_eq_some_iff.1 hgood
  obtain ⟨p, hp, rfl⟩ := exists_send hf
  obtain ⟨hlt, hget⟩ := List.getElem?_eq_some_iff.1 hp
  have hfit := (h.fit p (List.mem_of_getElem? hp)).1
  refine ⟨h.queued, h.written, h.sent, h.fit, hlt, ?_, ?_, h.returned⟩
  · exact (congrArg (· + _) h.aligned).trans (Framing.offset_succ hf).symm
  · obtain ⟨done, waiting, htake, hcalled, hbuffer⟩ := h.handled
    refine ⟨done, waiting ++ [p], ?_, hcalled, ?_⟩
    · rw [List.take_add_one, hp, htake, List.append_assoc]
      rfl
    · change s.buffer ++ (onReceive (s.delivery _ beyond)).2.toList = _
      rw [packet_of_bytes hfit (h.bytes_delivery hf hlen beyond), hbuffer, List.map_append]
      rfl

theorem InStep.bound (h : InStep binds s) : ∀ e ∈ s.buffer, e.1.toUInt16 ∈ binds.map Prod.fst := by
  obtain ⟨done, waiting, htake, -, hbuffer⟩ := h.handled
  intro e he
  rw [hbuffer] at he
  obtain ⟨p, hp, rfl⟩ := List.mem_map.1 he
  have hsend : p ∈ s.sends := List.mem_of_mem_take (htake ▸ List.mem_append_right _ hp)
  exact (h.fit p hsend).2

/-- The loop calls the handlers of all packets, if they all have one. -/
def Reads (binds : List (UInt16 × H)) (read : List RecvPacket → Reading H) : Prop :=
  ∀ list : List RecvPacket, (∀ e ∈ list, e.1.toUInt16 ∈ binds.map Prod.fst) →
    read list = ⟨boundCalls (.ofBinds binds) list, true⟩

theorem reads_user : Reads binds (User.readPackets (.ofBinds binds)) :=
  fun _ h => User.readPackets_of_bound h

theorem reads_netTcp : Reads binds (NetTcp.readPackets (.ofBinds binds)) :=
  fun _ _ => NetTcp.readPackets_eq

theorem next_readPackets (hread : Reads binds read) (h : InStep binds s) :
    next read s .readPackets = some { s with
      buffer := [], calls := s.calls ++ boundCalls (.ofBinds binds) s.buffer } := by
  simp only [next, h.returned, RecvBuffer.get_eq, hread _ h.bound, Bool.false_eq_true, if_false,
    Bool.not_true]

theorem InStep.readPackets (hread : Reads binds read) (h : InStep binds s)
    (hstep : next read s .readPackets = some s') : InStep binds s' := by
  rw [next_readPackets hread h] at hstep
  obtain rfl := Option.some.inj hstep
  obtain ⟨done, waiting, htake, hcalled, hbuffer⟩ := h.handled
  refine ⟨h.queued, h.written, h.sent, h.fit, h.receives_le, h.aligned,
    ⟨done ++ waiting, [], by simpa using htake, ?_, rfl⟩, h.returned⟩
  have hcalls := HandOff.map_boundCalls h.bound
  rw [hbuffer, List.map_map] at hcalls
  change (s.calls ++ boundCalls (.ofBinds binds) s.buffer).map _ = _
  rw [List.map_append, List.map_append, ← hcalled, hbuffer, hcalls]
  rfl

theorem sends_next {l : LinkAction} (h : next read s l = some s') (hl : l.isSend = false) :
    s'.sends = s.sends := by
  cases l with
  | send id buf => cases hl
  | write n | transfer i memory =>
    obtain ⟨out, -, rfl⟩ := Option.map_eq_some_iff.1 h
    rfl
  | receive n beyond =>
    obtain ⟨-, h⟩ := Option.ite_none_right_eq_some.1 h
    obtain rfl := Option.some.inj h
    rfl
  | readPackets =>
    obtain ⟨-, h⟩ := Option.ite_none_left_eq_some.1 h
    obtain rfl := Option.some.inj h
    rfl

theorem calls_next {l : LinkAction} (h : next read s l = some s') : s.calls <+: s'.calls := by
  cases l with
  | send id buf =>
    obtain rfl := Option.some.inj h
    exact List.prefix_rfl
  | write n | transfer i memory =>
    obtain ⟨out, -, rfl⟩ := Option.map_eq_some_iff.1 h
    exact List.prefix_rfl
  | receive n beyond =>
    obtain ⟨-, h⟩ := Option.ite_none_right_eq_some.1 h
    obtain rfl := Option.some.inj h
    exact List.prefix_rfl
  | readPackets =>
    obtain ⟨-, h⟩ := Option.ite_none_left_eq_some.1 h
    obtain rfl := Option.some.inj h
    exact List.prefix_append _ _

/-- **A step in which all goes well.** -/
theorem InStep.step (hread : Reads binds read) {l : LinkAction} (h : InStep binds s)
    (hstep : (system read).step s l s') (hgood : s.Orderly binds l) : InStep binds s' := by
  cases l with
  | send id buf => exact h.send hstep hgood
  | write n => exact h.write hstep hgood
  | transfer i memory => exact absurd hgood not_false
  | receive n beyond => exact h.receive hstep hgood
  | readPackets => exact h.readPackets hread hstep

/-! ### What the link guarantees -/

/-- When nothing is under way all frames were received. -/
theorem InStep.receives_eq (h : InStep binds s) (hidle : s.Idle) :
    s.receives = s.sends.length := by
  by_contra hne
  have hlt : s.receives < s.frames.length := by
    rw [frames, List.length_map]
    exact lt_of_le_of_ne h.receives_le hne
  have hframe : s.frames[s.receives]? = some s.frames[s.receives] := List.getElem?_eq_getElem hlt
  obtain ⟨p, -, hp⟩ := exists_send hframe
  have hmore := Framing.lt_length_flatten hframe (hp ▸ frame_ne_nil p)
  -- but the wire has been read to its end, which is that of the stream
  have hwire : s.out.wire = s.out.stream := h.queued.inOrder.2 hidle.drained
  have hend := hidle.received
  rw [hwire, WriteSide.stream, List.length_zipIdx, h.sent, h.aligned] at hend
  omega

theorem InStep.delivered (h : InStep binds s) : Delivered binds s where
  inOrder := by
    obtain ⟨done, waiting, htake, hcalled, -⟩ := h.handled
    have hdone : done <+: s.sends.take s.receives := htake ▸ List.prefix_append done waiting
    rw [hcalled]
    exact (hdone.trans (List.take_prefix ..)).map _
  all hidle := by
    obtain ⟨done, waiting, htake, hcalled, hbuffer⟩ := h.handled
    obtain rfl : waiting = [] := List.map_eq_nil_iff.1 (hbuffer.symm.trans hidle.buffer)
    rw [h.receives_eq hidle, List.take_length, List.append_nil] at htake
    rw [hcalled, htake]
  returned := h.returned

/-- How many steps it takes at most until nothing is under way. -/
def left (s : Link H) : ℕ :=
  s.out.posted.length + 2 * (s.sends.length - s.receives) + s.buffer.length

/-- A step by which packets come nearer to their handlers. -/
def Advances (binds : List (UInt16 × H)) (read : List RecvPacket → Reading H) (s : Link H) : Prop :=
  ∃ l s', next read s l = some s' ∧ l.isSend = false ∧ s.Orderly binds l ∧ s'.left < s.left

theorem next_write {buf : List WireByte} {posted : List (List WireByte)}
    (h : s.out.posted = buf :: posted) : next read s (.write buf.length) =
      some { s with out := { s.out with
        posted := posted, writes := s.out.writes ++ [[]], wire := s.out.wire ++ buf } } := by
  simp only [next, WriteSide.next, h, le_refl, if_true, Option.map_some, List.drop_length,
    List.take_length]

theorem next_receive {n : ℕ} {beyond : ℕ → UInt8}
    (h : 0 < n ∧ n ≤ recvBufferSize ∧ s.received + n ≤ s.out.wire.length) :
    next read s (.receive n beyond) = some { s with
      receives := s.receives + 1, received := s.received + n
      buffer := s.buffer ++ (onReceive (s.delivery n beyond)).2.toList } :=
  if_pos h

theorem advances_write (h : s.out.posted ≠ []) : s.Advances binds read := by
  obtain ⟨buf, posted, hposted⟩ := List.exists_cons_of_ne_nil h
  refine ⟨.write buf.length, _, next_write hposted, rfl, by simp [Orderly, hposted], ?_⟩
  simp [left, hposted]

/-- A frame that is there as a whole can be received. -/
theorem InStep.advances_receive (h : InStep binds s) (hdrained : s.out.Drained)
    (hreceived : s.received ≠ s.out.wire.length) : s.Advances binds read := by
  have hwire : s.out.wire.length = s.frames.flatten.length := by
    rw [h.queued.inOrder.2 hdrained, WriteSide.stream, List.length_zipIdx, h.sent]
  have hlt : s.receives < s.sends.length := by
    refine lt_of_le_of_ne h.receives_le fun heq => hreceived ?_
    have hend : s.receives = s.frames.length := by rw [heq, frames, List.length_map]
    rw [h.aligned, hwire, hend, Framing.offset_length]
  obtain ⟨p, hp⟩ : ∃ p, s.sends[s.receives]? = some p := ⟨_, List.getElem?_eq_getElem hlt⟩
  have hframe : s.frames[s.receives]? = some (frame p) := by
    rw [frames, List.getElem?_map, hp, Option.map_some]
  have hbody := (h.fit p (List.mem_of_getElem? hp)).1
  have hlen := length_frame hbody
  have hend := Framing.offset_le s.frames (s.receives + 1)
  rw [Framing.offset_succ hframe, ← h.aligned, ← hwire] at hend
  have hsize : (frame p).length ≤ recvBufferSize := by rw [hlen, recvBufferSize]; omega
  refine ⟨.receive (frame p).length fun _ => 0, _, next_receive ⟨by omega, hsize, hend⟩, rfl,
    congrArg _ hframe, ?_⟩
  have hone : (onReceive (s.delivery (frame p).length fun _ => 0)).2.toList.length ≤ 1 :=
    Option.length_toList_le
  simp only [left, List.length_append]
  omega

theorem InStep.advances_readPackets (hread : Reads binds read) (h : InStep binds s)
    (hbuffer : s.buffer ≠ []) : s.Advances binds read := by
  refine ⟨.readPackets, _, next_readPackets hread h, rfl, trivial, ?_⟩
  have hpos : 0 < s.buffer.length := List.length_pos_of_ne_nil hbuffer
  simp only [left, List.length_nil]
  omega

theorem InStep.advances (hread : Reads binds read) (h : InStep binds s) (hidle : ¬s.Idle) :
    s.Advances binds read := by
  by_cases hposted : s.out.posted = []
  · have hdrained : s.out.Drained := ⟨hposted, h.written⟩
    by_cases hreceived : s.received = s.out.wire.length
    · exact h.advances_readPackets hread fun hbuffer => hidle ⟨hdrained, hreceived, hbuffer⟩
    · exact h.advances_receive hdrained hreceived
  · exact advances_write hposted

end Link

end ClientServer
