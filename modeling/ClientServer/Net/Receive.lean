import ClientServer.Net.Packet
import Mathlib.Data.List.Forall2

/-!
# The read side of a session

`TcpSession::Read` clears `recv_buffer_`, starts one `async_receive` and parses what arrived in
its callback.  The callback takes the received bytes for exactly one packet: it looks neither
at how many bytes came nor at what follows the packet.

* `read_eq_packets_iff` : **exactly when the packets sent are the packets received**.
* `read_not_framing` : two frames in one receive become one packet.
* `reads_within_iff` : **exactly when the callback stays inside the received bytes**.
-/

namespace ClientServer

/-- An element of `RecvBuffer::buffer_`. -/
abbrev RecvPacket := Int16 × List UInt8

namespace TcpSession

/-- The size of `recv_buffer_`. -/
def recvBufferSize : ℕ := 0xFFFF

/-- One completion of `async_receive`: the bytes received, and what the memory after
`recv_buffer_` happens to hold (the other members of the session). -/
structure Delivery where
  bytes : List UInt8
  beyond : ℕ → UInt8

namespace Delivery

variable (d : Delivery)

/-- The memory from `recv_buffer_.data()` on: zeroes, overwritten by the bytes received. -/
def memory (i : ℕ) : UInt8 :=
  if i < recvBufferSize then d.bytes.getD i 0 else d.beyond i

/-- The header the callback reads. -/
def header : PacketHeader :=
  .ofBytes (d.memory 0) (d.memory 1) (d.memory 2) (d.memory 3)

/-- The packet that the callback adds to the `RecvBuffer`. -/
def packet : RecvPacket :=
  (d.header.id.toInt16, (List.range d.header.size.toNat).map fun i => d.memory (4 + i))

/-- The offsets of `recv_buffer_` that the callback reads: the header, then the body. -/
def offsets : List ℕ :=
  List.range 4 ++ (List.range d.header.size.toNat).map (4 + ·)

end Delivery

/-- The callback on an error-free receive: the offsets read and the packet added.  An empty
receive is dropped. -/
def onReceive (d : Delivery) : List ℕ × Option RecvPacket :=
  if d.bytes.length > 0 then (d.offsets, some d.packet) else ([], none)

/-- `Read()` over the receives to come: the callback calls `Read()` again, except after an empty
receive. -/
def read (recvPackets : List RecvPacket) : List Delivery → List RecvPacket
  | [] => recvPackets
  | d :: ds =>
    match (onReceive d).2 with
    | some packet => read (recvPackets ++ [packet]) ds
    | none => recvPackets

theorem read_eq {ds : List Delivery} (h : ∀ d ∈ ds, 1 ≤ d.bytes.length)
    (recvPackets : List RecvPacket) :
    read recvPackets ds = recvPackets ++ ds.map Delivery.packet := by
  induction ds generalizing recvPackets with
  | nil => simp [read]
  | cons d ds ih =>
    have hd : d.bytes.length > 0 := h d List.mem_cons_self
    have hread : read recvPackets (d :: ds) = read (recvPackets ++ [d.packet]) ds := by
      simp only [read, onReceive, if_pos hd]
    rw [hread, ih fun x hx => h x (List.mem_cons_of_mem _ hx), List.map_cons, List.append_assoc]
    rfl

/-! ### Framing -/

/-- The bytes begin with `frame`, the missing ones read as zero. -/
def BeginsWith (bytes frame : List UInt8) : Prop :=
  (List.range frame.length).map (fun i => bytes.getD i 0) = frame

instance (bytes frame : List UInt8) : Decidable (BeginsWith bytes frame) :=
  inferInstanceAs (Decidable ((List.range frame.length).map _ = frame))

theorem beginsWith_self (frame : List UInt8) : BeginsWith frame frame := by
  refine List.ext_getElem (by simp) fun i h₁ h₂ => ?_
  simp [List.getD_eq_getElem?_getD, h₂]

theorem toInt16_inj {a b : UInt16} : a.toInt16 = b.toInt16 ↔ a = b :=
  ⟨congrArg Int16.toUInt16, congrArg UInt16.toInt16⟩

theorem packet_eq_iff {d : Delivery} {id : UInt16} {body : List UInt8}
    (hbody : body.length < 2 ^ 16) :
    d.packet = (id.toInt16, body) ↔
      d.header = ⟨id, UInt16.ofNat body.length⟩ ∧
        (List.range body.length).map (fun i => d.memory (4 + i)) = body := by
  have hsize : (UInt16.ofNat body.length).toNat = body.length := UInt16.toNat_ofNat_of_lt' hbody
  rw [Delivery.packet, Prod.mk.injEq, toInt16_inj]
  constructor
  · rintro ⟨hid, hmap⟩
    have hlen : d.header.size.toNat = body.length := by
      simpa only [List.length_map, List.length_range] using congrArg List.length hmap
    rw [hlen] at hmap
    refine ⟨?_, hmap⟩
    rw [← hid, ← hlen, UInt16.ofNat_toNat]
  · rintro ⟨hheader, hmap⟩
    rw [hheader]
    exact ⟨rfl, by rw [hsize, hmap]⟩

theorem beginsWith_packetData_iff {d : Delivery} {id : UInt16} {body : List UInt8}
    (hbody : body.length ≤ 65531) :
    BeginsWith d.bytes (packetData id body) ↔
      d.header = ⟨id, UInt16.ofNat body.length⟩ ∧
        (List.range body.length).map (fun i => d.memory (4 + i)) = body := by
  have hmem : ∀ i < 4 + body.length, d.bytes.getD i 0 = d.memory i := by
    intro i hi
    rw [Delivery.memory, recvBufferSize, if_pos (by omega)]
  rw [packetData_of_le (by omega), BeginsWith, List.length_append, PacketHeader.length_bytes,
    List.map_congr_left fun i hi => hmem i (List.mem_range.1 hi), List.range_add, List.map_append,
    List.map_map, Delivery.header, PacketHeader.ofBytes_eq_iff]
  exact ⟨fun h => List.append_inj h rfl, fun h => congrArg₂ _ h.1 h.2⟩

theorem map_packet_eq_iff {packets : List (UInt16 × List UInt8)}
    (hbody : ∀ p ∈ packets, p.2.length ≤ 65531) {ds : List Delivery} :
    ds.map Delivery.packet = packets.map (fun p => (p.1.toInt16, p.2)) ↔
      List.Forall₂ (fun p d => BeginsWith d.bytes (packetData p.1 p.2)) packets ds := by
  induction packets generalizing ds with
  | nil => cases ds <;> simp
  | cons p packets ih =>
    cases ds with
    | nil => simp
    | cons d ds =>
      have hp : p.2.length ≤ 65531 := hbody p List.mem_cons_self
      simp only [List.map_cons, List.cons.injEq, List.forall₂_cons,
        ih fun q hq => hbody q (List.mem_cons_of_mem _ hq),
        packet_eq_iff (show p.2.length < 2 ^ 16 by omega), beginsWith_packetData_iff hp]

/-- **When framing works.**  Whatever the packets and the receives, the packets sent are the
packets received iff there are as many receives as packets and every receive, continued with
zeroes, begins with the frame of its packet. -/
theorem read_eq_packets_iff {packets : List (UInt16 × List UInt8)}
    (hbody : ∀ p ∈ packets, p.2.length ≤ 65531) {ds : List Delivery}
    (hds : ∀ d ∈ ds, 1 ≤ d.bytes.length ∧ d.bytes.length ≤ recvBufferSize) :
    read [] ds = packets.map (fun p => (p.1.toInt16, p.2)) ↔
      List.Forall₂ (fun p d => BeginsWith d.bytes (packetData p.1 p.2)) packets ds := by
  rw [read_eq (fun d hd => (hds d hd).1), List.nil_append]
  exact map_packet_eq_iff hbody

theorem read_eq_packets_iff_split :
    read [] [⟨[1, 0, 1, 0, 7], fun _ => 0⟩, ⟨[2, 0, 0, 0], fun _ => 0⟩] = [(1, [7]), (2, [])] :=
  (@read_eq_packets_iff [(1, [7]), (2, [])] (by decide) _ (by decide)).2 (by decide)

/-- Two frames in one receive: the second packet is lost. -/
theorem read_not_framing : ¬∀ packets : List (UInt16 × List UInt8),
    (∀ p ∈ packets, p.2.length ≤ 65531) → ∀ ds : List Delivery,
    (∀ d ∈ ds, 1 ≤ d.bytes.length ∧ d.bytes.length ≤ recvBufferSize) →
    (ds.map Delivery.bytes).flatten = (packets.map fun p => packetData p.1 p.2).flatten →
    read [] ds = packets.map fun p => (p.1.toInt16, p.2) := by
  intro h
  have := h [(1, [7]), (2, [])] (by decide) [⟨[1, 0, 1, 0, 7, 2, 0, 0, 0], fun _ => 0⟩]
    (by decide) (by decide)
  revert this
  decide

/-! ### The received length -/

/-- The body size announced by the bytes received. -/
def announced (bytes : List UInt8) : ℕ := (ofLeBytes (bytes.getD 2 0) (bytes.getD 3 0)).toNat

/-- What a receive should guarantee: the callback reads only bytes that were received, and a
packet is added only when its header and its whole body were received. -/
def Delivery.Within (d : Delivery) : Prop :=
  (∀ o ∈ (onReceive d).1, o < d.bytes.length) ∧
    ((onReceive d).2.isSome → 4 + announced d.bytes ≤ d.bytes.length)

theorem announced_eq (d : Delivery) : announced d.bytes = d.header.size.toNat := rfl

theorem offsets_lt_iff {d : Delivery} {n : ℕ} :
    (∀ o ∈ d.offsets, o < n) ↔ 4 + announced d.bytes ≤ n := by
  rw [announced_eq]
  simp only [Delivery.offsets, List.forall_mem_append, List.mem_range, List.forall_mem_map]
  constructor
  · rintro ⟨hheader, hbody⟩
    have h3 := hheader 3 (by omega)
    by_cases hsize : d.header.size.toNat = 0
    · omega
    · have hlast := hbody (d.header.size.toNat - 1) (by omega)
      omega
  · exact fun h => ⟨fun o ho => by omega, fun o ho => by omega⟩

/-- **When the callback stays inside the bytes received**: exactly when a whole header came and
the body it announces came with it. -/
theorem reads_within_iff {d : Delivery}
    (h : 1 ≤ d.bytes.length ∧ d.bytes.length ≤ recvBufferSize) :
    d.Within ↔ 4 + announced d.bytes ≤ d.bytes.length := by
  have hd : d.bytes.length > 0 := h.1
  rw [Delivery.Within, onReceive, if_pos hd, offsets_lt_iff]
  exact ⟨fun hw => hw.1, fun hle => ⟨hle, fun _ => hle⟩⟩

theorem reads_within_iff_header :
    (⟨[1, 0, 1, 0, 7], fun _ => 0⟩ : Delivery).Within :=
  (reads_within_iff (by decide)).2 (by decide)

/-- A single byte yields a packet all the same. -/
theorem reads_not_within : ¬∀ d : Delivery,
    1 ≤ d.bytes.length ∧ d.bytes.length ≤ recvBufferSize → d.Within := by
  intro h
  have := (h ⟨[1], fun _ => 0⟩ (by decide)).2 (by decide)
  revert this
  decide

end TcpSession

end ClientServer
