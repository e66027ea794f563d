import Mathlib.Algebra.Group.Nat.Defs
import Mathlib.Data.List.Basic

/-!
# Packets on the wire

`PacketHeader` of `packet_buffer.h` and the bytes that both ends hand to `TcpSession::Send`.  A
frame is the four-byte header, id and size in little-endian order, followed by the body.

* `PacketHeader.ofBytes_bytes` : a header is recovered from its bytes.
* `bytes_packetData` : what a frame consists of when the body fits the size field.
-/

namespace ClientServer

/-! ### Little-endian words -/

/-- The two bytes of a `uint16_t`, low byte first. -/
def leBytes (w : UInt16) : List UInt8 := [UInt8.ofNat w.toNat, UInt8.ofNat (w.toNat / 256)]

/-- The `uint16_t` with these two bytes. -/
def ofLeBytes (lo hi : UInt8) : UInt16 := UInt16.ofNat (lo.toNat + 256 * hi.toNat)

theorem toNat_ofLeBytes (lo hi : UInt8) : (ofLeBytes lo hi).toNat = lo.toNat + 256 * hi.toNat := by
  have hlo := lo.toNat_lt
  have hhi := hi.toNat_lt
  rw [ofLeBytes, UInt16.toNat_ofNat_of_lt']
  rw [UInt16.size]
  omega

theorem ofLeBytes_eq_iff {lo hi : UInt8} {w : UInt16} :
    ofLeBytes lo hi = w ↔ [lo, hi] = leBytes w := by
  have hlo := lo.toNat_lt
  have hhi := hi.toNat_lt
  have hw := w.toNat_lt
  simp only [← UInt16.toNat_inj, toNat_ofLeBytes, leBytes, List.cons.injEq, and_true,
    ← UInt8.toNat_inj, UInt8.toNat_ofNat']
  omega

/-! ### Headers and frames -/

/-- `PacketHeader`. -/
structure PacketHeader where
  id : UInt16
  size : UInt16
  deriving DecidableEq

namespace PacketHeader

/-- The memory of a header. -/
def bytes (h : PacketHeader) : List UInt8 := leBytes h.id ++ leBytes h.size

/-- The header with this memory. -/
def ofBytes (b₀ b₁ b₂ b₃ : UInt8) : PacketHeader := ⟨ofLeBytes b₀ b₁, ofLeBytes b₂ b₃⟩

theorem ofBytes_eq_iff {b₀ b₁ b₂ b₃ : UInt8} {h : PacketHeader} :
    ofBytes b₀ b₁ b₂ b₃ = h ↔ [b₀, b₁, b₂, b₃] = h.bytes := by
  obtain ⟨id, size⟩ := h
  simp only [ofBytes, PacketHeader.mk.injEq, ofLeBytes_eq_iff, bytes, leBytes, List.cons_append,
    List.nil_append, List.cons.injEq, and_true, and_assoc]

theorem bytes_inj {h h' : PacketHeader} (heq : h.bytes = h'.bytes) : h = h' := by
  have hself : ∀ g : PacketHeader, ofBytes (UInt8.ofNat g.id.toNat) (UInt8.ofNat (g.id.toNat / 256))
      (UInt8.ofNat g.size.toNat) (UInt8.ofNat (g.size.toNat / 256)) = g := fun g =>
    ofBytes_eq_iff.2 rfl
  have hfst := (hself h).symm
  exact hfst.trans (ofBytes_eq_iff.2 heq)

@[simp] theorem length_bytes (h : PacketHeader) : h.bytes.length = 4 := rfl

end PacketHeader

/-- The vector that `Send(id, size, buf)` builds: the header and the `size` bytes of `buf`, the
size cut to a `uint16_t`. -/
def packetData (id : UInt16) (buf : List UInt8) : List UInt8 :=
  let size := UInt16.ofNat buf.length
  PacketHeader.bytes ⟨id, size⟩ ++ buf.take size.toNat

/-- `ClientSession::Send(id, size, buf)`: the server's frame. -/
def ClientSession.frame (id : UInt16) (buf : List UInt8) : List UInt8 := packetData id buf

/-- `NetTcp::Send(id, size, buf)`: the client's frame. -/
def NetTcp.frame (id : UInt16) (buf : List UInt8) : List UInt8 := packetData id buf

theorem packetData_of_le {id : UInt16} {buf : List UInt8} (h : buf.length < 2 ^ 16) :
    packetData id buf = PacketHeader.bytes ⟨id, UInt16.ofNat buf.length⟩ ++ buf := by
  have hsize : (UInt16.ofNat buf.length).toNat = buf.length := UInt16.toNat_ofNat_of_lt' h
  rw [packetData]
  simp only [hsize, List.take_length]

end ClientServer
