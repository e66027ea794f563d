import Mathlib.Data.List.Basic
import Mathlib.Algebra.Order.Ring.Nat

/-!
# Little-endian words

Numbers as the bytes they have in memory, the low byte first, and the integer types over them.

* `LittleEndian.value_bytes`, `LittleEndian.bytes_value` : a number and its bytes.
* `ofBytes_bytesInt16`, `ofBytes_bytesUInt32`, `ofBytes_bytesInt32` : a word is recovered from its
  bytes.
-/

namespace ClientServer

namespace LittleEndian

/-- The `n` low bytes of `v`. -/
def bytes : ℕ → ℕ → List UInt8
  | 0, _ => []
  | n + 1, v => UInt8.ofNat v :: bytes n (v / 256)

/-- The number with these bytes. -/
def value : List UInt8 → ℕ
  | [] => 0
  | b :: bs => b.toNat + 256 * value bs

@[simp] theorem length_bytes (n v : ℕ) : (bytes n v).length = n := by
  induction n generalizing v with
  | zero => rfl
  | succ n ih => rw [bytes, List.length_cons, ih]

theorem value_bytes (n v : ℕ) : value (bytes n v) = v % 256 ^ n := by
  induction n generalizing v with
  | zero => rw [bytes, value, pow_zero, Nat.mod_one]
  | succ n ih =>
    rw [bytes, value, ih, pow_succ', Nat.mod_mul, UInt8.toNat_ofNat']

theorem bytes_value (bs : List UInt8) : bytes bs.length (value bs) = bs := by
  induction bs with
  | nil => rfl
  | cons b bs ih =>
    have hb := b.toNat_lt
    have hdiv : (b.toNat + 256 * value bs) / 256 = value bs := by omega
    have hlow : UInt8.ofNat (b.toNat + 256 * value bs) = b := by
      rw [← UInt8.toNat_inj, UInt8.toNat_ofNat']
      omega
    rw [value, List.length_cons, bytes, hdiv, ih, hlow]

theorem value_lt (bs : List UInt8) : value bs < 256 ^ bs.length := by
  induction bs with
  | nil => exact Nat.one_pos
  | cons b bs ih =>
    have hb := b.toNat_lt
    rw [value, List.length_cons, pow_succ']
    omega

end LittleEndian

open LittleEndian

/-- The memory of a `short`. -/
def bytesInt16 (i : Int16) : List UInt8 := bytes 2 i.toUInt16.toNat

/-- The `short` with this memory. -/
def int16OfBytes (bs : List UInt8) : Int16 := (UInt16.ofNat (value bs)).toInt16

@[simp] theorem length_bytesInt16 (i : Int16) : (bytesInt16 i).length = 2 := length_bytes ..

@[simp] theorem ofBytes_bytesInt16 (i : Int16) : int16OfBytes (bytesInt16 i) = i := by
  have hi := i.toUInt16.toNat_lt
  have hword : UInt16.ofNat (value (bytes 2 i.toUInt16.toNat)) = i.toUInt16 := by
    rw [value_bytes, ← UInt16.toNat_inj, UInt16.toNat_ofNat']
    omega
  rw [int16OfBytes, bytesInt16, hword]
  exact Int16.toInt16_toUInt16 i

/-- The memory of an `unsigned int`. -/
def bytesUInt32 (w : UInt32) : List UInt8 := bytes 4 w.toNat

/-- The `unsigned int` with this memory. -/
def uint32OfBytes (bs : List UInt8) : UInt32 := UInt32.ofNat (value bs)

/-- The memory of an `int`. -/
def bytesInt32 (i : Int32) : List UInt8 := bytesUInt32 i.toUInt32

/-- The `int` with this memory. -/
def int32OfBytes (bs : List UInt8) : Int32 := (uint32OfBytes bs).toInt32

@[simp] theorem length_bytesUInt32 (w : UInt32) : (bytesUInt32 w).length = 4 := length_bytes ..

@[simp] theorem length_bytesInt32 (i : Int32) : (bytesInt32 i).length = 4 := length_bytes ..

@[simp] theorem ofBytes_bytesUInt32 (w : UInt32) : uint32OfBytes (bytesUInt32 w) = w := by
  have hw := w.toNat_lt
  rw [uint32OfBytes, bytesUInt32, value_bytes, ← UInt32.toNat_inj, UInt32.toNat_ofNat']
  omega

theorem bytesUInt32_ofBytes {bs : List UInt8} (h : bs.length = 4) :
    bytesUInt32 (uint32OfBytes bs) = bs := by
  have hlt := value_lt bs
  rw [h] at hlt
  rw [bytesUInt32, uint32OfBytes, UInt32.toNat_ofNat_of_lt' hlt, ← h, bytes_value]

@[simp] theorem ofBytes_bytesInt32 (i : Int32) : int32OfBytes (bytesInt32 i) = i := by
  rw [int32OfBytes, bytesInt32, ofBytes_bytesUInt32]
  exact Int32.toInt32_toUInt32 i

theorem bytesInt32_ofBytes {bs : List UInt8} (h : bs.length = 4) :
    bytesInt32 (int32OfBytes bs) = bs := by
  rw [bytesInt32, int32OfBytes]
  exact bytesUInt32_ofBytes h

end ClientServer
