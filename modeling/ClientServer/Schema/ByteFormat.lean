import ClientServer.Schema.Tables
import Mathlib.Algebra.Order.Ring.Unbundled.Rat

/-!
# A byte format

`FlatBuffers` is what the two programs need of the library.  Here is a plain format of bytes that has
it all: numbers are written in unary, and everything else as a table of byte strings.

* `ByteFormat.table` : tables of byte strings as byte strings.
* `FlatBuffers.plain` : the library with this format.
-/

namespace ClientServer

namespace ByteFormat

/-- A slot is a word of two bytes, with two bytes for each byte in it. -/
def putSlot : Option (List UInt8) → List UInt8
  | none => [0, 0]
  | some l => 1 :: 0 :: l.flatMap fun b => [2, b]

/-- The bytes of a slot of which the beginning is missing, and the slots that follow. -/
def scan : List UInt8 → List UInt8 × Table (List UInt8)
  | t :: b :: rest =>
    let (l, slots) := scan rest
    if t = 0 then ([], none :: slots) else if t = 1 then ([], some l :: slots) else (b :: l, slots)
  | _ => ([], [])

theorem scan_bytes (l rest : List UInt8) :
    scan ((l.flatMap fun b => [2, b]) ++ rest) = (l ++ (scan rest).1, (scan rest).2) := by
  induction l with
  | nil => rfl
  | cons b l ih => simp [scan, ih]

theorem scan_slots (t : Table (List UInt8)) : scan (t.flatMap putSlot) = ([], t) := by
  induction t with
  | nil => rfl
  | cons slot t ih =>
    cases slot with
    | none => simp [putSlot, scan, ih]
    | some l => simp [putSlot, scan, scan_bytes, ih]

/-- Tables. -/
def table : Codec (List UInt8) (Table (List UInt8)) :=
  ⟨fun t => t.flatMap putSlot, fun bs => (scan bs).2, fun t => by rw [scan_slots]⟩

/-- Lists. -/
def list {T : Type*} (c : Codec (List UInt8) T) : Codec (List UInt8) (List T) where
  put l := table.put (l.map fun v => some (c.put v))
  get bs := (table.get bs).filterMap fun slot => slot.map c.get
  get_put l := by simp [table.get_put, List.filterMap_map, c.get_put]

/-- Numbers. -/
def nat : Codec (List UInt8) ℕ := ⟨fun n => List.replicate n 0, List.length, by simp⟩

/-- Fractions by what is above and below zero in the numerator and by the denominator. -/
def fractions : List ℕ → List ℚ
  | pos :: neg :: den :: l => mkRat (pos - neg) den :: fractions l
  | _ => []

theorem fractions_flatMap (l : List ℚ) :
    fractions (l.flatMap fun q => [q.num.toNat, (-q.num).toNat, q.den]) = l := by
  induction l with
  | nil => rfl
  | cons q l ih =>
    have hnum : ((q.num.toNat : ℤ) - (-q.num).toNat) = q.num := by omega
    simp only [List.flatMap_cons, List.cons_append, List.nil_append, fractions, hnum,
      Rat.mkRat_self, ih]

/-- Lists of fractions. -/
def rats : Codec (List UInt8) (List ℚ) where
  put l := (list nat).put (l.flatMap fun q => [q.num.toNat, (-q.num).toNat, q.den])
  get bs := fractions ((list nat).get bs)
  get_put l := by rw [(list nat).get_put, fractions_flatMap]

/-- Fractions. -/
def rat : Codec (List UInt8) ℚ :=
  ⟨fun q => rats.put [q], fun bs => (rats.get bs).headD 0, fun q => by rw [rats.get_put]; rfl⟩

/-- Ids. -/
def id : Codec (List UInt8) UInt32 :=
  ⟨fun v => nat.put v.toNat, fun bs => .ofNat (nat.get bs), fun v => by simp [nat.get_put]⟩

/-- Points. -/
def vec : Codec (List UInt8) (fbVec ℚ) where
  put v := rats.put [v.x, v.y, v.z]
  get bs := match rats.get bs with
    | [x, y, z] => ⟨x, y, z⟩
    | _ => default
  get_put v := by rw [rats.get_put]

/-- Entities. -/
def entityInfo : Codec (List UInt8) (EntityInfo ℚ UInt32) where
  put v := rats.put [v.pos.x, v.pos.y, v.pos.z, v.endpos.x, v.endpos.y, v.endpos.z, v.spd,
    v.table_id.toNat, v.entity_id.toNat, v.angle.toInt]
  get bs := match rats.get bs with
    | [x, y, z, x', y', z', spd, table_id, entity_id, angle] =>
      ⟨⟨x, y, z⟩, ⟨x', y', z'⟩, spd, .ofNat table_id.num.toNat, .ofNat entity_id.num.toNat,
        .ofInt angle.num⟩
    | _ => default
  get_put v := by
    rw [rats.get_put]
    simp

end ByteFormat

/-- The library with this format. -/
def FlatBuffers.plain : FlatBuffers ℚ where
  Raw := List UInt8
  ubyte := ⟨fun v => [v], fun bs => bs.headD 0, fun _ => rfl⟩
  short := ⟨fun v => ByteFormat.nat.put v.toUInt16.toNat,
    fun bs => (UInt16.ofNat (ByteFormat.nat.get bs)).toInt16, fun v => by simp [Codec.get_put]⟩
  ushort := ⟨fun v => ByteFormat.nat.put v.toNat, fun bs => .ofNat (ByteFormat.nat.get bs),
    fun v => by simp [Codec.get_put]⟩
  uint := ByteFormat.id
  float := ByteFormat.rat
  vec := ByteFormat.vec
  entityInfo := ByteFormat.entityInfo
  ubytes := ⟨fun v => v, fun bs => bs, fun _ => rfl⟩
  uints := ByteFormat.list ByteFormat.id
  entityInfos := ByteFormat.list ByteFormat.entityInfo
  table := ByteFormat.table

/-- The tables that are finished as buffers in this format. -/
def FlatBuffers.plainRoot : Codec (List UInt8) (Table FlatBuffers.plain.Raw) := ByteFormat.table

end ClientServer
