import ClientServer.Data.Memory
import ClientServer.Schema.Tables
import Mathlib.Data.List.TakeDrop

/-!
# Debug colliders

On a `DebugColliderReq` the server makes a `Collider` of the type that is asked for, and sends it to
the clients around: the memory of its shape as a vector of bytes.  The clients copy these bytes back
into a `Collider`.  The type is a byte from the network on both sides.  What the server does not set
holds anything, and so does the padding.  The floats of a shape are taken by their bits.

* `DebugSystem.createCollider`, `DebugSystem.serializeDebugCollider`,
  `DebugSystem.recvDebugColliderNfy` : the functions.
* `DebugSystem.activeShape_createCollider` : the collider of a type that there is.
* `DebugSystem.recv_pack` : the client undoes the packing.
* `DebugSystem.map_pack_recv_iff` : when the client gets the data that were sent.
* `DebugSystem.debugCollider_iff` : **exactly when the codec is right**, on both sides.
-/

namespace ClientServer

/-- The types of `ColliderType` that have a shape. -/
inductive ColliderType
  | Circle
  | Sector
  | AABB
  | OBB
  | Ray
  deriving DecidableEq

namespace ColliderType

/-- The value of the enumerator. -/
def byte : ColliderType → UInt8
  | .Circle => 1
  | .Sector => 2
  | .AABB => 3
  | .OBB => 4
  | .Ray => 5

/-- The case of a `switch` that a byte comes to. -/
def ofByte (b : UInt8) : Option ColliderType :=
  [Circle, Sector, AABB, OBB, Ray].find? fun t => t.byte = b

/-- `sizeof(CircleInfo)`, …: in `OBBInfo` and `RayInfo` there are two bytes after the `short`. -/
def sizeof : ColliderType → ℕ
  | .Circle => 4
  | .Sector => 8
  | .AABB => 8
  | .OBB => 12
  | .Ray => 8

/-- How many bytes of data go with a type: none with one that has no shape. -/
def dataSize (b : UInt8) : ℕ := ((ofByte b).map sizeof).getD 0

@[simp] theorem ofByte_byte (t : ColliderType) : ofByte t.byte = some t := by
  cases t <;> decide

theorem byte_of_ofByte {b : UInt8} {t : ColliderType} (h : ofByte b = some t) : t.byte = b := by
  simpa using List.find?_some h

end ColliderType

/-- The fields of a shape. -/
inductive Shape
  | circle (r : UInt32)
  | sector (dir half_angle : Int16) (r : UInt32)
  | aabb (hx hy : UInt32)
  | obb (dir : Int16) (hw hl : UInt32)
  | ray (dir : Int16) (length : UInt32)
  deriving DecidableEq

variable {F : Type*}

/-- `Collider`, with the memory of its union. -/
structure Collider (F : Type*) where
  center : fbVec F
  type : UInt8
  shape : Memory

namespace Collider

/-- A `float` of the union. -/
def float (c : Collider F) (off : ℕ) : UInt32 := uint32OfBytes (c.shape.read off 4)

/-- A `short` of the union. -/
def short (c : Collider F) (off : ℕ) : Int16 := int16OfBytes (c.shape.read off 2)

/-- The fields of the union that go with the type. -/
def activeShape (c : Collider F) : Option Shape :=
  match ColliderType.ofByte c.type with
  | some .Circle => some (.circle (c.float 0))
  | some .Sector => some (.sector (c.short 0) (c.short 2) (c.float 4))
  | some .AABB => some (.aabb (c.float 0) (c.float 4))
  | some .OBB => some (.obb (c.short 0) (c.float 4) (c.float 8))
  | some .Ray => some (.ray (c.short 0) (c.float 4))
  | none => none

/-- Assign a `float` of the union. -/
def setFloat (c : Collider F) (off : ℕ) (x : UInt32) : Collider F :=
  { c with shape := c.shape.write off (bytesUInt32 x) }

/-- Assign a `short` of the union. -/
def setShort (c : Collider F) (off : ℕ) (x : Int16) : Collider F :=
  { c with shape := c.shape.write off (bytesInt16 x) }

variable {c c' : Collider F} {off off' : ℕ} {x : UInt32} {i : Int16} {t : ColliderType}

@[simp] theorem type_setFloat : (c.setFloat off x).type = c.type := rfl

@[simp] theorem type_setShort : (c.setShort off i).type = c.type := rfl

@[simp] theorem center_setFloat : (c.setFloat off x).center = c.center := rfl

@[simp] theorem center_setShort : (c.setShort off i).center = c.center := rfl

@[simp] theorem float_setFloat : (c.setFloat off x).float off = x := by
  simp only [float, setFloat, Memory.read_write (length_bytesUInt32 x), ofBytes_bytesUInt32]

@[simp] theorem short_setShort : (c.setShort off i).short off = i := by
  simp only [short, setShort, Memory.read_write (length_bytesInt16 i), ofBytes_bytesInt16]

theorem float_setFloat_of_disjoint (h : off' + 4 ≤ off ∨ off + 4 ≤ off') :
    (c.setFloat off x).float off' = c.float off' := by
  rw [float, setFloat, Memory.read_write_of_disjoint (by simpa using h), float]

theorem short_setFloat_of_disjoint (h : off' + 2 ≤ off ∨ off + 4 ≤ off') :
    (c.setFloat off x).short off' = c.short off' := by
  rw [short, setFloat, Memory.read_write_of_disjoint (by simpa using h), short]

theorem short_setShort_of_disjoint (h : off' + 2 ≤ off ∨ off + 2 ≤ off') :
    (c.setShort off i).short off' = c.short off' := by
  rw [short, setShort, Memory.read_write_of_disjoint (by simpa using h), short]

/-- The fields of a shape are read off its first bytes, and the padding does not matter. -/
theorem activeShape_congr (ht : ColliderType.ofByte c.type = some t) (htype : c'.type = c.type)
    (h : ∀ off n, off + n ≤ t.sizeof → c'.shape.read off n = c.shape.read off n) :
    c'.activeShape = c.activeShape := by
  have hfloat : ∀ off, off + 4 ≤ t.sizeof → c'.float off = c.float off := fun off hoff => by
    rw [float, h off 4 hoff, float]
  have hshort : ∀ off, off + 2 ≤ t.sizeof → c'.short off = c.short off := fun off hoff => by
    rw [short, h off 2 hoff, short]
  rw [activeShape, activeShape, htype, ht]
  cases t with
  | Circle => simp [hfloat 0 (by decide)]
  | Sector => simp [hshort 0 (by decide), hshort 2 (by decide), hfloat 4 (by decide)]
  | AABB => simp [hfloat 0 (by decide), hfloat 4 (by decide)]
  | OBB => simp [hshort 0 (by decide), hfloat 4 (by decide), hfloat 8 (by decide)]
  | Ray => simp [hshort 0 (by decide), hfloat 4 (by decide)]

theorem activeShape_center (v : fbVec F) :
    ({ c with center := v } : Collider F).activeShape = c.activeShape := rfl

end Collider

/-- A row of the debug table. -/
structure DebugRow where
  half_width : UInt32
  half_length : UInt32
  half_angle : Int16

/-- The shape that a request for a type asks for. -/
def DebugRow.shape (row : DebugRow) (dir : Int16) : ColliderType → Shape
  | .Circle => .circle row.half_length
  | .Sector => .sector dir row.half_angle row.half_length
  | .AABB => .aabb row.half_width row.half_length
  | .OBB => .obb dir row.half_width row.half_length
  | .Ray => .ray dir row.half_length

/-- `DebugColliderInfo`. -/
structure DebugColliderInfo (F : Type*) where
  type : UInt8
  center : fbVec F
  data : List UInt8

namespace DebugSystem

-- `center.v2 += BBMath::DirLength(dir, length).v2` is arithmetic on floats, and a parameter.
variable (addDirLength : fbVec F → Int16 → UInt32 → fbVec F) (debug : ℕ → Option DebugRow)

/-- `CreateCollider(dir, center, type)`.  `uninit` is the collider that is declared, with anything in
it; without a row of the table `at` throws. -/
def createCollider (uninit : Collider F) (dir : Int16) (center : fbVec F) (type : UInt8) :
    Option (Collider F) :=
  let collider := { uninit with center := center }
  match ColliderType.ofByte type with
  | none => some collider
  | some t =>
    (debug type.toNat).map fun row =>
      let collider := { collider with type := t.byte }
      match t with
      | .Circle => collider.setFloat 0 row.half_length
      | .Sector =>
        ((collider.setShort 0 dir).setShort 2 row.half_angle).setFloat 4 row.half_length
      | .AABB => (collider.setFloat 0 row.half_width).setFloat 4 row.half_length
      | .OBB =>
        let collider := ((collider.setShort 0 dir).setFloat 4 row.half_width).setFloat 8
          row.half_length
        { collider with center := addDirLength center dir row.half_length }
      | .Ray => (collider.setShort 0 dir).setFloat 4 row.half_length

/-- The second half of `SerializeDebugCollider`. -/
def pack (col : Collider F) : DebugColliderInfo F where
  type := col.type
  center := col.center
  data :=
    match ColliderType.ofByte col.type with
    | some t => col.shape.read 0 t.sizeof
    | none => []

/-- `SerializeDebugCollider(center, type, dir)`. -/
def serializeDebugCollider (uninit : Collider F) (center : fbVec F) (type : UInt8) (dir : Int16) :
    Option (DebugColliderInfo F) :=
  (createCollider addDirLength debug uninit dir center type).map pack

/-- What `CreateDebugColliderObject` sends, if the entity has a position. -/
def createDebugColliderObject (uninit : Collider F) (tf : Option (fbVec F)) (dir : Int16)
    (type : UInt8) : Option (DebugColliderInfo F) :=
  tf.bind fun v => serializeDebugCollider addDirLength debug uninit v type dir

/-- `Recv_DebugColliderNfy` of the client, over anything in the union: `none` if it reads behind the
data. -/
def recvDebugColliderNfy (uninit : Memory) (info : DebugColliderInfo F) : Option (Collider F) :=
  match ColliderType.ofByte info.type with
  | some t => (uninit.memmove info.data t.sizeof).map fun shape => ⟨info.center, info.type, shape⟩
  | none => some ⟨info.center, info.type, uninit⟩

variable {addDirLength debug} {uninit col : Collider F} {dir : Int16} {center : fbVec F}
  {type : UInt8} {t : ColliderType} {row : DebugRow}

/-- **The collider of a type that there is** has the centre and the fields that the request and the
table say, whatever was in it. -/
theorem activeShape_createCollider (ht : ColliderType.ofByte type = some t)
    (hrow : debug type.toNat = some row) :
    ∃ col, createCollider addDirLength debug uninit dir center type = some col ∧ col.type = type ∧
      col.center = (if t = .OBB then addDirLength center dir row.half_length else center) ∧
      col.activeShape = some (row.shape dir t) := by
  obtain rfl := ColliderType.byte_of_ofByte ht
  rw [createCollider, ht, hrow]
  refine ⟨_, rfl, ?_⟩
  cases t with
  | Circle => exact ⟨rfl, by simp, by simp [Collider.activeShape, DebugRow.shape]⟩
  | Sector =>
    refine ⟨rfl, by simp, ?_⟩
    simp (disch := omega) [Collider.activeShape, DebugRow.shape,
      Collider.short_setFloat_of_disjoint, Collider.short_setShort_of_disjoint]
  | AABB =>
    refine ⟨rfl, by simp, ?_⟩
    simp (disch := omega) [Collider.activeShape, DebugRow.shape,
      Collider.float_setFloat_of_disjoint]
  | OBB =>
    refine ⟨rfl, rfl, ?_⟩
    rw [Collider.activeShape_center]
    simp (disch := omega) [Collider.activeShape, DebugRow.shape,
      Collider.short_setFloat_of_disjoint, Collider.float_setFloat_of_disjoint]
  | Ray =>
    refine ⟨rfl, by simp, ?_⟩
    simp (disch := omega) [Collider.activeShape, DebugRow.shape,
      Collider.short_setFloat_of_disjoint]

/-- Without such a type the collider keeps the one it happened to have. -/
theorem createCollider_of_none (ht : ColliderType.ofByte type = none) :
    createCollider addDirLength debug uninit dir center type =
      some { uninit with center := center } := by
  rw [createCollider, ht]

/-- **The client gets back the collider that was packed.** -/
theorem recv_pack (mem : Memory) (ht : ColliderType.ofByte col.type = some t) :
    (pack col).data.length = t.sizeof ∧
      ∃ col', recvDebugColliderNfy mem (pack col) = some col' ∧ col'.type = col.type ∧
        col'.center = col.center ∧ col'.activeShape = col.activeShape := by
  have hdata : (pack col).data = col.shape.read 0 t.sizeof := by rw [pack, ht]
  have hlen : (pack col).data.length = t.sizeof := by rw [hdata, Memory.length_read]
  have htake : (pack col).data.take t.sizeof = col.shape.read 0 t.sizeof := by
    rw [List.take_of_length_le hlen.le, hdata]
  refine ⟨hlen, ⟨col.center, col.type, mem.write 0 (col.shape.read 0 t.sizeof)⟩, ?_, rfl, rfl, ?_⟩
  · rw [recvDebugColliderNfy, show (pack col).type = col.type from rfl, ht]
    simp only [Memory.memmove, if_pos hlen.ge, htake, Option.map_some]
    rfl
  · exact Collider.activeShape_congr ht rfl fun off n h => Memory.read_memmove h

theorem length_data_pack (col : Collider F) :
    (pack col).data.length = ColliderType.dataSize (pack col).type := by
  unfold pack ColliderType.dataSize
  cases ColliderType.ofByte col.type <;> simp

/-- **The client gets the data that were sent** iff they are as many as go with the type. -/
theorem map_pack_recv_iff (mem : Memory) (info : DebugColliderInfo F) :
    (recvDebugColliderNfy mem info).map pack = some info ↔
      info.data.length = ColliderType.dataSize info.type := by
  obtain ⟨type, center, data⟩ := info
  unfold recvDebugColliderNfy ColliderType.dataSize
  cases ht : ColliderType.ofByte type with
  | none => simp [pack, ht, eq_comm]
  | some t =>
    by_cases hlen : t.sizeof ≤ data.length
    · have hread : (mem.write 0 (data.take t.sizeof)).read 0 t.sizeof = data.take t.sizeof :=
        Memory.read_write (List.length_take_of_le hlen)
      have htake : data.take t.sizeof = data ↔ data.length = t.sizeof :=
        (List.take_eq_self_iff data).trans ⟨fun hle => le_antisymm hle hlen, le_of_eq⟩
      simpa [Memory.memmove, hlen, pack, ht, hread] using htake
    · have hne : data.length ≠ t.sizeof := by omega
      simp [Memory.memmove, hlen, hne]

/-- The client reads behind the data exactly when the data are too short for the type. -/
theorem recvDebugColliderNfy_isSome {mem : Memory} {info : DebugColliderInfo F} :
    (recvDebugColliderNfy mem info).isSome ↔
      ∀ t, ColliderType.ofByte info.type = some t → t.sizeof ≤ info.data.length := by
  rw [recvDebugColliderNfy]
  cases ht : ColliderType.ofByte info.type with
  | none => simp
  | some t => simp [Memory.memmove, Option.isSome_iff_exists]

/-- What is sent for a request is a shape that there is, with as many bytes as it has, and every
client gets the collider of the server back. -/
def SentRight (addDirLength : fbVec F → Int16 → UInt32 → fbVec F)
    (debug : ℕ → Option DebugRow) (tf : Option (fbVec F)) (dir : Int16) (type : UInt8)
    (uninit : Collider F) : Prop :=
  ∀ info, createDebugColliderObject addDirLength debug uninit tf dir type = some info →
    ∃ t col, ColliderType.ofByte info.type = some t ∧ info.data.length = t.sizeof ∧
      (tf.bind fun v => createCollider addDirLength debug uninit dir v type) = some col ∧
      ∀ mem, ∃ col', recvDebugColliderNfy mem info = some col' ∧ col'.type = col.type ∧
        col'.center = col.center ∧ col'.activeShape = col.activeShape

theorem sentRight_of_isSome {tf : Option (fbVec F)}
    (h : (ColliderType.ofByte type).isSome) : SentRight addDirLength debug tf dir type uninit := by
  intro info hsent
  obtain ⟨t, ht⟩ := Option.isSome_iff_exists.1 h
  obtain ⟨v, rfl, hser⟩ := Option.bind_eq_some_iff.1 hsent
  obtain ⟨col, hcol, rfl⟩ := Option.map_eq_some_iff.1 hser
  cases hrow : debug type.toNat with
  | none =>
    rw [createCollider, ht, hrow] at hcol
    cases hcol
  | some row =>
    have hmade : ∃ col', createCollider addDirLength debug uninit dir v type = some col' ∧
        col'.type = type ∧
        col'.center = (if t = .OBB then addDirLength v dir row.half_length else v) ∧
        col'.activeShape = some (row.shape dir t) :=
      activeShape_createCollider ht hrow
    obtain ⟨col', hcol', htype, -, -⟩ := hmade
    obtain rfl := Option.some.inj (hcol.symm.trans hcol')
    have htcol : ColliderType.ofByte col.type = some t := by rw [htype, ht]
    exact ⟨t, col, htcol, (recv_pack (fun _ => 0) htcol).1, hcol, fun mem => (recv_pack mem htcol).2⟩

/-- **When the codec is right.**  For every request: if nothing is sent or the type is one that has
a shape.  For every notification: if the data are not too short for the type. -/
theorem debugCollider_iff (addDirLength : fbVec F → Int16 → UInt32 → fbVec F)
    (debug : ℕ → Option DebugRow) :
    (∀ tf dir type, (∀ uninit, SentRight addDirLength debug tf dir type uninit) ↔
      tf = none ∨ (ColliderType.ofByte type).isSome) ∧
    ∀ info : DebugColliderInfo F, (∀ mem, (recvDebugColliderNfy mem info).isSome) ↔
      ∀ t, ColliderType.ofByte info.type = some t → t.sizeof ≤ info.data.length := by
  refine ⟨fun tf dir type => ⟨fun h => ?_, ?_⟩, fun info => ?_⟩
  · cases tf with
    | none => exact .inl rfl
    | some v =>
      refine .inr (Option.isSome_iff_ne_none.2 fun hnone => ?_)
      -- the collider that is declared may have the type `None`
      obtain ⟨t, -, ht, -⟩ := h ⟨v, 0, fun _ => 0⟩ (pack ⟨v, 0, fun _ => 0⟩)
        (by rw [createDebugColliderObject, Option.bind_some, serializeDebugCollider,
              createCollider_of_none hnone, Option.map_some])
      revert ht
      simp [pack, show ColliderType.ofByte 0 = none by decide]
  · rintro (rfl | hsome) uninit
    · exact fun info hsent => by cases hsent
    · exact sentRight_of_isSome hsome
  · exact ⟨fun h => recvDebugColliderNfy_isSome.1 (h fun _ => 0),
      fun h mem => recvDebugColliderNfy_isSome.2 h⟩

/-- The type 0 is sent as it is, and a circle without data is read. -/
theorem debugCollider_none_type :
    (¬∀ addDirLength debug (tf : Option (fbVec UInt32)) dir type uninit,
      SentRight addDirLength debug tf dir type uninit) ∧
    ¬∀ mem (info : DebugColliderInfo UInt32), (recvDebugColliderNfy mem info).isSome := by
  constructor
  · intro h
    obtain ⟨t, -, ht, -⟩ := h (fun v _ _ => v) (fun _ => none) (some ⟨0, 0, 0⟩) 0 0
      ⟨⟨0, 0, 0⟩, 0, fun _ => 0⟩ ⟨0, ⟨0, 0, 0⟩, []⟩ rfl
    cases ht
  · intro h
    exact Bool.false_ne_true (h (fun _ => 0) ⟨1, ⟨0, 0, 0⟩, []⟩)

end DebugSystem

end ClientServer
