import ClientServer.Schema.FlatTable

/-!
# The tables of the schema

The structs and tables of `common.fbs`, `world.fbs` and `debug.fbs` as the generated code packs
and unpacks them, one namespace a table: `Pack` from the object the sender fills, `UnPack` to
the object the handler reads.  Both programs hold the same generated code.

`FlatBuffers F` is the library: for each type of the schema a codec.  A coordinate or speed is
an `F`, a float of which `0` and `-0` are one value.

* `UnPack_Pack` in each namespace : a table packed and unpacked as `T` is the table.
-/

namespace ClientServer

/-- `fbVec`. -/
structure fbVec (F : Type*) where
  x : F
  y : F
  z : F
  deriving DecidableEq, Inhabited

/-- `EntityInfo`, with entity ids of type `I`. -/
structure EntityInfo (F I : Type*) where
  pos : fbVec F
  endpos : fbVec F
  spd : F
  table_id : UInt32
  entity_id : I
  angle : Int16
  deriving DecidableEq, Inhabited

/-- `PacketId`, in the order of `packets.fbs`. -/
inductive PacketId
  | ChatReq | ChatAck | ChatNfy
  | EnterNeighborsNfy | LeaveNeighborsNfy | UpdateNeighborsNfy
  | MoveReq | MoveAck | MoveNfy
  | DashReq | DashAck | DashNfy
  | EnterWorldReq | EnterWorldAck
  | Debug3DPosition | DebugColliderReq | DebugColliderNfy
  deriving DecidableEq

/-- The FlatBuffers library, at the types of the schema. -/
structure FlatBuffers (F : Type*) where
  /-- What lies at one place of a buffer. -/
  Raw : Type
  ubyte : Codec Raw UInt8
  short : Codec Raw Int16
  ushort : Codec Raw UInt16
  uint : Codec Raw UInt32
  float : Codec Raw F
  vec : Codec Raw (fbVec F)
  entityInfo : Codec Raw (EntityInfo F UInt32)
  ubytes : Codec Raw (List UInt8)
  uints : Codec Raw (List UInt32)
  entityInfos : Codec Raw (List (EntityInfo F UInt32))
  table : Codec Raw (Table Raw)

/-- The values a buffer can hold, each with its type. -/
inductive RawValue (F : Type)
  | ubyte (v : UInt8)
  | short (v : Int16)
  | ushort (v : UInt16)
  | uint (v : UInt32)
  | float (v : F)
  | vec (v : fbVec F)
  | entityInfo (v : EntityInfo F UInt32)
  | ubytes (v : List UInt8)
  | uints (v : List UInt32)
  | entityInfos (v : List (EntityInfo F UInt32))
  | table (fields : List (Option (RawValue F)))

/-- A FlatBuffers library whose buffers keep the types: a read at another type gives a
default. -/
def FlatBuffers.typed (F : Type) [Inhabited F] : FlatBuffers F where
  Raw := RawValue F
  ubyte := ⟨.ubyte, fun | .ubyte v => v | _ => default, fun _ => rfl⟩
  short := ⟨.short, fun | .short v => v | _ => default, fun _ => rfl⟩
  ushort := ⟨.ushort, fun | .ushort v => v | _ => default, fun _ => rfl⟩
  uint := ⟨.uint, fun | .uint v => v | _ => default, fun _ => rfl⟩
  float := ⟨.float, fun | .float v => v | _ => default, fun _ => rfl⟩
  vec := ⟨.vec, fun | .vec v => v | _ => default, fun _ => rfl⟩
  entityInfo := ⟨.entityInfo, fun | .entityInfo v => v | _ => default, fun _ => rfl⟩
  ubytes := ⟨.ubytes, fun | .ubytes v => v | _ => [], fun _ => rfl⟩
  uints := ⟨.uints, fun | .uints v => v | _ => [], fun _ => rfl⟩
  entityInfos := ⟨.entityInfos, fun | .entityInfos v => v | _ => [], fun _ => rfl⟩
  table := ⟨.table, fun | .table v => v | _ => [], fun _ => rfl⟩

namespace Schema

open Table

variable {F : Type*} (fb : FlatBuffers F)

/-! ### Tables of one field -/

section OneField

variable {Raw T : Type*} (c : Codec Raw T)

/-- A table whose only field is a struct or a table behind a pointer. -/
def packPointer (v : Option T) : Table Raw := [addPointer c v]

/-- The object of such a table. -/
def unpackPointer (t : Table Raw) : Option T := t.getPointer c 0

@[simp] theorem unpackPointer_packPointer (v : Option T) :
    unpackPointer c (packPointer c v) = v := getPointer_addPointer rfl

variable [DecidableEq T]

/-- A table whose only field is a scalar. -/
def packScalar (v dflt : T) : Table Raw := [addElement c v dflt]

/-- The object of such a table. -/
def unpackScalar (dflt : T) (t : Table Raw) : T := t.getField c 0 dflt

@[simp] theorem unpackScalar_packScalar (v dflt : T) :
    unpackScalar c dflt (packScalar c v dflt) = v := getField_addElement rfl

end OneField

/-- `MoveReqT` is its `dest`. -/
def MoveReq.Pack (dest : Option (fbVec F)) : Table fb.Raw := packPointer fb.vec dest

/-- `MoveReq::UnPack`. -/
def MoveReq.UnPack (t : Table fb.Raw) : Option (fbVec F) := unpackPointer fb.vec t

/-- `EnterWorldAckT` is its `entity`. -/
def EnterWorldAck.Pack (entity : Option (EntityInfo F UInt32)) : Table fb.Raw :=
  packPointer fb.entityInfo entity

/-- `EnterWorldAck::UnPack`. -/
def EnterWorldAck.UnPack (t : Table fb.Raw) : Option (EntityInfo F UInt32) :=
  unpackPointer fb.entityInfo t

/-- `EnterNeighborsNfyT` is its `enter_entity`. -/
def EnterNeighborsNfy.Pack (enter_entity : Option (EntityInfo F UInt32)) : Table fb.Raw :=
  packPointer fb.entityInfo enter_entity

/-- `EnterNeighborsNfy::UnPack`. -/
def EnterNeighborsNfy.UnPack (t : Table fb.Raw) : Option (EntityInfo F UInt32) :=
  unpackPointer fb.entityInfo t

/-- `DashReqT` is its `dir`. -/
def DashReq.Pack (dir : Int16) : Table fb.Raw := packScalar fb.short dir 0

/-- `DashReq::UnPack`. -/
def DashReq.UnPack (t : Table fb.Raw) : Int16 := unpackScalar fb.short 0 t

/-- `MoveAckT` is its `error_code`, an `ErrorCode : ushort`. -/
def MoveAck.Pack (error_code : UInt16) : Table fb.Raw := packScalar fb.ushort error_code 0

/-- `MoveAck::UnPack`. -/
def MoveAck.UnPack (t : Table fb.Raw) : UInt16 := unpackScalar fb.ushort 0 t

/-- `DashAckT` is its `error_code`. -/
def DashAck.Pack (error_code : UInt16) : Table fb.Raw := packScalar fb.ushort error_code 0

/-- `DashAck::UnPack`. -/
def DashAck.UnPack (t : Table fb.Raw) : UInt16 := unpackScalar fb.ushort 0 t

/-- `LeaveNeighborsNfyT` is its `leave_entity`. -/
def LeaveNeighborsNfy.Pack (leave_entity : UInt32) : Table fb.Raw :=
  packScalar fb.uint leave_entity 0

/-- `LeaveNeighborsNfy::UnPack`. -/
def LeaveNeighborsNfy.UnPack (t : Table fb.Raw) : UInt32 := unpackScalar fb.uint 0 t

/-! ### Tables of several fields -/

/-- `DebugColliderReqT`. -/
structure DebugColliderReq where
  type : UInt8
  dir : Int16

namespace DebugColliderReq

/-- `DebugColliderReq::Pack`. -/
def Pack (o : DebugColliderReq) : Table fb.Raw :=
  [addElement fb.ubyte o.type 0, addElement fb.short o.dir 0]

/-- The accessors `type()` and `dir()`; the handler does not call `UnPack`. -/
def read (t : Table fb.Raw) : DebugColliderReq :=
  ⟨t.getField fb.ubyte 0 0, t.getField fb.short 1 0⟩

@[simp] theorem read_Pack (o : DebugColliderReq) : read fb (o.Pack fb) = o := by
  rw [read, getField_addElement rfl, getField_addElement rfl]

end DebugColliderReq

/-- `MoveNfyT`. -/
structure MoveNfy (F : Type*) where
  dest : Option (fbVec F)
  spd : F
  eid : UInt32

namespace MoveNfy

variable [Zero F] [DecidableEq F]

/-- `MoveNfy::Pack`. -/
def Pack (o : MoveNfy F) : Table fb.Raw :=
  [addPointer fb.vec o.dest, addElement fb.float o.spd 0, addElement fb.uint o.eid 0]

/-- `MoveNfy::UnPack`. -/
def UnPack (t : Table fb.Raw) : MoveNfy F :=
  ⟨t.getPointer fb.vec 0, t.getField fb.float 1 0, t.getField fb.uint 2 0⟩

@[simp] theorem UnPack_Pack (o : MoveNfy F) : UnPack fb (o.Pack fb) = o := by
  rw [UnPack, getPointer_addPointer (v := o.dest) rfl, getField_addElement (v := o.spd) rfl,
    getField_addElement (v := o.eid) rfl]

end MoveNfy

/-- `UpdateNeighborsNfyT`. -/
structure UpdateNeighborsNfy (F : Type*) where
  enter_entity : List (EntityInfo F UInt32)
  leave_entity : List UInt32

namespace UpdateNeighborsNfy

/-- `UpdateNeighborsNfy::Pack`. -/
def Pack (o : UpdateNeighborsNfy F) : Table fb.Raw :=
  [addVector fb.entityInfos o.enter_entity, addVector fb.uints o.leave_entity]

/-- `UpdateNeighborsNfy::UnPack`. -/
def UnPack (t : Table fb.Raw) : UpdateNeighborsNfy F :=
  ⟨t.getVector 0 fb.entityInfos, t.getVector 1 fb.uints⟩

@[simp] theorem UnPack_Pack (o : UpdateNeighborsNfy F) : UnPack fb (o.Pack fb) = o := by
  rw [UnPack, getVector_addVector (v := o.enter_entity) rfl,
    getVector_addVector (v := o.leave_entity) rfl]

end UpdateNeighborsNfy

/-- `DebugColliderInfoT`. -/
structure DebugColliderInfo (F : Type*) where
  type : UInt8
  center : Option (fbVec F)
  data : List UInt8

namespace DebugColliderInfo

/-- `DebugColliderInfo::Pack`. -/
def Pack (o : DebugColliderInfo F) : Table fb.Raw :=
  [addElement fb.ubyte o.type 0, addPointer fb.vec o.center, addVector fb.ubytes o.data]

/-- `DebugColliderInfo::UnPack`. -/
def UnPack (t : Table fb.Raw) : DebugColliderInfo F :=
  ⟨t.getField fb.ubyte 0 0, t.getPointer fb.vec 1, t.getVector 2 fb.ubytes⟩

@[simp] theorem UnPack_Pack (o : DebugColliderInfo F) : UnPack fb (o.Pack fb) = o := by
  rw [UnPack, getField_addElement rfl, getPointer_addPointer (v := o.center) rfl,
    getVector_addVector (v := o.data) rfl]

end DebugColliderInfo

/-- `DebugColliderNfyT` is its `collider`, a table of its own. -/
def DebugColliderNfy.Pack (collider : Option (DebugColliderInfo F)) : Table fb.Raw :=
  packPointer fb.table (collider.map fun o => o.Pack fb)

/-- `DebugColliderNfy::UnPack`. -/
def DebugColliderNfy.UnPack (t : Table fb.Raw) : Option (DebugColliderInfo F) :=
  (unpackPointer fb.table t).map (DebugColliderInfo.UnPack fb)

@[simp] theorem DebugColliderNfy.UnPack_Pack (collider : Option (DebugColliderInfo F)) :
    UnPack fb (Pack fb collider) = collider := by
  rw [UnPack, Pack, unpackPointer_packPointer, Option.map_map]
  cases collider with
  | none => rfl
  | some o => exact congrArg some (o.UnPack_Pack fb)

end Schema

end ClientServer
