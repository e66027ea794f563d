import Mathlib.Data.List.Basic

/-!
# Tables with optional fields

What a FlatBuffers table is to the code that packs and reads it.  A table is a list of slots;
what a slot holds is *raw* data of which a reader has to know the type.  A `Codec` writes and
reads values of one type, and is only good for what it wrote itself: reading a slot as another
type gives whatever lies there.

Scalar fields equal to their default are not stored, nor are null pointers and empty vectors.

* `getField_addElement`, `getPointer_addPointer`, `getVector_addVector` : a field read as the
  type it was written as is the field.
-/

namespace ClientServer

/-- A way to write values of type `T` to a buffer and to read them back. -/
structure Codec (Raw T : Type*) where
  /-- The data of a value in the buffer. -/
  put : T → Raw
  /-- What is read where a `T` is expected. -/
  get : Raw → T
  get_put : ∀ v, get (put v) = v

/-- The slots of a table, `none` for an absent field. -/
abbrev Table (Raw : Type*) := List (Option Raw)

namespace Table

variable {Raw T : Type*} (c : Codec Raw T) (t : Table Raw) (i : ℕ)

/-- The data of slot `i`, if it is there. -/
def slot : Option Raw := (t[i]?).join

/-- `AddElement(slot, v, def)`: a default value is left out. -/
def addElement [DecidableEq T] (v dflt : T) : Option Raw :=
  if v = dflt then none else some (c.put v)

/-- `GetField(slot, def)`: an absent field has its default. -/
def getField (dflt : T) : T :=
  match t.slot i with
  | none => dflt
  | some raw => c.get raw

/-- `AddStruct`, `AddOffset`: a null pointer is left out. -/
def addPointer (v : Option T) : Option Raw := v.map c.put

/-- `GetStruct`, `GetPointer`: an absent field is a null pointer. -/
def getPointer : Option T := (t.slot i).map c.get

/-- A vector member: packed as a null offset when it is empty. -/
def addVector (c : Codec Raw (List T)) (v : List T) : Option Raw :=
  if v.length = 0 then none else some (c.put v)

/-- A vector member: left empty when the field is absent. -/
def getVector (c : Codec Raw (List T)) : List T :=
  match t.slot i with
  | none => []
  | some raw => c.get raw

variable {c t i}

theorem getField_addElement [DecidableEq T] {v dflt : T} (h : t.slot i = addElement c v dflt) :
    t.getField c i dflt = v := by
  rw [getField, h, addElement]
  split_ifs with hv
  · exact hv.symm
  · exact c.get_put v

theorem getPointer_addPointer {v : Option T} (h : t.slot i = addPointer c v) :
    t.getPointer c i = v := by
  rw [getPointer, h, addPointer, Option.map_map]
  cases v with
  | none => rfl
  | some v => exact congrArg some (c.get_put v)

theorem getVector_addVector {c : Codec Raw (List T)} {v : List T}
    (h : t.slot i = addVector c v) : t.getVector i c = v := by
  rw [getVector, h, addVector]
  split_ifs with hv
  · exact (List.length_eq_zero_iff.1 hv).symm
  · exact c.get_put v

end Table

end ClientServer
