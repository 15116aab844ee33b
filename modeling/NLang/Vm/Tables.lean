import Mathlib

/-!
# Kinds and type tables

The runtime kinds (`CompiledModuleRecords.h`, `PrimitiveTypes.h`) and the parts of a compiled module
that the heap reads: struct, class and array rows. An index that the source may leave at `0xFFFF`
(or a superclass at `-1`) is an `Option`.
-/

namespace NLang.Vm

inductive Rtk where
  | int32 | float | string | struct | cls | array | boxed | func | list | dict
  | byte | ubyte | short | ushort | uint32 | long | ulong | double | bool | char
  | typeParam | arrayView | void
  deriving DecidableEq

/-- `kScalarPrims[..].slotWidth` of the scalar rows; `none` off the scalar table. -/
def Rtk.scalarWidth : Rtk → Option Nat
  | .int32 | .float | .uint32 | .bool | .char => some 4
  | .byte | .ubyte => some 1
  | .short | .ushort => some 2
  | .long | .ulong | .double => some 8
  | _ => none

def arrayElemCells (elemKind : Rtk) : Nat := if elemKind.scalarWidth = some 8 then 2 else 1

structure FieldEntry where
  kind : Rtk
  structIdx : Option Nat := none
  classIdx : Option Nat := none
  deriving DecidableEq

structure CompiledStruct where
  fields : List FieldEntry

structure CompiledClass where
  name : String
  superClassIdx : Option Nat := none
  fields : List FieldEntry := []

structure CompiledArrayType where
  elemKind : Rtk
  elemTypeIdx : Option Nat := none
  rank : Nat := 1
  deriving DecidableEq

def structFields (fields : List FieldEntry) : List (Nat × Nat) :=
  fields.zipIdx.filterMap fun (field, i) =>
    match field.kind, field.structIdx with
    | .struct, some structIdx => some (i, structIdx)
    | _, _ => none

structure TypeTables where
  structs : List CompiledStruct
  classes : List CompiledClass
  arrayTypes : List CompiledArrayType
  depth : Nat → Nat
  depth_lt : ∀ s structRow, structs[s]? = some structRow →
    ∀ field ∈ structFields structRow.fields, depth field.2 < depth s

namespace TypeTables

theorem depth_lt_nil (s : Nat) (structRow : CompiledStruct) (row : ([] : List CompiledStruct)[s]? = some structRow) :
    ∀ field ∈ structFields structRow.fields, 0 < 0 := by cases row

theorem depth_lt_int32 (s : Nat) (structRow : CompiledStruct)
    (row : ([⟨[{ kind := .int32 }]⟩] : List CompiledStruct)[s]? = some structRow) :
    ∀ field ∈ structFields structRow.fields, 0 < 0 := by
  cases s with
  | zero =>
    cases row
    exact List.forall_mem_nil _
  | succ s => cases row

variable (tables : TypeTables)

def structRow (s : Nat) : CompiledStruct := tables.structs.getD s ⟨[]⟩

def nestedCells (s : Nat) : List (Nat × Nat) :=
  (structFields (tables.structRow s).fields).map fun (i, structIdx) => (2 * i, structIdx)

theorem depth_nestedCells {s : Nat} {cell : Nat × Nat} (member : cell ∈ tables.nestedCells s) :
    tables.depth cell.2 < tables.depth s := by
  obtain ⟨⟨i, structIdx⟩, inFields, rfl⟩ := List.mem_map.mp member
  cases row : tables.structs[s]? with
  | none => simp [structRow, List.getD, row, structFields] at inFields
  | some structRow =>
    refine tables.depth_lt s structRow row (i, structIdx) ?_
    simpa [TypeTables.structRow, List.getD, row] using inFields

/-- `VmClassLayout::Build`: the fields of the superclass chain, base first. `none` is the corrupt-chain
error. -/
def layoutWithin (classes : List CompiledClass) : Nat → Nat → Option (List FieldEntry)
  | 0, _ => none
  | bound+1, c =>
    match classes[c]? with
    | none => none
    | some row =>
      match row.superClassIdx with
      | none => some row.fields
      | some base => (layoutWithin classes bound base).map (· ++ row.fields)

def classFields (c : Nat) : List FieldEntry :=
  (layoutWithin tables.classes tables.classes.length c).getD []

def ownedCells (c : Nat) : List (Nat × Nat) :=
  (structFields (tables.classFields c)).map fun (i, structIdx) => (2 * i + 1, structIdx)

end TypeTables

end NLang.Vm
