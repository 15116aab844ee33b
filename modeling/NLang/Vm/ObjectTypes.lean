import NLang.Backend.Types
import NLang.Vm.ObjectGraph

/-!
# Declared types of object streams

The layout that the readers walk keeps a kind and an index for each field. The declared types say more: the element
type and the rank of an array field, and that a field of kind `int32` is an interface's.
-/

namespace NLang.Vm.ObjectStream
open NLang.Library.Words NLang.Backend

inductive FieldType where
  | scalar (kind : Rtk)
  | enum
  | string
  | struct (structIdx : Option Nat)
  | cls (classIdx : Option Nat)
  | func
  | typeParam
  | array (row : CompiledArrayType)
  | iface (index : Nat)

namespace FieldType

def declType : FieldType → DeclType
  | .scalar kind => .scalar kind
  | .enum => .enum
  | .string => .string
  | .struct structIdx => .struct (structIdx.getD 0xFFFF)
  | .cls _ => .cls
  | .func => .func
  | .typeParam => .typeParam
  | .array _ => .array
  | .iface _ => .iface

def entry (type : FieldType) : FieldEntry :=
  { kind := runtimeTypeKind type.declType
    structIdx := match type with
      | .struct structIdx => structIdx
      | _ => none
    classIdx := match type with
      | .cls classIdx => classIdx
      | _ => none }

def element (elemKind : Rtk) (elemTypeIdx : Option Nat) : FieldType :=
  match elemKind with
  | .struct => .struct elemTypeIdx
  | .string => .string
  | kind => .scalar kind

end FieldType

structure TypedTables where
  tables : Tables
  structTypes : Nat → List FieldType
  classTypes : Nat → List FieldType
  implements : Nat → Nat → Bool
  structs_entry : ∀ s row, tables.structs[s]? = some row → row.fields = (structTypes s).map FieldType.entry
  classes_entry : ∀ c row, tables.classes[c]? = some row → row.fields = (classTypes c).map FieldType.entry

inductive RunType where
  | cls (classIdx : Nat)
  | array (arrayTypeIdx : Nat)

def Record.runType : Record → RunType
  | .object classIdx _ => .cls classIdx
  | .array arrayTypeIdx _ _ => .array arrayTypeIdx
  | .view arrayTypeIdx _ _ _ _ => .array arrayTypeIdx

def runTypes (records : Records) (i : Nat) : Option RunType := (recordAt records i).map Record.runType

section Conformance
variable (typed : TypedTables) (types : Nat → Option RunType)

def AssignableToClass (declared : Nat) : RunType → Prop
  | .cls classIdx => typed.tables.superWithin (typed.tables.classes.length + 1) classIdx declared = true
  | .array _ => typed.tables.objectRootClassIdx = some declared

inductive Conforms : FieldType → Value → Prop where
  | scalar {type : FieldType} {bytes : Bytes} (plain : type.declType ≠ .iface)
      (width : type.entry.kind.scalarWidth = some bytes.length) : Conforms type (.scalar bytes)
  | string {text : Bytes} : Conforms .string (.str text)
  | struct {structIdx : Nat} {fields : List Value} (conform : List.Forall₂ Conforms (typed.structTypes structIdx) fields) :
      Conforms (.struct (some structIdx)) (.struct fields)
  | nullClass {declared : Nat} : Conforms (.cls (some declared)) (.ref 0)
  | object {declared i : Nat} {type : RunType} (at_i : types i = some type)
      (assignable : AssignableToClass typed declared type) : Conforms (.cls (some declared)) (.ref i)
  | boxed {declared : Nat} {kind : Rtk} {payload : Bytes} (top : typed.tables.objectRootClassIdx = some declared)
      (fits : BoxFits kind payload) : Conforms (.cls (some declared)) (.boxed kind payload)
  | nullArray {row : CompiledArrayType} : Conforms (.array row) (.ref 0)
  | array {row : CompiledArrayType} {i arrayTypeIdx : Nat} (at_i : types i = some (.array arrayTypeIdx))
      (same : typed.tables.arrayTypes[arrayTypeIdx]? = some row) : Conforms (.array row) (.ref i)
  | nullInterface {index : Nat} {bytes : Bytes} (width : bytes.length = 4) (null : wordOf bytes = 0) :
      Conforms (.iface index) (.scalar bytes)
  | implementer {index classIdx : Nat} {bytes : Bytes} (width : bytes.length = 4)
      (at_i : types (wordOf bytes) = some (.cls classIdx)) (implements : typed.implements classIdx index = true) :
      Conforms (.iface index) (.scalar bytes)

inductive RecordConforms : Record → Prop where
  | object {classIdx : Nat} {fields : List Value}
      (conform : List.Forall₂ (Conforms typed types) (typed.classTypes classIdx) fields) :
      RecordConforms (.object classIdx fields)
  | array {arrayTypeIdx : Nat} {row : CompiledArrayType} {dims : List Int} {elements : List Value}
      (at_row : typed.tables.arrayTypes[arrayTypeIdx]? = some row) (rank : dims.length = row.rank)
      (count : validateArrayDims dims = some (elements.length : Int))
      (conform : ∀ element ∈ elements, Conforms typed types (.element row.elemKind row.elemTypeIdx) element) :
      RecordConforms (.array arrayTypeIdx dims elements)

end Conformance

end NLang.Vm.ObjectStream
