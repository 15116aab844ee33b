import NLang.Library.Words

/-!
# Records of an image

`CompiledModuleRecords.h`, `TypeDesc.h` and `CompiledModule.h`: what a `.ncu` image holds of one unit, in the widths
of the source. Strings are byte strings. The payloads of float defaults are bit patterns.
-/

namespace NLang.Image
open NLang.Library.Words

abbrev Text := Bytes

def noIndex : UInt16 := 0xFFFF

inductive LeafKind where
  | int32 | float | string | boxed
  | byte | ubyte | short | ushort | uint32 | long | ulong | double | bool | char
  | typeParam | void | nonSerialized

inductive TypeDesc where
  | leaf (kind : LeafKind)
  | structRef (typeIdx : UInt16)
  | classRef (typeIdx : UInt16)
  | array (elem : TypeDesc) (rank : UInt8)
  | list (elem : TypeDesc)
  | dict (key value : TypeDesc)
  | func (params : List TypeDesc) (ret : TypeDesc)

instance : Inhabited TypeDesc := ⟨.leaf .nonSerialized⟩

structure ParamTypeDesc where
  type : TypeDesc := default
  flags : UInt8 := 0

namespace Rtk
def string : UInt8 := 2
def struct : UInt8 := 3
def cls : UInt8 := 4
def expr : UInt8 := 0xFB
def void : UInt8 := 0xFE
end Rtk

structure DefaultValueDesc where
  tag : UInt8 := Rtk.void
  intValue : UInt32 := 0
  floatValue : UInt32 := 0
  stringIdx : UInt32 := 0
  longValue : UInt64 := 0
  doubleValue : UInt64 := 0
  exprBytes : Bytes := []

structure LocalDescriptor where
  offset : UInt16 := 0
  size : UInt16 := 0
  isParam : UInt8 := 0
  typeKind : UInt8 := 0
  declPc : UInt16 := 0
  name : Text := []

structure TryBlock where
  startPc : UInt16 := 0
  endPc : UInt16 := 0
  handlerPc : UInt16 := 0
  exceptionClassIdx : UInt16 := noIndex
  catchLocalOff : UInt16 := 0

structure CompiledFunction where
  name : Text := []
  bytecode : Bytes := []
  locals : List LocalDescriptor := []
  localsSize : UInt16 := 0
  paramCount : UInt16 := 0
  returnTypeKind : UInt16 := 0
  intrinsicId : UInt16 := noIndex
  isNative : Bool := false
  isStatic : Bool := false
  defaultValues : List DefaultValueDesc := []
  tryBlocks : List TryBlock := []
  sourceFile : Text := []
  paramTypeDescs : List ParamTypeDesc := []
  returnTypeDesc : TypeDesc := default
  evalAreaHandleMask : Bytes := []

instance : Inhabited CompiledFunction := ⟨{}⟩

structure CompiledStruct where
  name : Text := []
  fieldCount : UInt16 := 0
  isConstAggregate : Bool := false
  fieldNames : List Text := []
  fieldTypeKinds : List UInt16 := []
  fieldStructIndices : List UInt16 := []
  fieldClassIndices : List UInt16 := []
  fieldTypeDescs : List TypeDesc := []
  constructorIndices : List UInt16 := []
  constructorAccess : List UInt8 := []
  fieldDefaults : List DefaultValueDesc := []

structure CompiledArrayType where
  elemKind : UInt8 := 0
  elemTypeIdx : UInt16 := noIndex
  rank : UInt8 := 1
  deriving DecidableEq

structure CompiledStaticSlot where
  name : Text := []
  ownerKey : Text := []
  ownerKind : UInt8 := 0
  isRuntimeConst : UInt8 := 0
  hasInitializer : UInt8 := 0
  type : TypeDesc := default

structure CompiledStaticField where
  name : Text := []
  type : TypeDesc := default
  access : UInt8 := 0
  isConst : Bool := false
  slotIdx : UInt16 := noIndex
  foldedValue : DefaultValueDesc := {}

structure CompiledClass where
  name : Text := []
  fieldCount : UInt16 := 0
  superClassIdx : Int16 := -1
  isConstAggregate : Bool := false
  fieldNames : List Text := []
  fieldTypeKinds : List UInt16 := []
  fieldStructIndices : List UInt16 := []
  fieldClassIndices : List UInt16 := []
  fieldAccess : List UInt8 := []
  fieldTypeDescs : List TypeDesc := []
  methodIndices : List UInt16 := []
  methodAccess : List UInt8 := []
  methodVirtual : List UInt8 := []
  constructorIndices : List UInt16 := []
  constructorAccess : List UInt8 := []
  staticFields : List CompiledStaticField := []
  staticInitFuncIdx : UInt16 := noIndex

structure CompiledInterfaceMethod where
  name : Text := []
  paramCount : UInt16 := 0
  paramTypeDescs : List ParamTypeDesc := []
  returnType : TypeDesc := default
  defaultValues : List DefaultValueDesc := []

structure CompiledInterfaceConstant where
  name : Text := []
  type : TypeDesc := default
  value : DefaultValueDesc := {}
  slotIdx : UInt16 := noIndex

structure CompiledInterface where
  name : Text := []
  staticMethodIndices : List UInt16 := []
  constants : List CompiledInterfaceConstant := []
  instanceMethods : List CompiledInterfaceMethod := []
  staticInitFuncIdx : UInt16 := noIndex

structure SymbolImport where
  modulePath : Text := []
  name : Text := []
  paramCount : UInt32 := 0
  ownerClassKey : Text := []
  isStatic : Bool := false
  ownerKind : UInt8 := 0
  ownerOrdinal : UInt16 := noIndex

structure CompiledModule where
  modulePath : Text := []
  name : Text := []
  functions : List CompiledFunction := []
  stringConstants : List Text := []
  structs : List CompiledStruct := []
  classes : List CompiledClass := []
  interfaces : List CompiledInterface := []
  arrayTypes : List CompiledArrayType := []
  enumNames : List (List Text) := []
  enumKeys : List Text := []
  enumMethodIndices : List (List UInt16) := []
  enumMethodAccess : List (List UInt8) := []
  staticSlots : List CompiledStaticSlot := []
  functionImports : List SymbolImport := []
  classImports : List SymbolImport := []
  structImports : List SymbolImport := []
  enumImports : List SymbolImport := []
  staticSlotImports : List SymbolImport := []
  entryPoint : Int32 := -1

namespace CompiledModule
variable (module : CompiledModule)

def ownFunctions : List CompiledFunction :=
  module.functions.take (module.functions.length - module.functionImports.length)

def ownClasses : List CompiledClass := module.classes.take (module.classes.length - module.classImports.length)

def ownStructs : List CompiledStruct := module.structs.take (module.structs.length - module.structImports.length)

def findFunction (name : Text) : Option Nat := module.functions.findIdx? (·.name = name)

def findClass (name : Text) : Option Nat := module.classes.findIdx? (·.name = name)

def findStruct (name : Text) : Option Nat := module.structs.findIdx? (·.name = name)

end CompiledModule

def accessPublic : UInt8 := 3

def dot : UInt8 := 46

def leafNameOfKey (key : Text) : Text := (key.reverse.takeWhile (· ≠ dot)).reverse

private theorem takeWhile_reverse_name {name : Text} (noDot : dot ∉ name) (rest : Text) :
    (name.reverse ++ rest).takeWhile (· ≠ dot) = name.reverse ++ rest.takeWhile (· ≠ dot) := by
  apply List.takeWhile_append_of_pos
  intro byte member
  have apart : byte ≠ dot := by
    rintro rfl
    exact noDot (List.mem_reverse.mp member)
  simpa using apart

theorem dot_notMem_leafNameOfKey (key : Text) : dot ∉ leafNameOfKey key := by
  intro present
  have before := List.all_eq_true.mp List.all_takeWhile dot (List.mem_reverse.mp present)
  simp at before

theorem leafNameOfKey_of_no_dot {name : Text} (noDot : dot ∉ name) : leafNameOfKey name = name := by
  have all := takeWhile_reverse_name noDot []
  rw [List.append_nil] at all
  rw [leafNameOfKey, all, List.takeWhile_nil, List.append_nil, List.reverse_reverse]

theorem leafNameOfKey_append (pkg : Text) {name : Text} (noDot : dot ∉ name) :
    leafNameOfKey (pkg ++ dot :: name) = name := by
  rw [leafNameOfKey, List.reverse_append, List.reverse_cons, List.append_assoc, takeWhile_reverse_name noDot]
  simp

end NLang.Image
