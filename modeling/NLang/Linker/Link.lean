import NLang.Linker.Remap
import NLang.Linker.FunctionSlots
import NLang.Library.KeyedMerge
import NLang.Library.OwnedRows

/-!
# Linking

`src/vm/NcuLinker.cpp`, `NcuLinkerInterfaces.cpp` and `NcuLinkerSlots.cpp`: the units of a closure become one module.
Pass A merges the own rows of their tables, pass B binds the import slots, pass C converts every row by the index maps
of the unit that supplied it. The tables do not depend on one another, so each is merged over all units at once.
-/

namespace NLang.Linker
open NLang.Library NLang.Library.Words NLang.Library.KeyedMerge NLang.Image NLang.Vm

inductive UnresolvedSlot where
  | function (unit : Text) (imp : SymbolImport) (problem : SlotProblem)
  | type (unit : Text) (table : Table) (imp : SymbolImport)
  | staticSlot (unit : Text) (imp : SymbolImport) (notInClosure : Bool)

inductive LinkError where
  | emptyClosure
  | noModulePath
  | duplicateModulePath (path : Text)
  | divergingEnums (path : Text)
  | divergingEnumMethods (path : Text)
  | excessImports (path : Text) (table : Table)
  | structDefaults (name : Text)
  | structConstructor (name : Text) (index : UInt16)
  | unresolved (problems : List UnresolvedSlot)
  | noMapping (index : Nat)
  | malformedDefault (context : Text)
  | operand (function : Text) (error : RemapError)
  | noEntry (key : Text)

def excessTable (u : CompiledModule) : Option Table :=
  if u.functions.length < u.functionImports.length then some .functions
  else if u.classes.length < u.classImports.length then some .classes
  else if u.structs.length < u.structImports.length then some .structs
  else if u.enumNames.length < u.enumImports.length then some .enums
  else if u.staticSlots.length < u.staticSlotImports.length then some .slots
  else none

def validateUnit (u : CompiledModule) : Except LinkError Unit :=
  if u.enumKeys.length ≠ u.enumNames.length then .error (.divergingEnums u.modulePath)
  else if u.enumMethodIndices.length ≠ u.enumNames.length ∨ u.enumMethodAccess.length ≠ u.enumNames.length then
    .error (.divergingEnumMethods u.modulePath)
  else match excessTable u with
    | some table => .error (.excessImports u.modulePath table)
    | none => .ok ()

def validateUnits : List CompiledModule → List Text → Except LinkError Unit
  | [], _ => .ok ()
  | u :: units, paths =>
    if u.modulePath = [] then .error .noModulePath
    else if u.modulePath ∈ paths then .error (.duplicateModulePath u.modulePath)
    else match validateUnit u with
      | .error error => .error error
      | .ok _ => validateUnits units (u.modulePath :: paths)

def validateClosure (units : List CompiledModule) : Except LinkError Unit :=
  if units = [] then .error .emptyClosure else validateUnits units []

structure EnumRow where
  key : Text
  names : List Text
  methodIndices : List UInt16
  methodAccess : List UInt8

def ownEnums (u : CompiledModule) : List EnumRow :=
  let rows := (u.enumKeys.zip u.enumNames).zip (u.enumMethodIndices.zip u.enumMethodAccess)
  (rows.take (u.enumKeys.length - u.enumImports.length)).map fun ((key, names), methodIndices, methodAccess) =>
    { key, names, methodIndices, methodAccess }

def ownStaticSlots (u : CompiledModule) : List CompiledStaticSlot :=
  u.staticSlots.take (u.staticSlots.length - u.staticSlotImports.length)

def firstStays {α : Type} (_ _ : α) : Bool := false

def mergeStrings (units : List CompiledModule) : MergedTable Text :=
  mergeUnits some firstStays (units.map (·.stringConstants))

def mergeClasses (units : List CompiledModule) : MergedTable CompiledClass :=
  mergeUnits (fun row => some row.name) firstStays (units.map (·.ownClasses))

def checkStruct (u : CompiledModule) (st : CompiledStruct) : Except LinkError Unit :=
  if st.fieldDefaults.length ≠ st.fieldCount.toNat then .error (.structDefaults st.name)
  else match st.constructorIndices.find? fun ci => decide (u.functions.length - u.functionImports.length ≤ ci.toNat) with
    | some ci => .error (.structConstructor st.name ci)
    | none => .ok ()

def checkStructs (units : List CompiledModule) : Except LinkError Unit :=
  units.forM fun u => u.ownStructs.forM (checkStruct u)

def mergeStructs (units : List CompiledModule) : MergedTable CompiledStruct :=
  mergeUnits (fun row => some row.name) firstStays (units.map (·.ownStructs))

def mergeEnums (units : List CompiledModule) : MergedTable EnumRow :=
  mergeUnits (fun row => some row.key) firstStays (units.map ownEnums)

def mergeStaticSlots (units : List CompiledModule) : MergedTable CompiledStaticSlot :=
  mergeUnits (fun _ => (none : Option Unit)) firstStays (units.map ownStaticSlots)

def builtinStub (src : CompiledFunction) : Option (Text × Nat × UInt16) :=
  if src.intrinsicId ≠ noIndex ∧ src.bytecode = [] then some (src.name, src.paramCount.toNat, src.intrinsicId) else none

def mergeFunctions (units : List CompiledModule) : MergedTable CompiledFunction :=
  mergeUnits builtinStub firstStays (units.map (·.ownFunctions))

def isPlaceholderInterfaceRow (ci : CompiledInterface) : Bool :=
  ci.staticInitFuncIdx = noIndex && ci.staticMethodIndices.isEmpty && ci.constants.isEmpty && ci.instanceMethods.isEmpty

def replacesPlaceholder (old row : CompiledInterface) : Bool :=
  isPlaceholderInterfaceRow old && !isPlaceholderInterfaceRow row

def mergeInterfaces (units : List CompiledModule) : MergedTable CompiledInterface :=
  mergeUnits (fun row => some row.name) replacesPlaceholder (units.map (·.interfaces))

def mapOf {α : Type} (merged : MergedTable α) (unit : Nat) : List Nat := merged.maps.getD unit []

def bindSlots {P : Type} (bind : SymbolImport → Except P Nat) : List SymbolImport → List P × List Nat
  | [] => ([], [])
  | imp :: imports =>
    let (problems, bound) := bindSlots bind imports
    match bind imp with
    | .ok idx => (problems, idx :: bound)
    | .error problem => (problem :: problems, bound)

section Resolve
variable (units : List CompiledModule)

def resolveFunctionSlots (u : CompiledModule) : List UnresolvedSlot × List Nat :=
  bindSlots (fun imp =>
    match resolveFunctionImport units imp with
    | .error problem => .error (.function u.modulePath imp problem)
    | .ok (owner, hit) => .ok ((mapOf (mergeFunctions units) owner).getD hit 0)) u.functionImports

def resolveTypeSlots {α : Type} (u : CompiledModule) (kind : Table) (table : List α) (name : α → Text)
    (imports : List SymbolImport) : List UnresolvedSlot × List Nat :=
  bindSlots (fun imp =>
    match table.findIdx? (name · = imp.name) with
    | some idx => .ok idx
    | none => .error (.type u.modulePath kind imp)) imports

def resolveClassSlots (u : CompiledModule) : List UnresolvedSlot × List Nat :=
  resolveTypeSlots u .classes (mergeClasses units).table (·.name) u.classImports

def resolveStructSlots (u : CompiledModule) : List UnresolvedSlot × List Nat :=
  resolveTypeSlots u .structs (mergeStructs units).table (·.name) u.structImports

def resolveEnumSlots (u : CompiledModule) : List UnresolvedSlot × List Nat :=
  resolveTypeSlots u .enums (mergeEnums units).table (·.key) u.enumImports

def resolveStaticSlotSlots (u : CompiledModule) : List UnresolvedSlot × List Nat :=
  bindSlots (fun imp =>
    match units.findIdx? (·.modulePath = imp.modulePath) with
    | none => .error (.staticSlot u.modulePath imp true)
    | some owner =>
      match (ownStaticSlots (units.getD owner {}))[imp.ownerOrdinal.toNat]? with
      | none => .error (.staticSlot u.modulePath imp false)
      | some row =>
        if row.name ≠ imp.name ∨ row.ownerKey ≠ imp.ownerClassKey then .error (.staticSlot u.modulePath imp false)
        else .ok ((mapOf (mergeStaticSlots units) owner).getD imp.ownerOrdinal.toNat 0)) u.staticSlotImports

def resolveProblems : List UnresolvedSlot :=
  units.flatMap (resolveFunctionSlots units · |>.1) ++
    units.flatMap (fun u =>
      (resolveClassSlots units u).1 ++ (resolveStructSlots units u).1 ++ (resolveEnumSlots units u).1) ++
    units.flatMap (resolveStaticSlotSlots units · |>.1)

structure UnitMaps where
  strings : List Nat
  functions : List Nat
  classes : List Nat
  structs : List Nat
  enums : List Nat
  interfaces : List Nat
  slots : List Nat

def unitMaps (unit : Nat) : UnitMaps :=
  let u := units.getD unit {}
  { strings := mapOf (mergeStrings units) unit
    functions := mapOf (mergeFunctions units) unit ++ (resolveFunctionSlots units u).2
    classes := mapOf (mergeClasses units) unit ++ (resolveClassSlots units u).2
    structs := mapOf (mergeStructs units) unit ++ (resolveStructSlots units u).2
    enums := mapOf (mergeEnums units) unit ++ (resolveEnumSlots units u).2
    interfaces := mapOf (mergeInterfaces units) unit
    slots := mapOf (mergeStaticSlots units) unit ++ (resolveStaticSlotSlots units u).2 }

end Resolve

def lookup (map : List Nat) (idx : Nat) : Except LinkError Nat :=
  match map[idx]? with
  | some newIdx => .ok newIdx
  | none => .error (.noMapping idx)

def remapIndex (map : List Nat) (idx : UInt16) : Except LinkError UInt16 := do
  .ok (UInt16.ofNat (← lookup map idx.toNat))

def remapIndexOrNone (map : List Nat) (idx : UInt16) : Except LinkError UInt16 :=
  if idx = noIndex then .ok idx else remapIndex map idx

section TypeDescs
variable (maps : UnitMaps)

mutual

def remapTypeDesc : TypeDesc → Except LinkError TypeDesc
  | .leaf kind => .ok (.leaf kind)
  | .structRef typeIdx => do .ok (.structRef (← remapIndex maps.structs typeIdx))
  | .classRef typeIdx => do .ok (.classRef (← remapIndex maps.classes typeIdx))
  | .array elem rank => do .ok (.array (← remapTypeDesc elem) rank)
  | .list elem => do .ok (.list (← remapTypeDesc elem))
  | .dict key value => do .ok (.dict (← remapTypeDesc key) (← remapTypeDesc value))
  | .func params ret => do .ok (.func (← remapTypeDescs params) (← remapTypeDesc ret))

def remapTypeDescs : List TypeDesc → Except LinkError (List TypeDesc)
  | [] => .ok []
  | desc :: descs => do .ok ((← remapTypeDesc desc) :: (← remapTypeDescs descs))

end

end TypeDescs

-- Tags of `ExprDesc.h`.
namespace ExprTag
def int32 : UInt8 := 0
def float : UInt8 := 1
def string : UInt8 := 2
def long : UInt8 := 15
def ulong : UInt8 := 16
def double : UInt8 := 17
def formalRef : UInt8 := 0x20
def neg : UInt8 := 0x21
def binary : UInt8 := 0x22
def call : UInt8 := 0x23
def null : UInt8 := 0xFD
end ExprTag

def lastBinaryOp : UInt8 := 6

def kMaxExprDescDepth : Nat := 16

abbrev Remapped := Except LinkError (Option (Bytes × Bytes))

def skipBytes (count : Nat) (stream : Bytes) : Option (Bytes × Bytes) :=
  if count ≤ stream.length then some (stream.take count, stream.drop count) else none

def remapChildren (child : Bytes → Remapped) : Nat → Bytes → Remapped
  | 0, stream => .ok (some ([], stream))
  | count + 1, stream => do
      match ← child stream with
      | none => .ok none
      | some (first, stream) =>
        match ← remapChildren child count stream with
        | none => .ok none
        | some (others, stream) => .ok (some (first ++ others, stream))

def withHead (child : Bytes → Remapped) (head : Bytes) (count : Nat) (stream : Bytes) : Remapped := do
  match ← remapChildren child count stream with
  | none => .ok none
  | some (children, stream) => .ok (some (head ++ children, stream))

def exprDescRemapCall (child : Bytes → Remapped) (stream : Bytes) : Remapped :=
  match skipBytes 2 stream with
  | none => .ok none
  | some (keyLen, _) =>
    let headLength := 2 + wordOf keyLen + 4 + 1
    match skipBytes headLength stream with
    | none => .ok none
    | some (head, rest) => withHead child (ExprTag.call :: head) (head.getLast?.getD 0).toNat rest

def exprDescRemap (strings : List Nat) : Nat → Bytes → Remapped
  | 0, _ => .ok none
  | _ + 1, [] => .ok none
  | levels + 1, tag :: stream =>
    let payload (count : Nat) : Remapped :=
      .ok ((skipBytes count stream).map fun (kept, rest) => (tag :: kept, rest))
    if tag = ExprTag.int32 ∨ tag = ExprTag.float then payload 4
    else if tag = ExprTag.long ∨ tag = ExprTag.ulong ∨ tag = ExprTag.double then payload 8
    else if tag = ExprTag.string then
      match skipBytes 4 stream with
      | none => .ok none
      | some (idx, rest) => do .ok (some (tag :: putWord 4 (← lookup strings (wordOf idx)), rest))
    else if tag = ExprTag.null then payload 0
    else if tag = ExprTag.formalRef then payload 1
    else if tag = ExprTag.neg then withHead (exprDescRemap strings levels) [tag] 1 stream
    else if tag = ExprTag.binary then
      match stream with
      | [] => .ok none
      | op :: rest => if lastBinaryOp < op then .ok none else withHead (exprDescRemap strings levels) [tag, op] 2 rest
    else if tag = ExprTag.call then exprDescRemapCall (exprDescRemap strings levels) stream
    else .ok none

def exprDescRemapStrings (strings : List Nat) (bytes : Bytes) : Except LinkError (Option Bytes) := do
  if bytes = [] then .ok (some [])
  else
    match ← exprDescRemap strings (kMaxExprDescDepth + 1) bytes with
    | some (remapped, []) => .ok (some remapped)
    | _ => .ok none

def remapDefaultValueStrings (maps : UnitMaps) (context : Text) (dv : DefaultValueDesc) :
    Except LinkError DefaultValueDesc := do
  let stringIdx ← if dv.tag = Rtk.string then (do .ok (UInt32.ofNat (← lookup maps.strings dv.stringIdx.toNat)))
    else .ok dv.stringIdx
  match ← exprDescRemapStrings maps.strings dv.exprBytes with
  | some exprBytes => .ok { dv with stringIdx, exprBytes }
  | none => .error (.malformedDefault context)

section Rows
variable (maps : UnitMaps)

def remapSuperClassIdx (superClassIdx : Int16) : Except LinkError Int16 :=
  if 0 ≤ superClassIdx.toInt then do .ok (Int16.ofNat (← lookup maps.classes superClassIdx.toInt.toNat)) else .ok superClassIdx

def remapStaticField (sf : CompiledStaticField) : Except LinkError CompiledStaticField := do
  .ok { sf with slotIdx := ← remapIndexOrNone maps.slots sf.slotIdx, type := ← remapTypeDesc maps sf.type }

def remapClassMetadata (cc : CompiledClass) : Except LinkError CompiledClass := do
  .ok { cc with
    superClassIdx := ← remapSuperClassIdx maps cc.superClassIdx
    fieldStructIndices := ← cc.fieldStructIndices.mapM (remapIndexOrNone maps.structs)
    fieldClassIndices := ← cc.fieldClassIndices.mapM (remapIndexOrNone maps.classes)
    methodIndices := ← cc.methodIndices.mapM (remapIndexOrNone maps.functions)
    constructorIndices := ← cc.constructorIndices.mapM (remapIndexOrNone maps.functions)
    staticInitFuncIdx := ← remapIndexOrNone maps.functions cc.staticInitFuncIdx
    fieldTypeDescs := ← cc.fieldTypeDescs.mapM (remapTypeDesc maps)
    staticFields := ← cc.staticFields.mapM (remapStaticField maps) }

def remapStructMetadata (cs : CompiledStruct) : Except LinkError CompiledStruct := do
  .ok { cs with
    fieldStructIndices := ← cs.fieldStructIndices.mapM (remapIndexOrNone maps.structs)
    fieldClassIndices := ← cs.fieldClassIndices.mapM (remapIndexOrNone maps.classes)
    constructorIndices := ← cs.constructorIndices.mapM (remapIndexOrNone maps.functions)
    fieldTypeDescs := ← cs.fieldTypeDescs.mapM (remapTypeDesc maps)
    fieldDefaults := ← cs.fieldDefaults.mapM (remapDefaultValueStrings maps cs.name) }

def remapEnumMethodIndices (row : EnumRow) : Except LinkError EnumRow := do
  .ok { row with methodIndices := ← row.methodIndices.mapM (remapIndexOrNone maps.functions) }

def remapStaticSlotMetadata (slot : CompiledStaticSlot) : Except LinkError CompiledStaticSlot := do
  .ok { slot with type := ← remapTypeDesc maps slot.type }

def remapParam (ptd : ParamTypeDesc) : Except LinkError ParamTypeDesc := do
  .ok { ptd with type := ← remapTypeDesc maps ptd.type }

def remapInterfaceConstant (name : Text) (constant : CompiledInterfaceConstant) :
    Except LinkError CompiledInterfaceConstant := do
  .ok { constant with
    type := ← remapTypeDesc maps constant.type
    slotIdx := ← remapIndexOrNone maps.slots constant.slotIdx
    value := ← remapDefaultValueStrings maps name constant.value }

def remapInterfaceMethod (name : Text) (sig : CompiledInterfaceMethod) : Except LinkError CompiledInterfaceMethod := do
  .ok { sig with
    paramTypeDescs := ← sig.paramTypeDescs.mapM (remapParam maps)
    returnType := ← remapTypeDesc maps sig.returnType
    defaultValues := ← sig.defaultValues.mapM (remapDefaultValueStrings maps name) }

def remapInterfaceMetadata (iface : CompiledInterface) : Except LinkError CompiledInterface := do
  .ok { iface with
    staticMethodIndices := ← iface.staticMethodIndices.mapM (remapIndex maps.functions)
    staticInitFuncIdx := ← remapIndexOrNone maps.functions iface.staticInitFuncIdx
    constants := ← iface.constants.mapM (remapInterfaceConstant maps iface.name)
    instanceMethods := ← iface.instanceMethods.mapM (remapInterfaceMethod maps iface.name) }

def remapElemTypeIdx (row : CompiledArrayType) : Except LinkError CompiledArrayType := do
  if row.elemTypeIdx = noIndex then .ok row
  else if row.elemKind = Rtk.struct then .ok { row with elemTypeIdx := ← remapIndex maps.structs row.elemTypeIdx }
  else if row.elemKind = Rtk.cls then .ok { row with elemTypeIdx := ← remapIndex maps.classes row.elemTypeIdx }
  else .ok row

def mergeArrayTypes : List CompiledArrayType → List CompiledArrayType → Except LinkError (List CompiledArrayType × List Nat)
  | [], merged => .ok (merged, [])
  | row :: rows, merged => do
      let row ← remapElemTypeIdx maps row
      match merged.findIdx? (· = row) with
      | some existing =>
        let (merged, indices) ← mergeArrayTypes rows merged
        .ok (merged, existing :: indices)
      | none =>
        let (merged', indices) ← mergeArrayTypes rows (merged ++ [row])
        .ok (merged', merged.length :: indices)

def operandMaps (arrayTypes : List Nat) : NcuOperandMaps where
  strings := (maps.strings[·]?)
  functions := (maps.functions[·]?)
  classes := (maps.classes[·]?)
  structs := (maps.structs[·]?)
  arrayTypes := (arrayTypes[·]?)
  enums := (maps.enums[·]?)
  interfaces := (maps.interfaces[·]?)
  slots := (maps.slots[·]?)

def remapTryBlock (tb : TryBlock) : Except LinkError TryBlock := do
  .ok { tb with exceptionClassIdx := ← remapIndexOrNone maps.classes tb.exceptionClassIdx }

def finalizeFunction (arrayTypes : List Nat) (f : CompiledFunction) : Except LinkError CompiledFunction := do
  let bytecode ← match ncuRemapBytecodeOperands (operandMaps maps arrayTypes) f.bytecode with
    | .ok (bytecode, _) => .ok bytecode
    | .error error => .error (.operand f.name error)
  .ok { f with
    bytecode
    tryBlocks := ← f.tryBlocks.mapM (remapTryBlock maps)
    paramTypeDescs := ← f.paramTypeDescs.mapM (remapParam maps)
    returnTypeDesc := ← remapTypeDesc maps f.returnTypeDesc
    defaultValues := ← f.defaultValues.mapM (remapDefaultValueStrings maps f.name) }

end Rows

def mergeUnitArrayTypes : List (UnitMaps × List CompiledArrayType) → List CompiledArrayType →
    Except LinkError (List CompiledArrayType × List (List Nat))
  | [], merged => .ok (merged, [])
  | (maps, rows) :: units, merged => do
      let (merged, indices) ← mergeArrayTypes maps rows merged
      let (merged, others) ← mergeUnitArrayTypes units merged
      .ok (merged, indices :: others)

section Link
variable (units : List CompiledModule)

def finalizeRows {α : Type} (remap : Nat → α → Except LinkError α) (merged : MergedTable α) :
    Except LinkError (List α) :=
  convertOwned (merged.pushes.zipIdx.map fun (pushed, unit) => (remap unit, pushed)) merged.table

def finalizeClasses : Except LinkError (List CompiledClass) :=
  finalizeRows (fun unit => remapClassMetadata (unitMaps units unit)) (mergeClasses units)

def finalizeStructs : Except LinkError (List CompiledStruct) :=
  finalizeRows (fun unit => remapStructMetadata (unitMaps units unit)) (mergeStructs units)

def finalizeEnums : Except LinkError (List EnumRow) :=
  finalizeRows (fun unit => remapEnumMethodIndices (unitMaps units unit)) (mergeEnums units)

def finalizeStaticSlots : Except LinkError (List CompiledStaticSlot) :=
  finalizeRows (fun unit => remapStaticSlotMetadata (unitMaps units unit)) (mergeStaticSlots units)

def finalizeInterfaces : Except LinkError (List CompiledInterface) :=
  finalizeRows (fun unit => remapInterfaceMetadata (unitMaps units unit)) (mergeInterfaces units)

def finalizeFunctions (arrayMaps : List (List Nat)) : Except LinkError (List CompiledFunction) :=
  finalizeRows (fun unit => finalizeFunction (unitMaps units unit) (arrayMaps.getD unit [])) (mergeFunctions units)

def finalizeUnits : Except LinkError CompiledModule := do
  let (arrayTypes, arrayMaps) ←
    mergeUnitArrayTypes (units.zipIdx.map fun (u, unit) => (unitMaps units unit, u.arrayTypes)) []
  let classes ← finalizeClasses units
  let structs ← finalizeStructs units
  let enums ← finalizeEnums units
  let staticSlots ← finalizeStaticSlots units
  let functions ← finalizeFunctions units arrayMaps
  let interfaces ← finalizeInterfaces units
  .ok {
    modulePath := (units.headD {}).modulePath
    name := (units.headD {}).name
    stringConstants := (mergeStrings units).table
    enumNames := enums.map (·.names)
    enumKeys := enums.map (·.key)
    enumMethodIndices := enums.map (·.methodIndices)
    enumMethodAccess := enums.map (·.methodAccess)
    arrayTypes, classes, structs, staticSlots, functions, interfaces }

def resolveEntry (merged : CompiledModule) (entryKey : Text) : Except LinkError CompiledModule :=
  if entryKey = [] then .ok { merged with entryPoint := -1 }
  else match merged.findFunction entryKey with
    | some idx => .ok { merged with entryPoint := Int32.ofNat idx }
    | none => .error (.noEntry entryKey)

def link (entryKey : Text) : Except LinkError CompiledModule := do
  validateClosure units
  checkStructs units
  if resolveProblems units ≠ [] then .error (.unresolved (resolveProblems units))
  else
    let merged ← finalizeUnits units
    resolveEntry merged entryKey

end Link

end NLang.Linker
