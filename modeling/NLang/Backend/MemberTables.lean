import NLang.Compiler.Declarations

/-!
# Member tables

Registration of functions and classes (`Register.cpp`, `RegisterClass.cpp`) as far as the member tables of a unit
depend on it, and the import that a reference to a member of another unit leaves (`Slots.cpp`).
-/

namespace NLang.Backend
open NLang.Library.Words NLang.Image NLang.Compiler

structure FunctionSignature where
  name : Text
  paramCount : UInt16
  isStatic : Bool
  deriving DecidableEq

def signatureOf (func : CompiledFunction) : FunctionSignature :=
  { name := func.name, paramCount := func.paramCount, isStatic := func.isStatic }

structure MemberTables where
  name : Text
  methodIndices : List UInt16 := []
  methodAccess : List UInt8 := []
  methodVirtual : List UInt8 := []
  constructorIndices : List UInt16 := []
  constructorAccess : List UInt8 := []
  staticInitFuncIdx : UInt16 := noIndex
  deriving DecidableEq

def memberTablesOf (cc : CompiledClass) : MemberTables :=
  { name := cc.name
    methodIndices := cc.methodIndices
    methodAccess := cc.methodAccess
    methodVirtual := cc.methodVirtual
    constructorIndices := cc.constructorIndices
    constructorAccess := cc.constructorAccess
    staticInitFuncIdx := cc.staticInitFuncIdx }

abbrev Place := Nat × Nat

structure FunctionEntry where
  place : Place
  decl : Decl
  fn : SnFunction
  deriving DecidableEq

section Registration
variable (build : Build) (unit : Nat)

def isOwnUnit (decl : Decl) : Bool :=
  !decl.isImported && (decl.owner = some unit || decl.owner = none || build.isPreludeModule decl.owner)

def DeclNode.registers : DeclNode → Bool
  | .globalField _ => false
  | _ => true

def shadowedPreludeNames : List Identifier :=
  let declared := build.root.filter fun decl => DeclNode.registers decl.node
  let preludeNames := (declared.filter fun decl => build.isPreludeModule decl.owner).map (·.node.name)
  let foreignNames := (declared.filter fun decl =>
    !build.isPreludeModule decl.owner && build.qualifiedName decl = decl.node.name.text).map (·.node.name)
  preludeNames.filter (· ∈ foreignNames)

def isShadowedPreludeDecl (decl : Decl) : Bool :=
  decl.node.name ∈ shadowedPreludeNames build && build.isPreludeModule decl.owner

def declFunctions (decl : Decl) (declIdx : Nat) : List FunctionEntry :=
  decl.node.functions.map fun (position, fn) => { place := (declIdx, position), decl, fn }

def declaredFunctions : List FunctionEntry := build.root.zipIdx.flatMap fun (decl, declIdx) => declFunctions decl declIdx

def isShadowedFunction (decl : Decl) : Bool :=
  match decl.node with
  | .function _ => isShadowedPreludeDecl build decl
  | _ => false

def registersIn (preludePhase : Bool) (entry : FunctionEntry) : Bool :=
  isOwnUnit build unit entry.decl && !isShadowedFunction build entry.decl &&
    decide (entry.decl.owner ≠ some unit) = preludePhase && (entry.fn.hasBody || entry.fn.isNative)

def functionTable : List FunctionEntry :=
  (declaredFunctions build).filter (registersIn build unit false) ++
    (declaredFunctions build).filter (registersIn build unit true)

def funcIndex (place : Place) : Option Nat := (functionTable build unit).findIdx? (·.place = place)

def entrySignature (entry : FunctionEntry) : FunctionSignature :=
  { name := build.functionKey entry.decl entry.fn
    paramCount := UInt16.ofNat (entry.fn.params + if entry.decl.node.hasThisReceiver entry.fn then 1 else 0)
    isStatic := entry.fn.isStatic }

structure ClassEntry where
  declIdx : Nat
  decl : Decl
  cls : SnClassDecl
  deriving DecidableEq

def classEntryOf : Decl × Nat → Option ClassEntry
  | (decl, declIdx) =>
    match decl.node with
    | .classDecl cls => some { declIdx, decl, cls }
    | _ => none

def registeredClasses : List ClassEntry :=
  (build.root.zipIdx.filterMap classEntryOf).filter fun entry =>
    isOwnUnit build unit entry.decl && !isShadowedPreludeDecl build entry.decl

def appendMember (entry : ClassEntry) (tables : MemberTables) (member : Nat × SnFunction) : MemberTables :=
  match funcIndex build unit (entry.declIdx, member.1) with
  | none => tables
  | some index =>
    let funcIdx := UInt16.ofNat index
    if member.2.isStaticInit then { tables with staticInitFuncIdx := funcIdx }
    else
      let tables :=
        { tables with
          methodIndices := tables.methodIndices ++ [funcIdx]
          methodAccess := tables.methodAccess ++ [member.2.access]
          methodVirtual := tables.methodVirtual ++ [if member.2.isVirtual then 1 else 0] }
      if entry.cls.isCtor member.2 then
        { tables with
          constructorIndices := tables.constructorIndices ++ [funcIdx]
          constructorAccess := tables.constructorAccess ++ [member.2.access] }
      else tables

def appendClassMemberMethods (entry : ClassEntry) (tables : MemberTables) : MemberTables :=
  entry.cls.functions.foldl (appendMember build unit entry) tables

def refillMethods (entry : ClassEntry) (tables : MemberTables) : MemberTables :=
  appendClassMemberMethods build unit entry
    { tables with
      methodIndices := []
      methodAccess := []
      methodVirtual := []
      constructorIndices := []
      constructorAccess := [] }

def populateClass (rows : List MemberTables) (entry : ClassEntry) : List MemberTables :=
  match rows.findIdx? (·.name = build.keyOf entry.decl) with
  | none => rows
  | some row => rows.modify row (refillMethods build unit entry)

def memberRows : List MemberTables :=
  (registeredClasses build unit).foldl (populateClass build unit)
    ((registeredClasses build unit).map fun entry => { name := build.keyOf entry.decl })

structure ImageOf (image : CompiledModule) : Prop where
  modulePath : image.modulePath = build.modulePathOf (some unit)
  functions : image.ownFunctions.map signatureOf = (functionTable build unit).map (entrySignature build)
  classes : image.ownClasses.map memberTablesOf = memberRows build unit

end Registration

structure MemberRef (build : Build) extends ClassEntry where
  position : Nat
  fn : SnFunction
  declared : build.root[declIdx]? = some decl
  isClass : decl.node = .classDecl cls
  isMember : (position, fn) ∈ cls.functions
  isBindable : fn.isStaticInit = false

inductive Callee (build : Build) where
  | declared (member : MemberRef build)
  | instantiated (template : MemberRef build)

def Callee.recordOwner {build : Build} : Callee build → MemberRef build
  | .declared member => member
  | .instantiated template => template

def memberOrdinal (isImported : Bool) (cls : SnClassDecl) (callee : Nat) (calleeIsCtor : Bool) :
    List (Nat × SnFunction) → UInt16 → UInt16
  | [], _ => noIndex
  | (position, fn) :: rest, ordinal =>
    if fn.isStaticInit || !fn.hasImplementation isImported cls || cls.isCtor fn ≠ calleeIsCtor then
      memberOrdinal isImported cls callee calleeIsCtor rest ordinal
    else if position = callee then ordinal
    else memberOrdinal isImported cls callee calleeIsCtor rest (ordinal + 1)

def memberImport (build : Build) (decl : Decl) (cls : SnClassDecl) (position : Nat) (fn : SnFunction) : SymbolImport :=
  { modulePath := build.modulePathOf decl.owner
    name := build.functionKey decl fn
    paramCount := UInt32.ofNat (fn.params + if decl.node.hasThisReceiver fn then 1 else 0)
    ownerClassKey := build.keyOf decl
    isStatic := fn.isStatic
    ownerKind := 1
    ownerOrdinal := memberOrdinal decl.isImported cls position (cls.isCtor fn) cls.functions 0 }

inductive FunctionSlot where
  | own (index : Option Nat)
  | imported (record : SymbolImport)

def functionSlotFor (build : Build) (consumer : Nat) (callee : Callee build) : FunctionSlot :=
  let member := callee.recordOwner
  if isOwnUnit build consumer member.decl then .own (funcIndex build consumer (member.declIdx, member.position))
  else .imported (memberImport build member.decl member.cls member.position member.fn)

end NLang.Backend
