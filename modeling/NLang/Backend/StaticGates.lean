import NLang.Library.AnnotatedCode

/-!
# Gates of static initializers

Where the backend puts `OP_ClassInitGate` and the call of `$staticInit` (`EmitStaticInit.cpp`): the reads, stores and
compound assignments of static fields and runtime constants, the calls of static methods and the constructions.
Classes and interfaces are both owners. What statements emit besides are instructions that use no static and jumps, so
a body is a list of pieces, and jumps go to the start of a piece.
-/

namespace NLang.Backend.StaticGates
open NLang.Library.AnnotatedCode

inductive Instr where
  | classInitGate (owner donePc : Nat)
  | callInit (owner : Nat)
  | loadStatic (field : Nat)
  | storeStatic (field : Nat)
  | new (cls : Nat)
  | callFunc (callee : Nat)
  | callMethod
  | callDelegate
  | jump (target : Nat)
  | jumpIfNot (target : Nat)
  | ret
  | throwValue
  | op (operandBytes : Nat)
  deriving DecidableEq

structure Emitted where
  instr : Instr
  direct : Bool := false

def Emitted.stride (emitted : Emitted) : Nat :=
  match emitted.instr with
  | .classInitGate _ _ => 7
  | .callInit _ | .callFunc _ | .callMethod | .loadStatic _ | .storeStatic _ | .new _ | .jumpIfNot _ => 5
  | .callDelegate | .jump _ | .throwValue => 3
  | .ret => 1
  | .op operandBytes => operandBytes + 1

inductive Fact where
  | passed (owner : Nat)
  | claimed (owner : Nat)

def Fact.isPassed : Fact → Bool
  | .passed _ => true
  | .claimed _ => false

abbrev CodeLine := Line Emitted Fact

mutual

inductive Expr where
  | operation (operands : Exprs) (operandBytes : Nat)
  | logicalAnd (left right : Expr)
  | logicalOr (left right : Expr)
  /-- A static field by its bare name, and through the name of its class or interface. -/
  | name (field : Nat)
  | member (field : Nat)
  /-- A function by its bare name, and through the name of its class or interface. -/
  | invoke (callee : Nat) (args : Exprs)
  | memberInvoke (callee : Nat) (args : Exprs)
  | methodInvoke (receiver : Expr) (args : Exprs)
  | delegateInvoke (args : Exprs)
  | newObject (cls : Nat) (args : Exprs)
  | initList (cls : Nat) (entries : Exprs)

inductive Exprs where
  | nil
  | cons (first : Expr) (rest : Exprs)

end

inductive Piece where
  | eval (value : Expr)
  | assignName (field : Nat) (value : Expr)
  | assignMember (field : Nat) (value : Expr)
  | compoundName (field : Nat) (value : Expr)
  | compoundMember (field : Nat) (value : Expr)
  | superGate (superClass : Nat)
  | jump (target : Nat)
  | jumpIfNot (target : Nat)
  | ret
  | throwValue

def Piece.target : Piece → Option Nat
  | .jump target | .jumpIfNot target => some target
  | _ => none

structure TryRow where
  start : Nat
  stop : Nat
  handler : Nat

structure Body where
  pieces : List Piece
  tryRows : List TryRow := []
  targets : ∀ piece ∈ pieces, ∀ target, piece.target = some target → target ≤ pieces.length
  handlers : ∀ row ∈ tryRows, row.handler ≤ pieces.length

structure OwnerDecl where
  module : Nat
  superClass : Option Nat := none

structure StaticField where
  owner : Nat
  initializer : Option Expr := none
  folds : Bool := false

structure FunctionDecl where
  owner : Option Nat := none
  isStatic : Bool := false
  body : Body

structure Program where
  owners : List OwnerDecl
  fields : List StaticField
  functions : List FunctionDecl

inductive Node where
  | field (field : Nat)
  | function (callee : Nat)
  | type

namespace Program
variable (P : Program)

def superClass (owner : Nat) : Option Nat := P.owners[owner]?.bind OwnerDecl.superClass

def chain : Nat → Nat → List Nat
  | 0, _ => []
  | n + 1, owner => owner :: (P.superClass owner).toList.flatMap (chain n)

def ancestry (owner : Nat) : List Nat := P.chain (P.owners.length + 1) owner

def needsInitializer (owner : Nat) (field : StaticField) : Bool :=
  field.owner == owner && field.initializer.isSome && !field.folds

def collectInitializedStatics (owner : Nat) : List Nat :=
  (List.range P.fields.length).filter fun field => P.fields[field]?.any (needsInitializer owner)

def isStub (module owner : Nat) : Bool := P.owners[owner]?.any fun decl => decl.module != module

def needsStaticInit (module owner : Nat) : Bool :=
  (P.ancestry owner).any fun ancestor =>
    !P.isStub module ancestor && !(P.collectInitializedStatics ancestor).isEmpty

def staticInitMember (owner : Nat) : Bool :=
  P.owners[owner]?.any fun decl => P.needsStaticInit decl.module owner

def hasInitializer (owner : Nat) : Bool :=
  (P.ancestry owner).any fun ancestor => !(P.collectInitializedStatics ancestor).isEmpty

def fieldOwner (field : Nat) : Option Nat := P.fields[field]?.map StaticField.owner

def staticOwner (callee : Nat) : Option Nat :=
  P.functions[callee]?.bind fun decl => if decl.isStatic then decl.owner else none

def gateOwner : Node → Option Nat
  | .field field => P.fieldOwner field
  | .function callee => P.staticOwner callee
  | .type => none

section Emission
variable (base : Nat) (facts : List Fact)

def line (facts : List Fact) (instr : Instr) : CodeLine := { instr := { instr }, facts }

def directLine (facts : List Fact) (instr : Instr) : CodeLine := { instr := { instr, direct := true }, facts }

def size (code : List CodeLine) : Nat := codeSize Emitted.stride code

def emitClassInitGate (owner : Nat) : List CodeLine :=
  if P.staticInitMember owner then
    [line facts (.classInitGate owner ((base + 12) % 2 ^ 16)), line (.claimed owner :: facts) (.callInit owner)]
  else []

def passGate (owner : Nat) : List Fact := if P.staticInitMember owner then .passed owner :: facts else facts

def emitStaticFieldGate (node : Node) : List CodeLine :=
  match P.gateOwner node with
  | some owner => P.emitClassInitGate base facts owner
  | none => []

def passFieldGate (node : Node) : List Fact :=
  match P.gateOwner node with
  | some owner => P.passGate facts owner
  | none => facts

def emitStaticRead (field : Nat) : List CodeLine :=
  if P.fields[field]?.any StaticField.folds then [line facts (.op 4)]
  else P.emitStaticFieldGate base facts (.field field) ++
    [line (P.passFieldGate facts (.field field)) (.loadStatic field)]

def emitIdentifierFieldRead (field : Nat) : List CodeLine := P.emitStaticRead base facts field

def emitMemberStaticFieldRead (field : Nat) : List CodeLine := P.emitStaticRead base facts field

mutual

def emitExpression (base : Nat) (facts : List Fact) : Expr → List CodeLine
  | .operation operands operandBytes => emitAll base facts operands ++ [line facts (.op operandBytes)]
  | .logicalAnd left right =>
    let first := emitExpression base facts left ++ [line facts (.op 2), line facts (.op 2)]
    let start := base + size first + 5
    let second := emitExpression start facts right ++ [line facts (.op 2), line facts (.op 2)]
    first ++ line facts (.jumpIfNot ((start + size second) % 2 ^ 16)) :: second
  | .logicalOr left right =>
    let first := emitExpression base facts left ++ [line facts (.op 2), line facts (.op 2)]
    let start := base + size first + 8
    let second := emitExpression start facts right ++ [line facts (.op 2), line facts (.op 2)]
    first ++ line facts (.jumpIfNot (start % 2 ^ 16)) ::
      line facts (.jump ((start + size second) % 2 ^ 16)) :: second
  | .name field => P.emitIdentifierFieldRead base facts field
  | .member field => P.emitMemberStaticFieldRead base facts field
  | .invoke callee args | .memberInvoke callee args =>
    let gate := P.emitStaticFieldGate base facts (.function callee)
    let passed := P.passFieldGate facts (.function callee)
    gate ++ emitAll (base + size gate) passed args ++ [line passed (.callFunc callee), line passed (.op 0)]
  | .methodInvoke receiver args =>
    let object := emitExpression base facts receiver
    object ++ emitAll (base + size object) facts args ++ [line facts .callMethod, line facts (.op 0)]
  | .delegateInvoke args => emitAll base facts args ++ [line facts .callDelegate, line facts (.op 0)]
  | .newObject cls args =>
    let gate := P.emitClassInitGate base facts cls
    let passed := P.passGate facts cls
    gate ++ emitAll (base + size gate) passed args ++ [line passed (.new cls), line passed .callMethod]
  | .initList cls entries =>
    -- `EmitNewObjectAndNoArgCtor`
    let object := [directLine facts (.new cls), line facts .callMethod]
    object ++ emitAll (base + size object) facts entries

def emitAll (base : Nat) (facts : List Fact) : Exprs → List CodeLine
  | .nil => []
  | .cons first rest =>
    let code := emitExpression base facts first
    code ++ emitAll (base + size code) facts rest

end

def emitStaticStore (field : Nat) (value : Expr) : List CodeLine :=
  let gate := P.emitStaticFieldGate base facts (.field field)
  let passed := P.passFieldGate facts (.field field)
  gate ++ P.emitExpression (base + size gate) passed value ++ [line passed (.storeStatic field)]

def emitAssignBareIdentifier (field : Nat) (value : Expr) : List CodeLine := P.emitStaticStore base facts field value

def emitAssignMemberField (field : Nat) (value : Expr) : List CodeLine := P.emitStaticStore base facts field value

def emitCompoundAssignStaticField (field : Nat) (lhsType : Node) (value : Expr) : List CodeLine :=
  let gate := P.emitStaticFieldGate base facts lhsType
  let passed := P.passFieldGate facts lhsType
  let load := directLine passed (.loadStatic field)
  gate ++ load :: P.emitExpression (base + size gate + 5) passed value ++
    [line passed (.op 5), directLine passed (.storeStatic field)]

def evalDataType (_field : Nat) : Node := .type

def emitCompoundAssignBareIdentifier (field : Nat) (value : Expr) : List CodeLine :=
  P.emitCompoundAssignStaticField base facts field (evalDataType field) value

def emitCompoundAssignMemberField (field : Nat) (value : Expr) : List CodeLine :=
  P.emitCompoundAssignStaticField base facts field (evalDataType field) value

end Emission

def emitPiece (offsets : Nat → Nat) (base : Nat) : Piece → List CodeLine
  | .eval value => P.emitExpression base [] value
  | .assignName field value => P.emitAssignBareIdentifier base [] field value
  | .assignMember field value => P.emitAssignMemberField base [] field value
  | .compoundName field value => P.emitCompoundAssignBareIdentifier base [] field value
  | .compoundMember field value => P.emitCompoundAssignMemberField base [] field value
  | .superGate superClass => P.emitClassInitGate base [] superClass
  | .jump target => [line [] (.jump (offsets target % 2 ^ 16))]
  | .jumpIfNot target => [line [] (.jumpIfNot (offsets target % 2 ^ 16))]
  | .ret => [line [] .ret]
  | .throwValue => [line [] .throwValue]

def emitPieces (offsets : Nat → Nat) : Nat → List Piece → List CodeLine
  | _, [] => [line [] .ret]
  | base, piece :: rest =>
    let code := P.emitPiece offsets base piece
    code ++ emitPieces offsets (base + size code) rest

def offset (pieces : List Piece) (index : Nat) : Nat :=
  ((pieces.take index).map fun piece => size (P.emitPiece (fun _ => 0) 0 piece)).sum

def emitBody (pieces : List Piece) : List CodeLine := P.emitPieces (P.offset pieces) 0 pieces

def staticInitPieces (owner : Nat) : List Piece :=
  (P.superClass owner).toList.map Piece.superGate ++
    (P.collectInitializedStatics owner).filterMap fun field =>
      (P.fields[field]?.bind StaticField.initializer).map (Piece.assignName field)

def staticInitBody (owner : Nat) : Body where
  pieces := P.staticInitPieces owner
  targets := by
    intro piece member target jumps
    rcases List.mem_append.mp member with gate | assign
    · obtain ⟨_, _, rfl⟩ := List.mem_map.mp gate
      cases jumps
    · obtain ⟨_, _, made⟩ := List.mem_filterMap.mp assign
      obtain ⟨_, _, rfl⟩ := Option.map_eq_some_iff.mp made
      cases jumps
  handlers := fun _ member => by cases member

end Program

def Body.empty : Body where
  pieces := []
  targets := fun _ member => by cases member
  handlers := fun _ member => by cases member

inductive Routine where
  | function (index : Nat)
  | staticInit (owner : Nat)
  deriving DecidableEq

namespace Program
variable (P : Program)

def body : Routine → Body
  | .function index => (P.functions[index]?.map FunctionDecl.body).getD .empty
  | .staticInit owner => P.staticInitBody owner

def code (routine : Routine) : List CodeLine := P.emitBody (P.body routine).pieces

end Program
end NLang.Backend.StaticGates
