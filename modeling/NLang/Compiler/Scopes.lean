import NLang.Backend.Syntax

/-!
# Scopes

How the resolver binds bare identifiers (`SnParagraph::FindField`, `AddLocal`, `StatementResolver*.cpp`): to
the locals of the enclosing paragraphs, innermost first and as far as they are declared, then to the formal
parameters, the fields of the enclosing class, and names without storage. `none` is a reported error. Type
checks, and names that collide with types, are not modelled.
-/

namespace NLang.Compiler
open NLang.Backend

inductive FieldStorage where
  | perObject
  | perClass
  | folded
  deriving DecidableEq

inductive Binding where
  | local (name : String)
  | staticLocal (name : String) (node : Nat)
  | field (name : String) (storage : FieldStorage)
  | constant (name : String)
  deriving DecidableEq

structure Scope where
  paragraphs : List (List (String × Binding))
  params : List String
  fields : String → Option FieldStorage
  constants : String → Bool
  nextNode : Nat := 0

namespace Scope
variable (scope : Scope)

def push : Scope := { scope with paragraphs := [] :: scope.paragraphs }
def pop : Scope := { scope with paragraphs := scope.paragraphs.tail }

def findField (name : String) : Option Binding :=
  match scope.paragraphs.findSome? (List.lookup name) with
  | some binding => some binding
  | none =>
    if name ∈ scope.params then some (.local name)
    else match scope.fields name with
      | some storage => some (.field name storage)
      | none => if scope.constants name then some (.constant name) else none

def addLocal (name : String) (binding : Binding) : Option Scope :=
  match scope.paragraphs with
  | [] => none
  | locals :: outer =>
    if (locals.lookup name).isSome then none
    else some { scope with paragraphs := ((name, binding) :: locals) :: outer }

def addFirst (name : String) : Scope := (scope.addLocal name (.local name)).getD scope

def resolveExpr (e : Expr String) : Option (Expr Binding) := e.traverse scope.findField

def resolveInit : Option (Expr String) → Option (Option (Expr Binding))
  | none => some none
  | some e => (scope.resolveExpr e).map some

def resolveDeclarators (isStatic : Bool) :
    Scope → List (Declarator String) → Option (List (Declarator Binding) × Scope)
  | scope, [] => some ([], scope)
  | scope, d :: rest => do
      let node := scope.nextNode
      let binding := if isStatic then .staticLocal d.name node else .local d.name
      let scope ← { scope with nextNode := node + 1 }.addLocal d.name binding
      let init ← scope.resolveInit d.init
      let (rest, scope) ← resolveDeclarators isStatic scope rest
      return ({ name := d.name, type := d.type, target := binding, init, node } :: rest, scope)

def resolveForInit : Scope → List (Declarator String) → Option (List (Declarator Binding) × Scope)
  | scope, [] => some ([], scope)
  | scope, d :: rest => do
      let scope := scope.addFirst d.name
      let target ← scope.findField d.name
      let init ← scope.resolveInit d.init
      let (rest, scope) ← resolveForInit scope rest
      return ({ name := d.name, type := d.type, target, init } :: rest, scope)

end Scope

structure Flow where
  breakable : Bool := false
  loop : Bool := false
  inFinally : Bool := false

namespace Flow

def enterLoop (flow : Flow) : Flow := { flow with breakable := true, loop := true }
def enterSwitch (flow : Flow) : Flow := { flow with breakable := true }
def enterFinally (flow : Flow) : Flow := { flow with inFinally := true }

end Flow

def resolveStmt : Flow → Scope → Stmt String → Option (Stmt Binding × Scope)
  | _, scope, .skip => some (.skip, scope)
  | flow, scope, .seq first second => do
      let (first, scope) ← resolveStmt flow scope first
      let (second, scope) ← resolveStmt flow scope second
      return (.seq first second, scope)
  | flow, scope, .block body => do
      let (body, scope) ← resolveStmt flow scope.push body
      return (.block body, scope.pop)
  | _, scope, .decl isStatic declarators => do
      let (declarators, scope) ← scope.resolveDeclarators isStatic declarators
      return (.decl isStatic declarators, scope)
  | _, scope, .assign target type value => do
      return (.assign (← scope.findField target) type (← scope.resolveExpr value), scope)
  | _, scope, .eval operands calls => do return (.eval (← operands.traverse scope.findField) calls, scope)
  | flow, scope, .ifElse condition thenStmt elseStmt => do
      guard (thenStmt.isBody ∧ elseStmt.isBody)
      let condition ← scope.resolveExpr condition
      let (thenStmt, scope) ← resolveStmt flow scope thenStmt
      let (elseStmt, scope) ← resolveStmt flow scope elseStmt
      return (.ifElse condition thenStmt elseStmt, scope)
  | flow, scope, .whileLoop condition body => do
      guard body.isBody
      let condition ← scope.resolveExpr condition
      let (body, scope) ← resolveStmt flow.enterLoop scope body
      return (.whileLoop condition body, scope)
  | flow, scope, .doLoop body condition => do
      guard body.isBody
      let (body, scope) ← resolveStmt flow.enterLoop scope body
      return (.doLoop body (← scope.resolveExpr condition), scope)
  | flow, scope, .forLoop declarators condition fini body => do
      guard (fini.isBody ∧ body.isBody)
      let (declarators, scope) ← scope.resolveForInit declarators
      let condition ← scope.resolveExpr condition
      let (body, scope) ← resolveStmt flow.enterLoop scope body
      let (fini, scope) ← resolveStmt flow.enterLoop scope fini
      return (.forLoop declarators condition fini body, scope)
  | flow, scope, .foreachLoop var type source iterable body => do
      guard body.isBody
      let iterable ← scope.resolveExpr iterable
      let (body, scope) ← resolveStmt flow.enterLoop (scope.addFirst var) body
      return (.foreachLoop var type source iterable body, scope)
  | flow, scope, .switch condition clauses => do
      let condition ← scope.resolveExpr condition
      let (clauses, scope) ← resolveStmt flow.enterSwitch scope clauses
      return (.switch condition clauses, scope)
  | flow, scope, .clause labels body rest => do
      let labels ← labels.mapM scope.resolveExpr
      let (body, scope) ← resolveStmt flow scope.push body
      let (rest, scope) ← resolveStmt flow scope.pop rest
      return (.clause labels body rest, scope)
  | flow, scope, .tryCatch body handlers => do
      guard body.isBody
      let (body, scope) ← resolveStmt flow scope body
      let (handlers, scope) ← resolveStmt flow scope handlers
      return (.tryCatch body handlers, scope)
  | flow, scope, .tryFinally body handlers finallyBody => do
      guard (body.isBody ∧ finallyBody.isBody)
      let (body, scope) ← resolveStmt flow scope body
      let (handlers, scope) ← resolveStmt flow scope handlers
      let (finallyBody, scope) ← resolveStmt flow.enterFinally scope finallyBody
      return (.tryFinally body handlers finallyBody, scope)
  -- a catch variable belongs to the paragraph of its body, if the body is one
  | flow, scope, .handler var (.block body) rest => do
      let (body, scope) ← resolveStmt flow (scope.push.addFirst var) body
      let (rest, scope) ← resolveStmt flow scope.pop rest
      return (.handler var (.block body) rest, scope)
  | flow, scope, .handler var body rest => do
      guard body.isBody
      let (body, scope) ← resolveStmt flow (scope.addFirst var) body
      let (rest, scope) ← resolveStmt flow scope rest
      return (.handler var body rest, scope)
  | flow, scope, .result value => do
      guard (¬ flow.inFinally)
      return (.result (← scope.resolveInit value), scope)
  | flow, scope, .breakLoop => do
      guard (flow.breakable ∧ ¬ flow.inFinally)
      return (.breakLoop, scope)
  | flow, scope, .continueLoop => do
      guard (flow.loop ∧ ¬ flow.inFinally)
      return (.continueLoop, scope)

/-- A function before code generation: its receiver is `none` for free and static functions. -/
structure FunctionDecl where
  receiver : Option DeclType := none
  params : List (String × DeclType) := []
  returnType : Option DeclType := none
  fields : String → Option FieldStorage := fun _ => none
  constants : String → Bool := fun _ => false
  body : Stmt String

def FunctionDecl.resolve (f : FunctionDecl) : Option (Stmt Binding) := do
  let params := f.params.map (·.1)
  guard params.Nodup
  let scope : Scope := { paragraphs := [[]], params, fields := f.fields, constants := f.constants }
  let (body, _) ← resolveStmt {} scope f.body
  return body

end NLang.Compiler
