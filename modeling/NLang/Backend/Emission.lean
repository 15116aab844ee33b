import NLang.Compiler.Scopes

/-!
# The order of emission

What the statement emitters do to the frame of a function, in the order in which they do it. A `finally` body
is emitted again wherever a `return`, `break` or `continue` leaves its region. The resolver rejects those
inside a `finally` body, so a copy does not depend on where it is emitted.
-/

namespace NLang.Backend
open NLang.Compiler

inductive Event where
  | allocate (name : String) (type : DeclType) (hidden : Bool)
  | register (name : String) (node : Nat)
  | stage (operands : Operands Binding) (calls : Bool)
  | assign (target : Binding) (type : DeclType) (value : Expr Binding)
  | initStatic (target : Binding) (value : Expr Binding)
  /-- `AllocForeachLocals` or `EmitStringForeach`, up to the evaluation of the iterable. -/
  | foreach (var : String) (type : DeclType) (source : ForeachSource) (iterable : Expr Binding)
  | switchOn (condition : Expr Binding)
  | result (value : Expr Binding) (guarded : Bool)

structure Region where
  finallies : List (List Event) := []
  loops : List (Bool × Nat) := []

namespace Region
variable (region : Region)

def enterLoop (isSwitch : Bool) : Region :=
  { region with loops := (isSwitch, region.finallies.length) :: region.loops }

def enterFinally (copy : List Event) : Region := { region with finallies := copy :: region.finallies }

def copies (depth : Nat) : List Event :=
  (region.finallies.take (region.finallies.length - depth)).flatten

def breakCopies : List Event :=
  match region.loops with
  | [] => []
  | (_, depth) :: _ => region.copies depth

def continueCopies : List Event :=
  match region.loops.find? (¬ ·.1) with
  | none => []
  | some (_, depth) => region.copies depth

end Region

def Expr.staging (e : Expr Binding) : Event := .stage (.cons e .nil) false

def declareLocals (declarators : List (Declarator Binding)) : List Event :=
  declarators.map (fun d => .allocate d.name d.type false) ++
    declarators.filterMap fun d => d.init.map (.assign d.target d.type)

def declareStatics (declarators : List (Declarator Binding)) : List Event :=
  declarators.map (fun d => .register d.name d.node) ++
    declarators.flatMap fun d =>
      match d.init with
      | none => []
      | some e => [.initStatic d.target e, .allocate "$slot_exc" .cls true]

def Stmt.events : Region → Stmt Binding → List Event
  | _, .skip => []
  | region, .seq first second => first.events region ++ second.events region
  | region, .block body => body.events region
  | _, .decl isStatic declarators =>
    if isStatic then declareStatics declarators else declareLocals declarators
  | _, .assign target type value => [.assign target type value]
  | _, .eval operands calls => [.stage operands calls]
  | region, .ifElse condition thenStmt elseStmt =>
    condition.staging :: thenStmt.events region ++ elseStmt.events region
  | region, .whileLoop condition body => condition.staging :: body.events (region.enterLoop false)
  | region, .doLoop body condition => body.events (region.enterLoop false) ++ [condition.staging]
  | region, .forLoop declarators condition fini body =>
    declareLocals declarators ++ condition.staging ::
      body.events (region.enterLoop false) ++ fini.events (region.enterLoop false)
  | region, .foreachLoop var type source iterable body =>
    .foreach var type source iterable :: body.events (region.enterLoop false)
  | region, .switch condition clauses => .switchOn condition :: clauses.events (region.enterLoop true)
  | region, .clause labels body rest =>
    labels.map Expr.staging ++ body.events region ++ rest.events region
  | region, .tryCatch body handlers => body.events region ++ handlers.events region
  | region, .tryFinally body handlers finallyBody =>
    let copy := finallyBody.events {}
    body.events (region.enterFinally copy) ++ handlers.events (region.enterFinally copy) ++
      .allocate "$finally_exc" .cls true :: copy ++ copy
  | region, .handler var body rest =>
    .allocate var .cls false :: body.events region ++ rest.events region
  | region, .result none => region.copies 0
  | region, .result (some value) => .result value (¬ region.finallies.isEmpty) :: region.copies 0
  | region, .breakLoop => region.breakCopies
  | region, .continueLoop => region.continueCopies

end NLang.Backend
