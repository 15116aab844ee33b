import NLang.Backend.Types

/-!
# Function bodies

Expressions and statements of a body as the backend visits them. `ν` stands for bare identifiers: spellings in
a parsed body, what the resolver bound them to in a resolved one. An expression keeps its static type and the
shape of its emission, that is where its operands wait while later operands and calls run.
-/

namespace NLang.Backend

mutual

inductive Expr (ν : Type) where
  | value (type : DeclType)
  /-- A bare identifier. `gated` if the read first runs the initializer of a class. -/
  | name (x : ν) (gated : Bool) (type : DeclType)
  /-- The operand goes to the result slot and opcodes that call nothing replace it there: field loads,
  lengths, negation, conversions, boxing. -/
  | inPlace (operand : Expr ν) (type : DeclType)
  | render (operand : Expr ν)
  | logical (left right : Expr ν)
  | binary (left right : Expr ν) (type : DeclType)
  /-- Operands in one claim, the result at the end: calls without a receiver, subscripts, new arrays. -/
  | staged (parts : Operands ν) (calls : Bool) (type : DeclType)
  /-- The receiver goes to the result slot and from there to the claim of the arguments. -/
  | method (receiver : Expr ν) (args : Operands ν) (calls : Bool) (type : DeclType)
  /-- A call through a `func` field of the receiver, whose value waits in a claim of its own. -/
  | delegate (receiver : Expr ν) (args : Operands ν) (type : DeclType)
  /-- Constructor calls and initializer lists: first the arguments, then the new object in the result slot
  while the constructor runs and the entries are emitted. -/
  | construct (args entries : Stagings ν) (calls : Bool) (type : DeclType)
  | rows (entries : Operands ν) (type : DeclType)

inductive Operands (ν : Type) where
  | nil
  | cons (first : Expr ν) (rest : Operands ν)

inductive Stagings (ν : Type) where
  | nil
  | cons (lead : Nat) (parts : Operands ν) (calls : Bool) (rest : Stagings ν)

end

def Expr.type {ν : Type} : Expr ν → DeclType
  | .value type | .name _ _ type | .inPlace _ type | .binary _ _ type | .staged _ _ type
  | .method _ _ _ type | .delegate _ _ type | .construct _ _ _ type | .rows _ type => type
  | .render _ => .string
  | .logical _ _ => .scalar .bool

mutual

def Expr.names {ν : Type} : Expr ν → List ν
  | .value _ => []
  | .name x _ _ => [x]
  | .inPlace operand _ | .render operand => operand.names
  | .logical left right | .binary left right _ => left.names ++ right.names
  | .staged parts _ _ => parts.names
  | .method receiver args _ _ | .delegate receiver args _ => receiver.names ++ args.names
  | .construct args entries _ _ => args.names ++ entries.names
  | .rows entries _ => entries.names

def Operands.names {ν : Type} : Operands ν → List ν
  | .nil => []
  | .cons first rest => first.names ++ rest.names

def Stagings.names {ν : Type} : Stagings ν → List ν
  | .nil => []
  | .cons _ parts _ rest => parts.names ++ rest.names

end

mutual

def Expr.calls {ν : Type} : Expr ν → Bool
  | .value _ => false
  | .name _ gated _ => gated
  | .inPlace operand _ => operand.calls
  | .render _ | .delegate _ _ _ => true
  | .logical left right | .binary left right _ => left.calls || right.calls
  | .staged parts calls _ => calls || parts.calls
  | .method receiver args calls _ => receiver.calls || calls || args.calls
  | .construct args entries calls _ => args.calls || calls || entries.calls
  | .rows entries _ => entries.calls

def Operands.calls {ν : Type} : Operands ν → Bool
  | .nil => false
  | .cons first rest => first.calls || rest.calls

def Stagings.calls {ν : Type} : Stagings ν → Bool
  | .nil => false
  | .cons _ parts calls rest => parts.calls || calls || rest.calls

end

def Operands.length {ν : Type} : Operands ν → Nat
  | .nil => 0
  | .cons _ rest => rest.length + 1

structure Declarator (ν : Type) where
  name : String
  type : DeclType
  target : ν
  init : Option (Expr ν) := none
  /-- The declaration of a static local, as the resolver numbers them. -/
  node : Nat := 0

inductive ForeachSource where
  | array | container | string

inductive Stmt (ν : Type) where
  | skip
  | seq (first second : Stmt ν)
  | block (body : Stmt ν)
  | decl (isStatic : Bool) (declarators : List (Declarator ν))
  | assign (target : ν) (type : DeclType) (value : Expr ν)
  /-- Statements that only stage operands: calls, assertions, `throw`, stores to members and elements. -/
  | eval (operands : Operands ν) (calls : Bool)
  | ifElse (condition : Expr ν) (thenStmt elseStmt : Stmt ν)
  | whileLoop (condition : Expr ν) (body : Stmt ν)
  | doLoop (body : Stmt ν) (condition : Expr ν)
  | forLoop (declarators : List (Declarator ν)) (condition : Expr ν) (fini body : Stmt ν)
  | foreachLoop (var : String) (type : DeclType) (source : ForeachSource) (iterable : Expr ν) (body : Stmt ν)
  | switch (condition : Expr ν) (clauses : Stmt ν)
  | clause (labels : List (Expr ν)) (body rest : Stmt ν)
  | tryCatch (body handlers : Stmt ν)
  | tryFinally (body handlers finallyBody : Stmt ν)
  | handler (var : String) (body rest : Stmt ν)
  | result (value : Option (Expr ν))
  | breakLoop
  | continueLoop

def Stmt.isBody {ν : Type} : Stmt ν → Bool
  | .decl _ _ | .seq _ _ => false
  | _ => true

mutual

def Expr.traverse {ν μ : Type} (bind : ν → Option μ) : Expr ν → Option (Expr μ)
  | .value type => some (.value type)
  | .name x gated type => (bind x).map (.name · gated type)
  | .inPlace operand type => (operand.traverse bind).map (.inPlace · type)
  | .render operand => (operand.traverse bind).map .render
  | .logical left right => do return .logical (← left.traverse bind) (← right.traverse bind)
  | .binary left right type => do return .binary (← left.traverse bind) (← right.traverse bind) type
  | .staged parts calls type => (parts.traverse bind).map (.staged · calls type)
  | .method receiver args calls type => do
      return .method (← receiver.traverse bind) (← args.traverse bind) calls type
  | .delegate receiver args type => do return .delegate (← receiver.traverse bind) (← args.traverse bind) type
  | .construct args entries calls type => do
      return .construct (← args.traverse bind) (← entries.traverse bind) calls type
  | .rows entries type => (entries.traverse bind).map (.rows · type)

def Operands.traverse {ν μ : Type} (bind : ν → Option μ) : Operands ν → Option (Operands μ)
  | .nil => some .nil
  | .cons first rest => do return .cons (← first.traverse bind) (← rest.traverse bind)

def Stagings.traverse {ν μ : Type} (bind : ν → Option μ) : Stagings ν → Option (Stagings μ)
  | .nil => some .nil
  | .cons lead parts calls rest => do
      return .cons lead (← parts.traverse bind) calls (← rest.traverse bind)

end

end NLang.Backend
