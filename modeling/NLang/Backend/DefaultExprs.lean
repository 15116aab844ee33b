import NLang.Backend.FoldedDefaults
import NLang.Backend.MemberTables
import NLang.Compiler.OverloadMatch
import NLang.Linker.ExprDescs

/-!
# Default expressions across units

`EncodeDefaultExpr` (`Types.cpp`), which writes a default that does not fold, and `SynthExprDescNode`
(`CompiledModuleDefaultSupport.hpp`), which rebuilds it in another unit; the callee that the resolver finds for a rebuilt
call.
-/

namespace NLang.Backend.Described
open NLang.Library NLang.Library.Words NLang.Library.Walks NLang.Vm NLang.Image NLang.Compiler NLang.Linker
open NLang.Backend.Folded (Literal ScalarLiteral code)

inductive BinaryOp where
  | add | sub | mul | div | mod
  | less | lessEqual | greater | greaterEqual | equal | notEqual
  | logicalAnd | logicalOr
  | shl | shr

inductive SnExpression where
  | literal (lit : Literal)
  | identifier (field : Option Nat)
  | neg (operand : SnExpression)
  | logicalNot (operand : SnExpression)
  | binary (op : BinaryOp) (left right : SnExpression)
  | invoke (callee : Option FunctionEntry) (params : List SnExpression)
  | other

inductive SynthExpr where
  | literal (lit : Literal)
  | identifier (name : Text)
  | neg (operand : SynthExpr)
  | binary (op : BinaryOp) (left right : SynthExpr)
  | moduleCall (chain : List Text) (leaf : Text) (args : List SynthExpr)

abbrev Encode (α : Type) := OptionT (StateM (List Text)) α

def addStringConstant (s : Text) : Encode Nat := fun pool =>
  match (pool.take (pool.length % 2 ^ 16)).findIdx? (· = s) with
  | some existing => (some existing, pool)
  | none => (some (pool.length % 2 ^ 16), pool ++ [s])

def describedRows : List ScalarPrim := [.int32, .float, .double, .long, .ulong]

def encodeLiteralDesc : Literal → Encode Bytes
  | .null => pure [ExprTag.null]
  | .scalar lit => if lit.row ∈ describedRows then pure (code lit.row :: putWord lit.row.slotWidth lit.bits) else failure
  | .string content => do
      let idx ← addStringConstant content
      return ExprTag.string :: putWord 4 idx

def opCode : BinaryOp → Option UInt8
  | .add => some 0
  | .sub => some 1
  | .mul => some 2
  | .div => some 3
  | .mod => some 4
  | .shl => some 5
  | .shr => some 6
  | _ => none

section Encoder
variable (build : Build) (modulePath : Text) (formals : List Nat)

def key (callee : FunctionEntry) : Text := build.functionKey callee.decl callee.fn

def isMethodCallee (callee : FunctionEntry) : Bool :=
  match callee.decl.node with
  | .classDecl _ | .enumDecl _ _ => true
  | _ => false

def encodeCallHead (callee : FunctionEntry) (argCount : Nat) : Option Bytes :=
  let key := key build callee
  let lead := modulePath ++ [dot]
  if callee.decl.isImported || isMethodCallee callee then none
  else if key.length ≤ lead.length ∨ key.take lead.length ≠ lead then none
  else if argCount ≠ callee.fn.params ∨ 255 < argCount then none
  else some (ExprTag.call :: (putWord 2 key.length ++ (key ++ (putWord 4 argCount ++ putWord 1 argCount))))

mutual

def encodeExprDesc (allowCall : Bool) (depth : Nat) (expr : SnExpression) : Encode Bytes :=
  if kMaxExprDescDepth < depth then failure
  else
    match expr with
    | .literal lit => encodeLiteralDesc lit
    | .identifier none => failure
    | .identifier (some field) =>
      match formals.findIdx? (· = field) with
      | some i => pure [ExprTag.formalRef, UInt8.ofNat i]
      | none => failure
    | .neg operand => do
        let inner ← encodeExprDesc allowCall (depth + 1) operand
        return ExprTag.neg :: inner
    | .logicalNot _ => failure
    | .binary op left right =>
      match opCode op with
      | some operator => do
          let first ← encodeExprDesc allowCall (depth + 1) left
          let second ← encodeExprDesc allowCall (depth + 1) right
          return ExprTag.binary :: operator :: (first ++ second)
      | none => failure
    | .invoke none _ => failure
    | .invoke (some callee) params =>
      if allowCall then
        match encodeCallHead build modulePath callee params.length with
        | some head => do
            let args ← encodeArgs (depth + 1) params
            return head ++ args
        | none => failure
      else failure
    | .other => failure

def encodeArgs (depth : Nat) : List SnExpression → Encode Bytes
  | [] => pure []
  | arg :: args => do
      let first ← encodeExprDesc false depth arg
      let others ← encodeArgs depth args
      return first ++ others

end

def kMaxExprDescBytes : Nat := 4096

def encodeDefaultExpr (expr : SnExpression) (dv : DefaultValueDesc) (pool : List Text) : Option DefaultValueDesc × List Text :=
  match encodeExprDesc build modulePath formals true 0 expr pool with
  | (some bytes, last) =>
    if kMaxExprDescBytes < bytes.length then (none, last) else (some { dv with tag := Image.Rtk.expr, exprBytes := bytes }, last)
  | (none, last) => (none, last)

end Encoder

inductive SynthError where
  | truncatedStream | stringIndexOutOfRange
  | truncatedCall | truncatedCallKey | unqualifiedCallKey
  | notAFunction (key : Text)
  | tooDeep | formalIndexOutOfRange | badBinaryOperator | unknownNodeTag | trailingBytes

abbrev Rebuild (α : Type) := Walk SynthError Nat α

def scalarRow (tag : UInt8) : Option ScalarPrim := describedRows.find? (code · = tag)

def scalarOf (row : ScalarPrim) (word : Nat) : ScalarLiteral := ⟨row, word % row.span, Nat.mod_lt _ (Nat.two_pow_pos _)⟩

def kOps : List BinaryOp := [.add, .sub, .mul, .div, .mod, .shl, .shr]

def qualifiedParts (key : Text) : Option (Text × Text) :=
  let leaf := leafNameOfKey key
  let path := key.take (key.length - leaf.length - 1)
  if dot ∉ key ∨ path = [] ∨ leaf = [] then none else some (path, leaf)

def moduleChain (path : Text) : List Text := path.splitOn dot

section Rebuild
variable (cm : CompiledModule) (stubFormalNames : List Text)

def isCallTarget (key : Text) (paramCount argCount : Nat) : Bool :=
  match cm.findFunction key with
  | none => false
  | some idx => (cm.functions[idx]?.getD {}).paramCount.toNat = paramCount ∧ argCount = paramCount

def stringConstant (idx : Nat) : Except SynthError SynthExpr :=
  match cm.stringConstants[idx]? with
  | some content => .ok (.literal (.string content))
  | none => .error .stringIndexOutOfRange

def formalName (idx : Nat) : Except SynthError SynthExpr :=
  match stubFormalNames[idx]? with
  | some (byte :: name) => .ok (.identifier (byte :: name))
  | _ => .error .formalIndexOutOfRange

def callTarget (key : Text) (paramCount argCount : Nat) : Except SynthError (List Text × Text) :=
  if isCallTarget cm key paramCount argCount then
    match qualifiedParts key with
    | some (path, leaf) => .ok (moduleChain path, leaf)
    | none => .error .unqualifiedCallKey
  else .error (.notAFunction key)

variable (data : Bytes)

def word (width : Nat) (reason : SynthError) : Rebuild Nat := do return wordOf (← read data reason width)

def check {α : Type} (result : Except SynthError α) : Rebuild α := fun pos =>
  match result with
  | .ok value => .ok (value, pos)
  | .error reason => .error (.refused reason)

/-- `SynthExprDescLiteral`: nothing for the tags of the other nodes. -/
def synthExprDescLiteral (tag : UInt8) : Rebuild (Option SynthExpr) :=
  match scalarRow tag with
  | some row => do
      let bits ← word data row.slotWidth .truncatedStream
      return some (.literal (.scalar (scalarOf row bits)))
  | none =>
    if tag = ExprTag.string then do
      let idx ← word data 4 .truncatedStream
      let lit ← check (stringConstant cm idx)
      return some lit
    else if tag = ExprTag.null then return some (.literal .null)
    else return none

def synthExprDescCall (child : Rebuild SynthExpr) : Rebuild SynthExpr := do
  let keyLen ← word data 2 .truncatedCall
  if keyLen = 0 then refuse .truncatedCall
  else do
    let key ← read data .truncatedCallKey keyLen
    let paramCount ← word data 4 .truncatedCall
    let argCount ← word data 1 .truncatedCall
    let (chain, leaf) ← check (callTarget cm key paramCount argCount)
    let args ← times child argCount
    return .moduleCall chain leaf args

def synthNodeTag (child : Rebuild SynthExpr) (tag : UInt8) : Rebuild SynthExpr :=
  if tag = ExprTag.formalRef then do
    let idx ← word data 1 .truncatedStream
    check (formalName stubFormalNames idx)
  else if tag = ExprTag.neg then do
    let operand ← child
    return .neg operand
  else if tag = ExprTag.binary then do
    let opCode ← word data 1 .badBinaryOperator
    match kOps[opCode]? with
    | none => refuse .badBinaryOperator
    | some op => do
        let left ← child
        let right ← child
        return .binary op left right
  else if tag = ExprTag.call then synthExprDescCall cm data child
  else refuse .unknownNodeTag

def synthTag (child : Rebuild SynthExpr) (tag : UInt8) : Rebuild SynthExpr := do
  match ← synthExprDescLiteral cm data tag with
  | some lit => return lit
  | none => synthNodeTag cm stubFormalNames data child tag

def synthExprDescNode : Nat → Nat → Rebuild SynthExpr
  | 0, _ => outOfCalls
  | calls + 1, depth =>
    if kMaxExprDescDepth < depth then refuse .tooDeep
    else do
      let tag ← word data 1 .truncatedStream
      synthTag cm stubFormalNames data (synthExprDescNode calls (depth + 1)) (UInt8.ofNat tag)

def synthDefaultExpr : Except (Fault SynthError) SynthExpr := do
  let (expr, last) ← synthExprDescNode cm stubFormalNames data (kMaxExprDescDepth + 2) 0 0
  if last = data.length then .ok expr else .error (.refused .trailingBytes)

end Rebuild

end NLang.Backend.Described
