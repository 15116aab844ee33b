import NLang.Image.Records
import NLang.Vm.ObjectStream
import NLang.Vm.ScalarPrims

/-!
# Folded defaults

The defaults and constants that are folded into an image: `ExtractDefaultValue` and `CoerceDefaultToDeclared`
(`Types.cpp`), the checks of `FieldInitializerChecks.hpp`, `ExprResolverCastFit.cpp` and
`StatementResolverDeclDefaults.cpp`, the fill of `VmDefaultMaterializer.cpp`, and the literal that another unit rebuilds
(`CompiledModuleDefaultSupport.hpp`) and reads (`EmitExprMember.cpp`). Numbers are bit patterns of their row.
-/

namespace NLang.Backend.Folded
open NLang.Vm NLang.Image

structure ScalarLiteral where
  row : ScalarPrim
  bits : Nat
  fits : bits < row.span

inductive Literal where
  | null
  | scalar (lit : ScalarLiteral)
  | string (content : Text)

inductive SnExpression where
  | literal (lit : Literal)
  | neg (lit : Literal)
  | other

inductive Declared where
  | scalar (row : ScalarPrim)
  | enum
  | string
  | object
  | reference

def rtk : ScalarPrim → Rtk
  | .int32 => .int32
  | .float => .float
  | .byte => .byte
  | .ubyte => .ubyte
  | .short => .short
  | .ushort => .ushort
  | .uint32 => .uint32
  | .long => .long
  | .ulong => .ulong
  | .double => .double
  | .bool => .bool
  | .char => .char

def code (p : ScalarPrim) : UInt8 := ObjectStream.kindCode (rtk p)

def kScalarPrims : List ScalarPrim :=
  [.int32, .float, .byte, .ubyte, .short, .ushort, .uint32, .long, .ulong, .double, .bool, .char]

def scalarPrimOfRtk (tag : UInt8) : Option ScalarPrim := kScalarPrims.find? (code · = tag)

def rtkNull : UInt8 := 0xFD

def Declared.runtimeTypeKind : Declared → UInt8
  | .scalar row => code row
  | .enum => code .int32
  | .string => Rtk.string
  | .object | .reference => Rtk.cls

section Fold
variable (unit : FloatUnit)

def extractLiteralDefault (stringIdx : Text → Nat) : Literal → DefaultValueDesc
  | .null => { tag := rtkNull }
  | .string content => { tag := Rtk.string, stringIdx := UInt32.ofNat (stringIdx content) }
  | .scalar lit =>
    match lit.row with
    | .int32 | .bool | .char => { tag := code lit.row, intValue := UInt32.ofNat lit.bits }
    | .float => { tag := code .float, floatValue := UInt32.ofNat lit.bits }
    | .double => { tag := code .double, doubleValue := UInt64.ofNat lit.bits }
    | .long | .ulong => { tag := code lit.row, longValue := UInt64.ofNat lit.bits }
    | _ => {}

def extractNegatedLiteralDefault : Literal → DefaultValueDesc
  | .null => { tag := code .int32, intValue := 0 }
  | .string _ => {}
  | .scalar lit =>
    match lit.row with
    | .int32 => { tag := code .int32, intValue := -UInt32.ofNat lit.bits }
    | .long => { tag := code .long, longValue := -UInt64.ofNat lit.bits }
    | .ulong => if lit.bits = 2 ^ 63 then { tag := code .long, longValue := UInt64.ofInt (-2 ^ 63) } else {}
    | .float => { tag := code .float, floatValue := UInt32.ofNat (unit.neg .float lit.bits) }
    | .double => { tag := code .double, doubleValue := UInt64.ofNat (unit.neg .double lit.bits) }
    | _ => {}

inductive Channel where
  | ival (v : Int)
  | dval (bits : Nat)

def channelOf (dv : DefaultValueDesc) : Option Channel :=
  match scalarPrimOfRtk dv.tag with
  | some .int32 | some .bool | some .char => some (.ival (ScalarPrim.value .int32 dv.intValue.toNat))
  | some .long | some .ulong => some (.ival (ScalarPrim.value .long dv.longValue.toNat))
  | some .float => some (.dval (unit.convert .float .double dv.floatValue.toNat))
  | some .double => some (.dval dv.doubleValue.toNat)
  | _ => none

def Channel.signed : Channel → Int
  | .ival v => v
  | .dval bits => unit.truncate .double bits

def Channel.toFloat : Channel → Nat
  | .ival v => unit.ofInt .float v
  | .dval bits => unit.convert .double .float bits

def Channel.toDouble : Channel → Nat
  | .ival v => unit.ofInt .double v
  | .dval bits => bits

def stampDeclared (dv : DefaultValueDesc) (channel : Channel) (kind : UInt8) : DefaultValueDesc :=
  match scalarPrimOfRtk kind with
  | some .float => { dv with floatValue := UInt32.ofNat (channel.toFloat unit), tag := code .float }
  | some .double => { dv with doubleValue := UInt64.ofNat (channel.toDouble unit), tag := code .double }
  | some .long | some .ulong => { dv with longValue := UInt64.ofInt (channel.signed unit), tag := kind }
  | some _ => { dv with intValue := UInt32.ofInt (channel.signed unit), tag := code .int32 }
  | none => dv

def coerceDefaultToDeclared (dv : DefaultValueDesc) (kind : UInt8) : DefaultValueDesc :=
  if dv.tag = Image.Rtk.void ∨ dv.tag = kind ∨ dv.tag = rtkNull ∨ dv.tag = Image.Rtk.string then dv
  else
    match channelOf unit dv with
    | some channel => stampDeclared unit dv channel kind
    | none => dv

def foldDefault (stringIdx : Text → Nat) : SnExpression → DefaultValueDesc
  | .literal lit => extractLiteralDefault stringIdx lit
  | .neg lit => extractNegatedLiteralDefault unit lit
  | .other => {}

def extractDefaultValue (stringIdx : Text → Nat) (e : SnExpression) (kind : UInt8) : DefaultValueDesc :=
  coerceDefaultToDeclared unit (foldDefault unit stringIdx e) kind

end Fold

inductive CastKind where
  | none | same | auto | box | explicit
  deriving DecidableEq

def rank : ScalarPrim → Nat
  | .float | .byte | .ubyte | .bool | .char => 1
  | .short | .ushort | .double => 2
  | .int32 | .uint32 => 3
  | .long | .ulong => 4

def isNumeric (p : ScalarPrim) : Bool := p.isInteger ∨ p.category = .float

def primDomainContained (a b : ScalarPrim) : Bool :=
  if a.category = b.category then rank a ≤ rank b
  else a.category = .uint ∧ b.category = .sint ∧ rank a + 1 ≤ rank b

def deriveScalarCast (src dst : ScalarPrim) : CastKind :=
  if src = dst then .same
  else if src.category = .bool ∨ dst.category = .bool then .none
  else if src.category = .char ∨ dst.category = .char then .explicit
  else if src.category ≠ .float ∧ dst.category = .float then .auto
  else if src.category = .float ∧ dst.category ≠ .float then .explicit
  else if primDomainContained src dst then .auto
  else .explicit

def castInfo (src : ScalarPrim) : Declared → CastKind
  | .scalar dst => deriveScalarCast src dst
  | .enum => deriveScalarCast src .int32
  | .string => .auto
  | .object => .box
  | .reference => if src = .int32 then .auto else .none

inductive ConstLiteralValue where
  | int (row : ScalarPrim) (v : Int)
  | floating (row : ScalarPrim) (bits : Nat)

section Checks
variable (unit : FloatUnit)

def tryGetLiteral : Literal → Option ConstLiteralValue
  | .null => some (.int .int32 0)
  | .string _ => none
  | .scalar lit =>
    match lit.row with
    | .int32 | .long | .ulong => some (.int lit.row (lit.row.value lit.bits))
    | .float | .double => some (.floating lit.row lit.bits)
    | _ => none

def tryGetConstantLiteral : SnExpression → Option ConstLiteralValue
  | .literal lit => tryGetLiteral lit
  | .neg lit =>
    match tryGetLiteral lit with
    | some (.int .ulong v) => if v = 2 ^ 63 then some (.int .long (-2 ^ 63)) else none
    | some (.int row v) => some (.int row (-v))
    | some (.floating row bits) => some (.floating row (unit.neg row bits))
    | none => none
  | .other => none

def fitsRow (row target : ScalarPrim) (v : Int) : Bool :=
  if target.category = .uint then 0 ≤ v ∧ v < target.span
  else row ≠ .ulong ∧ -(target.span / 2 : Int) ≤ v ∧ v < target.span / 2

def doubleFitsFloat (bits : Nat) : Bool :=
  let narrowed := unit.convert .double .float bits
  narrowed / 2 ^ 23 % 2 ^ 8 ≠ 255 ∧ unit.compare .equal .double (unit.convert .float .double narrowed) bits

def constantFits (e : SnExpression) (target : ScalarPrim) : Bool :=
  match tryGetConstantLiteral unit e with
  | some (.int row v) => target.isInteger && fitsRow row target v
  | some (.floating .double bits) => target = .float && doubleFitsFloat unit bits
  | _ => false

inductive ConstantFoldKind where
  | notFoldable | null | string
  | scalar (row : ScalarPrim)
  deriving DecidableEq

def classifyConstantInitializer (e : SnExpression) : ConstantFoldKind :=
  match e with
  | .literal .null => .null
  | .literal (.string _) => .string
  | .literal (.scalar lit) =>
    if lit.row = .bool ∨ lit.row = .char then .scalar lit.row
    else
      match tryGetConstantLiteral unit e with
      | some (.int row _) | some (.floating row _) => .scalar row
      | none => .notFoldable
  | _ =>
    match tryGetConstantLiteral unit e with
    | some (.int row _) | some (.floating row _) => .scalar row
    | none => .notFoldable

def foldsAtCompileTime (e : SnExpression) (declared : Declared) : Bool :=
  match declared, classifyConstantInitializer unit e with
  | .enum, _ | .object, _ | .reference, _ => false
  | _, .notFoldable => false
  | _, .null => true
  | .string, kind => kind = .string
  | .scalar _, .string => false
  | .scalar row, .scalar source =>
    match deriveScalarCast source row with
    | .same | .auto => true
    | .explicit => constantFits unit e row
    | _ => false

def evalRow : SnExpression → Option ScalarPrim
  | .literal (.scalar lit) | .neg (.scalar lit) => some lit.row
  | .literal .null => some .int32
  | _ => none

def checkDefaultTypeCompat (e : SnExpression) (declared : Declared) : Bool :=
  match evalRow e with
  | none => false
  | some source =>
    match castInfo source declared, declared with
    | .none, _ => false
    | .explicit, .scalar row => constantFits unit e row
    | .explicit, _ => false
    | _, _ => true

end Checks

section Cells
variable (unit : FloatUnit)

def materializeDefaultValue (fresh : Nat) (dv : DefaultValueDesc) : Option Nat :=
  match scalarPrimOfRtk dv.tag with
  | some .int32 | some .bool | some .char => some dv.intValue.toNat
  | some .long | some .ulong => some dv.longValue.toNat
  | some .float => some dv.floatValue.toNat
  | some .double => some dv.doubleValue.toNat
  | some _ => none
  | none =>
    if dv.tag = rtkNull then some 0
    else if dv.tag = Image.Rtk.string then some fresh
    else none

def emitExpression (old : Nat) : SnExpression → Option (ScalarPrim × Nat)
  | .literal (.scalar lit) => some (lit.row, lit.row.store old lit.bits)
  | .neg (.scalar lit) => do
      let cell := lit.row.store old lit.bits
      some (lit.row, lit.row.store cell (← negEntry unit lit.row cell))
  | _ => none

/-- `EmitScalarSlotCast` and the casts of `FixupExprType`: none between equal rows. -/
def castSlot (source row : ScalarPrim) (cell : Nat) : Option Nat :=
  if source = row then some cell else (castCell unit source row cell).map (row.store cell)

def storeExpression (declared : Declared) (old fresh : Nat) (e : SnExpression) : Option Nat := do
  let (source, cell) ← emitExpression unit old e
  match declared with
  | .scalar row => castSlot unit source row cell
  | .enum => if source = .int32 then some cell else none
  | .string | .object => some fresh
  | .reference => none

def emitDefaultBinding (declared : Declared) (old : Nat) (e : SnExpression) : Option Nat := do
  let (source, cell) ← emitExpression unit old e
  match declared with
  | .scalar row => castSlot unit source row cell
  | _ => some cell

def synthScalarDefault (content : Nat → Option Text) (dv : DefaultValueDesc) : Option Literal :=
  match scalarPrimOfRtk dv.tag with
  | some .int32 => some (.scalar ⟨.int32, dv.intValue.toNat, dv.intValue.toNat_lt⟩)
  | some .bool => some (.scalar ⟨.bool, dv.intValue.toNat, dv.intValue.toNat_lt⟩)
  | some .char => some (.scalar ⟨.char, dv.intValue.toNat, dv.intValue.toNat_lt⟩)
  | some .long => some (.scalar ⟨.long, dv.longValue.toNat, dv.longValue.toNat_lt⟩)
  | some .ulong => some (.scalar ⟨.ulong, dv.longValue.toNat, dv.longValue.toNat_lt⟩)
  | some .float => some (.scalar ⟨.float, dv.floatValue.toNat, dv.floatValue.toNat_lt⟩)
  | some .double => some (.scalar ⟨.double, dv.doubleValue.toNat, dv.doubleValue.toNat_lt⟩)
  | some _ => none
  | none =>
    if dv.tag = rtkNull then some .null
    else if dv.tag = Image.Rtk.string then (content dv.stringIdx.toNat).map .string
    else none

def foldedSignedValue (dv : DefaultValueDesc) : Option Int :=
  match scalarPrimOfRtk dv.tag with
  | some .bool | some .char | some .int32 => some (ScalarPrim.value .int32 dv.intValue.toNat)
  | some .long | some .ulong => some (ScalarPrim.value .long dv.longValue.toNat)
  | some .float => some (unit.truncate .float dv.floatValue.toNat)
  | some .double => some (unit.truncate .double dv.doubleValue.toNat)
  | _ => none

def foldedFloatingValue (dv : DefaultValueDesc) : Option Nat :=
  match scalarPrimOfRtk dv.tag with
  | some .int32 => some (unit.ofInt .double (ScalarPrim.value .int32 dv.intValue.toNat))
  | some .long => some (unit.ofInt .double (ScalarPrim.value .long dv.longValue.toNat))
  | some .ulong => some (unit.ofInt .double (ScalarPrim.value .ulong dv.longValue.toNat))
  | some .float => some (unit.convert .float .double dv.floatValue.toNat)
  | some .double => some dv.doubleValue.toNat
  | _ => none

def foldedCell (declared : Declared) (old fresh : Nat) (dv : DefaultValueDesc) : Option Nat :=
  if dv.tag = Image.Rtk.void then none
  else if dv.tag = rtkNull then some 0
  else
    match declared with
    | .string => some fresh
    | .scalar .float => (foldedFloatingValue unit dv).map fun bits => ScalarPrim.store .float old (unit.convert .double .float bits)
    | .scalar .double => (foldedFloatingValue unit dv).map fun bits => ScalarPrim.store .double old bits
    | .scalar row =>
      (foldedSignedValue unit dv).map (if row.slotWidth = 8 then ScalarPrim.store .long old else ScalarPrim.store .int32 old)
    | _ => (foldedSignedValue unit dv).map (ScalarPrim.store .int32 old)

def emitFoldedConstantRead (stringIdx : Text → Nat) (declared : Declared) (old fresh : Nat) (e : SnExpression) : Option Nat :=
  if foldsAtCompileTime unit e declared then
    foldedCell unit declared old fresh (extractDefaultValue unit stringIdx e declared.runtimeTypeKind)
  else none

end Cells

end NLang.Backend.Folded
