import Mathlib

/-!
# Scalar primitives

The registry of `PrimitiveTypes.h` and the tables of `VmExecutorOpsPrim.cpp` that are instantiated from it. A cell is
the number of its little-endian bytes. An operation writes the bytes of its carrier and leaves the others.
-/

namespace NLang.Vm

inductive ScalarPrimCategory where
  | sint | uint | float | bool | char
  deriving DecidableEq

inductive ScalarPrim where
  | int32 | float | byte | ubyte | short | ushort | uint32 | long | ulong | double | bool | char
  deriving DecidableEq

namespace ScalarPrim

def slotWidth : ScalarPrim → Nat
  | .byte | .ubyte => 1
  | .short | .ushort => 2
  | .int32 | .float | .uint32 | .bool | .char => 4
  | .long | .ulong | .double => 8

def category : ScalarPrim → ScalarPrimCategory
  | .int32 | .byte | .short | .long => .sint
  | .ubyte | .ushort | .uint32 | .ulong => .uint
  | .float | .double => .float
  | .bool => .bool
  | .char => .char

def isNarrow (p : ScalarPrim) : Bool := p.slotWidth < 4
def isInteger (p : ScalarPrim) : Bool := p.category = .sint ∨ p.category = .uint

def span (p : ScalarPrim) : Nat := 2 ^ (8 * p.slotWidth)

def wrap (p : ScalarPrim) (v : Int) : Int :=
  if p.category = .sint ∧ (p.span : Int) / 2 ≤ v % p.span then v % p.span - p.span else v % p.span

def value (p : ScalarPrim) (cell : Nat) : Int := p.wrap cell

def store (p : ScalarPrim) (cell : Nat) (v : Int) : Nat := cell / p.span * p.span + (v % p.span).toNat

end ScalarPrim

inductive ArithOp where
  | add | sub | mul | div | mod | shl | shr
  deriving DecidableEq

inductive CmpOp where
  | less | lessEq | greater | greaterEq | equal | notEqual
  deriving DecidableEq

structure FloatUnit where
  arith : ArithOp → ScalarPrim → Nat → Nat → Nat
  neg : ScalarPrim → Nat → Nat
  isZero : ScalarPrim → Nat → Bool
  compare : CmpOp → ScalarPrim → Nat → Nat → Bool
  truncate : ScalarPrim → Nat → Int
  ofInt : ScalarPrim → Int → Nat
  convert : ScalarPrim → ScalarPrim → Nat → Nat

def CmpOp.run : CmpOp → Int → Int → Bool
  | .less, a, b => a < b
  | .lessEq, a, b => a ≤ b
  | .greater, a, b => b < a
  | .greaterEq, a, b => b ≤ a
  | .equal, a, b => a = b
  | .notEqual, a, b => a ≠ b

section Entries
variable (unit : FloatUnit)

/-- `ArithEntry` behind its handler: what an integer row writes. Nothing for a zero divisor or a count that is out of
range. -/
def arithInt (p : ScalarPrim) (x y : Int) : ArithOp → Option Int
  | .add => some (x + y)
  | .sub => some (x - y)
  | .mul => some (x * y)
  | .div => if y = 0 then none else some (x.tdiv y)
  | .mod => if y = 0 then none else some (x.tmod y)
  | .shl => if y < 0 ∨ (8 * p.slotWidth : Int) ≤ y then none else some (x * 2 ^ y.toNat)
  | .shr => if y < 0 ∨ (8 * p.slotWidth : Int) ≤ y then none else some (x / 2 ^ y.toNat)

def arithEntry (op : ArithOp) (p : ScalarPrim) (d s : Nat) : Option Int :=
  if p.isInteger then arithInt p (p.value d) (p.value s) op
  else if p.category ≠ .float ∨ op = .shl ∨ op = .shr then none
  else if (op = .div ∨ op = .mod) ∧ unit.isZero p (s % p.span) then none
  else some (unit.arith op p (d % p.span) (s % p.span))

def negEntry (p : ScalarPrim) (d : Nat) : Option Int :=
  if p.isInteger then some (-p.value d)
  else if p.category = .float then some (unit.neg p (d % p.span))
  else none

def cmpEntry (op : CmpOp) (p : ScalarPrim) (l r : Nat) : Option Bool :=
  if p.category = .bool ∧ op ≠ .equal ∧ op ≠ .notEqual then none
  else if p.category = .float then some (unit.compare op p (l % p.span) (r % p.span))
  else some (op.run (p.value l) (p.value r))

def isScalarValue (v : Int) : Bool := 0 ≤ v ∧ v ≤ 0x10FFFF ∧ ¬ (0xD800 ≤ v ∧ v ≤ 0xDFFF)

def castCell (s d : ScalarPrim) (cell : Nat) : Option Int :=
  if s.category = .bool ∨ d.category = .bool then none
  else if s.category = .float then
    let bits := cell % s.span
    if d.category = .char ∧ isScalarValue (unit.truncate s bits) = false then none
    else if d.category = .float then some (unit.convert s d bits)
    else some (unit.truncate s bits)
  else if d.category = .char ∧ isScalarValue (s.value cell) = false then none
  else if d.category = .float then some (unit.ofInt d (s.value cell))
  else some (s.value cell)

end Entries

structure BoxedRecord where
  tag : ScalarPrim
  lo : Nat
  hi : Nat

def opBox (p : ScalarPrim) (cell : Nat) : BoxedRecord :=
  if p.slotWidth = 8 then { tag := p, lo := cell % 2 ^ 32, hi := cell / 2 ^ 32 % 2 ^ 32 }
  else { tag := p, lo := cell % 2 ^ 32, hi := 0 }

def boxedValuesEqual (a b : BoxedRecord) : Bool :=
  a.tag = b.tag ∧ a.lo = b.lo ∧ (a.tag.slotWidth < 8 ∨ a.hi = b.hi)

end NLang.Vm
