import NLang.Library.HostIntegers
import NLang.Vm.NarrowCells

/-!
# Integer instructions

`ArithEntry` as the host evaluates it, with the handlers of `VmExecutorOpsPrim.cpp` before it. `arithInt` is what the
manual says: the exact result, wrapped to the row. They agree wherever the host defines its result.
-/

namespace NLang.Vm.IntegerOps
open NLang.Library.HostIntegers ScalarPrim

def carrier (p : ScalarPrim) : IntType := ⟨8 * p.slotWidth, p.category = .sint⟩

section Entries
variable (unit : FloatUnit) (t : IntType) (d s : Int)

def negated : Option Int := (t.unsigned.promote.result (0 - t.unsigned.convert d)).map t.convert

def divInt : Option Int := if t.signed ∧ s = -1 then negated t d else t.div d s
def modInt : Option Int := if t.signed ∧ s = -1 then some 0 else t.rem d s
def negInt : Option Int := if t.signed then negated t d else t.neg d
def shlInt : Option Int := (t.unsigned.shl (t.unsigned.convert d) s).map t.convert

abbrev PrimBinFn := Nat → Nat → Option Nat

variable (p : ScalarPrim)

def entry (op : ArithOp) (onInts : IntType → Int → Int → Option Int) : PrimBinFn := fun d s =>
  if p.category = .float then some (p.store d (unit.arith op p (d % p.span) (s % p.span)))
  else (onInts (carrier p) (p.value d) (p.value s)).map (p.store d)

def addImpl : PrimBinFn := entry unit p .add IntType.add
def subImpl : PrimBinFn := entry unit p .sub IntType.sub
def mulImpl : PrimBinFn := entry unit p .mul IntType.mul
def divImpl : PrimBinFn := entry unit p .div divInt
def modImpl : PrimBinFn := entry unit p .mod modInt
def shlImpl : PrimBinFn := entry unit p .shl shlInt
def shrImpl : PrimBinFn := entry unit p .shr IntType.shr

def negImpl (d : Nat) : Option Nat :=
  if p.category = .float then some (p.store d (unit.neg p (d % p.span)))
  else (negInt (carrier p) (p.value d)).map (p.store d)

def kNumeric : Bool := p.isInteger || p.category = .float

def tableOf {α : Type} (impl : ScalarPrim → α) (has : ScalarPrim → Bool) (row : Option ScalarPrim) : Option (ScalarPrim × α) :=
  (row.filter has).map fun p => (p, impl p)

end Entries

inductive Fault where
  | unsupportedKind | divisionByZero | moduloByZero | shiftCountOutOfRange
  deriving DecidableEq

inductive Outcome where
  | wrote (cell : Nat)
  | raised (fault : Fault)
  | undefined
  deriving DecidableEq

def Outcome.ofCell : Option Nat → Outcome
  | some cell => .wrote cell
  | none => .undefined

section Handlers
variable (unit : FloatUnit)

def readScalarAsInt64 (p : ScalarPrim) (cell : Nat) : Int :=
  match p.category with
  | .uint => if p.slotWidth = 8 then ScalarPrim.wrap .long (p.value cell) else p.value cell
  | .float => unit.truncate p (cell % p.span)
  | _ => p.value cell

def slotIsZeroDivisor (p : ScalarPrim) (cell : Nat) : Bool :=
  if p.category = .float then unit.isZero p (cell % p.span)
  else (List.range p.slotWidth).all fun k => cell / 256 ^ k % 256 = 0

abbrev Check := ScalarPrim → Nat → Option Fault

def noCheck : Check := fun _ _ => none

def checkDivisor (fault : Fault) : Check := fun p s => if slotIsZeroDivisor unit p s then some fault else none

def checkShiftCount : Check := fun p s =>
  let count := readScalarAsInt64 unit p s
  if count < 0 ∨ (8 * p.slotWidth : Int) ≤ count then some .shiftCountOutOfRange else none

def binary (impl : ScalarPrim → PrimBinFn) (has : ScalarPrim → Bool) (check : Check) (row : Option ScalarPrim) (d s : Nat) : Outcome :=
  match tableOf impl has row with
  | none => .raised .unsupportedKind
  | some (p, run) =>
    match check p s with
    | some fault => .raised fault
    | none => .ofCell (run d s)

def opAdd : Option ScalarPrim → Nat → Nat → Outcome := binary (addImpl unit) kNumeric noCheck
def opSub : Option ScalarPrim → Nat → Nat → Outcome := binary (subImpl unit) kNumeric noCheck
def opMul : Option ScalarPrim → Nat → Nat → Outcome := binary (mulImpl unit) kNumeric noCheck
def opDiv : Option ScalarPrim → Nat → Nat → Outcome := binary (divImpl unit) kNumeric (checkDivisor unit .divisionByZero)
def opMod : Option ScalarPrim → Nat → Nat → Outcome := binary (modImpl unit) kNumeric (checkDivisor unit .moduloByZero)
def opShl : Option ScalarPrim → Nat → Nat → Outcome := binary (shlImpl unit) isInteger (checkShiftCount unit)
def opShr : Option ScalarPrim → Nat → Nat → Outcome := binary (shrImpl unit) isInteger (checkShiftCount unit)

def opNeg (row : Option ScalarPrim) (d : Nat) : Outcome :=
  match tableOf (negImpl unit) kNumeric row with
  | none => .raised .unsupportedKind
  | some (_, run) => .ofCell (run d)

def onInts : ArithOp → IntType → Int → Int → Option Int
  | .add => IntType.add
  | .sub => IntType.sub
  | .mul => IntType.mul
  | .div => divInt
  | .mod => modInt
  | .shl => shlInt
  | .shr => IntType.shr

def opArith : ArithOp → Option ScalarPrim → Nat → Nat → Outcome
  | .add => opAdd unit
  | .sub => opSub unit
  | .mul => opMul unit
  | .div => opDiv unit
  | .mod => opMod unit
  | .shl => opShl unit
  | .shr => opShr unit

end Handlers

section Carriers
variable {p : ScalarPrim} {v x y : Int} {cell d s : Nat}

inductive IntegerRow : ScalarPrim → Prop where
  | byte : IntegerRow .byte
  | ubyte : IntegerRow .ubyte
  | short : IntegerRow .short
  | ushort : IntegerRow .ushort
  | int32 : IntegerRow .int32
  | uint32 : IntegerRow .uint32
  | long : IntegerRow .long
  | ulong : IntegerRow .ulong

theorem integerRow (isInt : p.isInteger) : IntegerRow p := by
  cases p with
  | byte => exact .byte
  | ubyte => exact .ubyte
  | short => exact .short
  | ushort => exact .ushort
  | int32 => exact .int32
  | uint32 => exact .uint32
  | long => exact .long
  | ulong => exact .ulong
  | _ => cases isInt

theorem carrier_span : (carrier p).span = p.span := by
  rw [IntType.span, carrier, ScalarPrim.span, Nat.cast_pow, Nat.cast_ofNat]

theorem wrap_eq_convert (isInt : p.isInteger) : p.wrap v = (carrier p).convert v := by
  cases integerRow isInt
  all_goals
    simp [wrap, IntType.convert, IntType.span, IntType.least, carrier, ScalarPrim.span, category, slotWidth]
    try omega

theorem value_holds (isInt : p.isInteger) : (carrier p).Holds (p.value cell) := by
  rw [value, wrap_eq_convert isInt]
  exact IntType.convert_holds

theorem store_congr (same : v ≡ x [ZMOD p.span]) : p.store cell v = p.store cell x := by
  rw [store, store, same]

theorem store_wrap (isInt : p.isInteger) : p.store cell (p.wrap v) = p.store cell v := by
  rw [wrap_eq_convert isInt]
  apply store_congr
  rw [← carrier_span]
  exact IntType.convert_modEq

theorem value_store : p.value (p.store cell v) = p.wrap v ∧ p.store cell v / p.span = cell / p.span := by
  have pos : 0 < p.span := Nat.two_pow_pos _
  have low := Int.emod_nonneg v (Int.natCast_ne_zero.mpr (Nat.pos_iff_ne_zero.mp pos))
  have high := Int.emod_lt_of_pos v (Int.natCast_pos.mpr pos)
  have small : (v % p.span).toNat < p.span := by omega
  constructor
  · have same : ((p.store cell v : Nat) : Int) % p.span = v % p.span := by
      rw [store, Nat.cast_add, Nat.cast_mul, Int.toNat_of_nonneg low, Int.add_comm, Int.add_mul_emod_self_right, Int.emod_emod_of_dvd _ (dvd_refl _)]
    rw [value, wrap, wrap, same]
  · rw [store, Nat.add_comm, Nat.add_mul_div_right _ _ pos, Nat.div_eq_of_lt small, Nat.zero_add]

end Carriers

def NoOverflow (p : ScalarPrim) (x y : Int) : ArithOp → Prop
  | .add => p = .int32 ∨ p = .long → p.wrap (x + y) = x + y
  | .sub => p = .int32 ∨ p = .long → p.wrap (x - y) = x - y
  | .mul => (p = .int32 ∨ p = .long → p.wrap (x * y) = x * y) ∧ (p = .ushort → x * y < 2 ^ 31)
  | _ => True

section Host
variable {p : ScalarPrim} {x y : Int}

theorem add_fits (isInt : p.isInteger) (first : (carrier p).Holds x) (second : (carrier p).Holds y) :
    ((carrier p).promote.signed = true → (carrier p).promote.Holds (x + y)) ↔ NoOverflow p x y .add := by
  cases integerRow isInt
  all_goals
    simp [NoOverflow, wrap, IntType.Holds, IntType.span, IntType.least, IntType.promote, carrier, ScalarPrim.span, category,
      slotWidth] at *
    try omega

theorem sub_fits (isInt : p.isInteger) (first : (carrier p).Holds x) (second : (carrier p).Holds y) :
    ((carrier p).promote.signed = true → (carrier p).promote.Holds (x - y)) ↔ NoOverflow p x y .sub := by
  cases integerRow isInt
  all_goals
    simp [NoOverflow, wrap, IntType.Holds, IntType.span, IntType.least, IntType.promote, carrier, ScalarPrim.span, category,
      slotWidth] at *
    try omega

theorem product_bounds {a : Int} (first : -a ≤ x ∧ x ≤ a) (second : -a ≤ y ∧ y ≤ a) : -(a * a) ≤ x * y ∧ x * y ≤ a * a := by
  have product : |x * y| ≤ a * a := by
    rw [abs_mul]
    exact mul_le_mul (abs_le.mpr first) (abs_le.mpr second) (abs_nonneg y) ((abs_nonneg x).trans (abs_le.mpr first))
  exact abs_le.mp product

theorem mul_fits (isInt : p.isInteger) (first : (carrier p).Holds x) (second : (carrier p).Holds y) :
    ((carrier p).promote.signed = true → (carrier p).promote.Holds (x * y)) ↔ NoOverflow p x y .mul := by
  have narrow := @product_bounds x y 255
  have short := @product_bounds x y 32768
  have sign : 0 ≤ x → 0 ≤ y → 0 ≤ x * y := Int.mul_nonneg
  cases integerRow isInt
  all_goals
    simp [NoOverflow, wrap, IntType.Holds, IntType.span, IntType.least, IntType.promote, carrier, ScalarPrim.span, category,
      slotWidth] at *
    try omega

theorem promote_holds (isInt : p.isInteger) (holds : (carrier p).Holds x) : (carrier p).promote.Holds x := by
  cases integerRow isInt
  all_goals
    simp [IntType.Holds, IntType.span, IntType.least, IntType.promote, carrier, category, slotWidth] at *
    try omega

theorem assign_holds (isInt : p.isInteger) (holds : (carrier p).Holds x) : (carrier p).assign x = some (p.wrap x) := by
  rw [IntType.assign_eq fun _ => promote_holds isInt holds, wrap_eq_convert isInt]

theorem negated_eq (isInt : p.isInteger) (holds : (carrier p).Holds x) : negated (carrier p) x = some (p.wrap (-x)) := by
  rw [wrap_eq_convert isInt]
  have negates {c : Int} (same : c ≡ 0 - (carrier p).unsigned.convert x [ZMOD (carrier p).span]) :
      (carrier p).convert c = (carrier p).convert (-x) := by
    have through : (carrier p).unsigned.convert x ≡ x [ZMOD (carrier p).span] := IntType.convert_modEq
    have minus := same.trans ((Int.ModEq.refl 0).sub through)
    rw [Int.zero_sub] at minus
    exact IntType.convert_congr minus
  have range : (carrier p).unsigned.Holds ((carrier p).unsigned.convert x) := IntType.convert_holds
  have fits : (carrier p).unsigned.promote.signed = true → (carrier p).unsigned.promote.Holds (0 - (carrier p).unsigned.convert x) := by
    cases integerRow isInt
    all_goals
      simp [IntType.Holds, IntType.span, IntType.least, IntType.promote, IntType.unsigned, carrier, category, slotWidth] at *
      try omega
  have wide : (carrier p).bits ≤ (carrier p).unsigned.promote.bits := @IntType.bits_le_promote (carrier p).unsigned
  unfold negated IntType.result
  split
  · rename_i signed
    rw [if_pos (fits signed), Option.map_some, negates (Int.ModEq.refl _)]
  · rw [Option.map_some, IntType.convert_convert wide, negates (Int.ModEq.refl _)]

theorem negInt_eq (isInt : p.isInteger) (holds : (carrier p).Holds x) : negInt (carrier p) x = some (p.wrap (-x)) := by
  unfold negInt
  split
  · exact negated_eq isInt holds
  · rename_i plain
    rw [wrap_eq_convert isInt]
    apply IntType.assign_eq
    intro signed
    cases integerRow isInt
    all_goals
      simp [IntType.Holds, IntType.span, IntType.least, IntType.promote, carrier, category, slotWidth] at *
      try omega

theorem tdiv_half (far : y ≠ 0 ∧ y ≠ 1 ∧ y ≠ -1) : 2 * (x.tdiv y).natAbs ≤ x.natAbs := by
  have size : (x.tdiv y).natAbs = x.natAbs / y.natAbs := Int.natAbs_tdiv x y
  have half : x.natAbs / y.natAbs ≤ x.natAbs / 2 := Nat.div_le_div_left (by omega) (by decide)
  omega

theorem quotient_holds (isInt : p.isInteger) (first : (carrier p).Holds x) (second : (carrier p).Holds y) (some_ : y ≠ 0)
    (plain : ¬ ((carrier p).signed = true ∧ y = -1)) : (carrier p).Holds (x.tdiv y) := by
  by_cases one : y = 1
  · rw [one, Int.tdiv_one]
    exact first
  · have half (other : y ≠ -1) := @tdiv_half x y ⟨some_, one, other⟩
    have sign : 0 ≤ x → 0 ≤ y → 0 ≤ x.tdiv y := Int.tdiv_nonneg
    generalize x.tdiv y = quotient at *
    cases integerRow isInt
    all_goals
      simp [IntType.Holds, IntType.span, IntType.least, carrier, category, slotWidth] at *
      try omega

theorem divInt_eq (isInt : p.isInteger) (first : (carrier p).Holds x) (second : (carrier p).Holds y) (some_ : y ≠ 0) :
    divInt (carrier p) x y = some (p.wrap (x.tdiv y)) := by
  unfold divInt
  split
  · rename_i minusOne
    rw [minusOne.2, Int.tdiv_neg, Int.tdiv_one]
    exact negated_eq isInt first
  · rename_i plain
    rw [IntType.div, if_neg some_]
    exact assign_holds isInt (quotient_holds isInt first second some_ plain)

theorem modInt_eq (isInt : p.isInteger) (first : (carrier p).Holds x) (second : (carrier p).Holds y) (some_ : y ≠ 0) :
    modInt (carrier p) x y = some (p.wrap (x.tmod y)) := by
  unfold modInt
  split
  · rename_i minusOne
    rw [minusOne.2, Int.tmod_neg, Int.tmod_one, wrap, Int.zero_emod, if_neg]
    have half : 0 < (p.span : Int) / 2 := by cases p <;> decide
    omega
  · rename_i plain
    rw [IntType.rem, IntType.div, if_neg some_, assign_holds isInt (quotient_holds isInt first second some_ plain), Option.map_some,
      wrap_eq_convert isInt]

theorem shlInt_eq (isInt : p.isInteger) (places : 0 ≤ y ∧ y < 8 * p.slotWidth) :
    shlInt (carrier p) x y = some (p.wrap (x * 2 ^ y.toNat)) := by
  have wide : (carrier p).bits ≤ (carrier p).unsigned.promote.bits := @IntType.bits_le_promote (carrier p).unsigned
  have range : (carrier p).unsigned.Holds ((carrier p).unsigned.convert x) := IntType.convert_holds
  have enough : ¬ (y < 0 ∨ ((carrier p).unsigned.promote.bits : Int) ≤ y) := by
    have bits : (carrier p).bits = 8 * p.slotWidth := rfl
    omega
  have same : (carrier p).convert ((carrier p).unsigned.convert x * 2 ^ y.toNat) = (carrier p).convert (x * 2 ^ y.toNat) := by
    have through : (carrier p).unsigned.convert x ≡ x [ZMOD (carrier p).span] := IntType.convert_modEq
    exact IntType.convert_congr (through.mul_right _)
  have kept : ¬ ((carrier p).unsigned.promote.signed = true ∧ ((carrier p).unsigned.convert x < 0 ∨
      (carrier p).unsigned.promote.span ≤ (carrier p).unsigned.convert x * 2 ^ y.toNat)) := by
    have power : (2 : Int) ^ y.toNat ≤ 2 ^ (8 * p.slotWidth - 1) := pow_le_pow_right₀ (by decide) (by omega)
    have moved (nonneg : 0 ≤ (carrier p).unsigned.convert x) := Int.mul_le_mul_of_nonneg_left power nonneg
    generalize (carrier p).unsigned.convert x = operand at *
    generalize operand * 2 ^ y.toNat = product at *
    cases integerRow isInt
    all_goals
      simp [IntType.Holds, IntType.span, IntType.least, IntType.promote, IntType.unsigned, carrier, category, slotWidth] at *
      try omega
  rw [shlInt, IntType.shl, if_neg enough, if_neg kept, Option.map_some, IntType.convert_convert wide, same, wrap_eq_convert isInt]

theorem shr_eq (isInt : p.isInteger) (places : 0 ≤ y ∧ y < 8 * p.slotWidth) :
    (carrier p).shr x y = some (p.wrap (x / 2 ^ y.toNat)) := by
  have wide : (carrier p).bits ≤ (carrier p).promote.bits := IntType.bits_le_promote
  have bits : (carrier p).bits = 8 * p.slotWidth := rfl
  rw [IntType.shr, if_neg (by omega), wrap_eq_convert isInt]

end Host

section Checks
variable {unit : FloatUnit} {p : ScalarPrim} {d s : Nat}

theorem notFloat (isInt : p.isInteger) : p.category ≠ .float := by
  cases integerRow isInt <;> decide

theorem bytes_zero (width cell : Nat) : (List.range width).all (fun k => cell / 256 ^ k % 256 = 0) = true ↔ cell % 256 ^ width = 0 := by
  induction width with
  | zero => simp [Nat.mod_one]
  | succ width ih =>
    rw [List.range_succ, List.all_append, Bool.and_eq_true, ih, Nat.mod_pow_succ, Nat.add_eq_zero_iff, Nat.mul_eq_zero]
    simp

theorem value_eq_zero (isInt : p.isInteger) : p.value s = 0 ↔ s % p.span = 0 := by
  cases integerRow isInt
  all_goals
    simp [value, wrap, ScalarPrim.span, category, slotWidth]
    try omega

theorem slotIsZeroDivisor_iff (isInt : p.isInteger) : slotIsZeroDivisor unit p s = true ↔ p.value s = 0 := by
  have span : 256 ^ p.slotWidth = p.span := by
    rw [ScalarPrim.span, Nat.pow_mul]
  rw [slotIsZeroDivisor, if_neg (notFloat isInt), bytes_zero, span, value_eq_zero isInt]

theorem checkDivisor_eq (isInt : p.isInteger) (fault : Fault) :
    checkDivisor unit fault p s = if p.value s = 0 then some fault else none := by
  simp only [checkDivisor, slotIsZeroDivisor_iff isInt]

theorem checkShiftCount_eq (isInt : p.isInteger) : checkShiftCount unit p s =
    if p.value s < 0 ∨ (8 * p.slotWidth : Int) ≤ p.value s then some .shiftCountOutOfRange else none := by
  have range := @value_holds p s isInt
  have same : (readScalarAsInt64 unit p s < 0 ∨ (8 * p.slotWidth : Int) ≤ readScalarAsInt64 unit p s) ↔
      (p.value s < 0 ∨ (8 * p.slotWidth : Int) ≤ p.value s) := by
    unfold readScalarAsInt64
    generalize p.value s = count at *
    cases integerRow isInt
    all_goals
      simp [IntType.Holds, IntType.span, IntType.least, carrier, wrap, ScalarPrim.span, category, slotWidth] at *
      try omega
  simp only [checkShiftCount, same]

end Checks

section Instructions
variable {unit : FloatUnit} {p : ScalarPrim} {d s : Nat} {op : ArithOp} {v : Int}

def faultOf : ArithOp → Fault
  | .div => .divisionByZero
  | .mod => .moduloByZero
  | _ => .shiftCountOutOfRange

def hasOf : ArithOp → ScalarPrim → Bool
  | .shl | .shr => isInteger
  | _ => kNumeric

def checkOf (unit : FloatUnit) : ArithOp → Check
  | .div => checkDivisor unit .divisionByZero
  | .mod => checkDivisor unit .moduloByZero
  | .shl | .shr => checkShiftCount unit
  | _ => noCheck

theorem opArith_binary (row : Option ScalarPrim) :
    opArith unit op row d s = binary (fun p => entry unit p op (onInts op)) (hasOf op) (checkOf unit op) row d s := by
  cases op <;> rfl

theorem hasOf_of_isInteger (isInt : p.isInteger) : hasOf op p = true := by
  have numeric : kNumeric p = true := by
    rw [kNumeric, isInt, Bool.true_or]
  cases op with
  | shl | shr => exact isInt
  | _ => exact numeric

theorem checkOf_eq (isInt : p.isInteger) (x : Int) :
    checkOf unit op p s = if (arithInt p x (p.value s) op).isNone then some (faultOf op) else none := by
  cases op with
  | add | sub | mul => rfl
  | div | mod =>
    refine (checkDivisor_eq isInt _).trans ?_
    by_cases zero : p.value s = 0 <;> simp [arithInt, zero, faultOf]
  | shl | shr =>
    refine (checkShiftCount_eq isInt).trans ?_
    by_cases outside : p.value s < 0 ∨ (8 * p.slotWidth : Int) ≤ p.value s <;> simp [arithInt, outside, faultOf]

theorem opArith_eq (isInt : p.isInteger) : opArith unit op (some p) d s =
    if (arithInt p (p.value d) (p.value s) op).isNone then .raised (faultOf op)
    else .ofCell ((onInts op (carrier p) (p.value d) (p.value s)).map (p.store d)) := by
  rw [opArith_binary, binary, tableOf, Option.filter_some, if_pos (hasOf_of_isInteger isInt), Option.map_some]
  dsimp only
  rw [checkOf_eq isInt (p.value d), entry, if_neg (notFloat isInt)]
  cases (arithInt p (p.value d) (p.value s) op).isNone <;> rfl

theorem onInts_eq (isInt : p.isInteger) (given : arithInt p (p.value d) (p.value s) op = some v)
    (fits : NoOverflow p (p.value d) (p.value s) op) : onInts op (carrier p) (p.value d) (p.value s) = some (p.wrap v) := by
  have first := @value_holds p d isInt
  have second := @value_holds p s isInt
  cases op with
  | add =>
    cases given
    rw [wrap_eq_convert isInt]
    exact IntType.assign_eq ((add_fits isInt first second).mpr fits)
  | sub =>
    cases given
    rw [wrap_eq_convert isInt]
    exact IntType.assign_eq ((sub_fits isInt first second).mpr fits)
  | mul =>
    cases given
    rw [wrap_eq_convert isInt]
    exact IntType.assign_eq ((mul_fits isInt first second).mpr fits)
  | div =>
    obtain ⟨divisor, rfl⟩ : p.value s ≠ 0 ∧ (p.value d).tdiv (p.value s) = v := by simpa [arithInt] using given
    exact divInt_eq isInt first second divisor
  | mod =>
    obtain ⟨divisor, rfl⟩ : p.value s ≠ 0 ∧ (p.value d).tmod (p.value s) = v := by simpa [arithInt] using given
    exact modInt_eq isInt first second divisor
  | shl =>
    obtain ⟨places, rfl⟩ : (0 ≤ p.value s ∧ p.value s < 8 * p.slotWidth) ∧ p.value d * 2 ^ (p.value s).toNat = v := by
      simpa [arithInt] using given
    exact shlInt_eq isInt places
  | shr =>
    obtain ⟨places, rfl⟩ : (0 ≤ p.value s ∧ p.value s < 8 * p.slotWidth) ∧ p.value d / 2 ^ (p.value s).toNat = v := by
      simpa [arithInt] using given
    exact shr_eq isInt places

theorem opArith_raised (isInt : p.isInteger) (absent : arithInt p (p.value d) (p.value s) op = none) :
    opArith unit op (some p) d s = .raised (faultOf op) := by
  rw [opArith_eq isInt, absent]
  rfl

theorem opArith_wrote (isInt : p.isInteger) (given : arithInt p (p.value d) (p.value s) op = some v)
    (fits : NoOverflow p (p.value d) (p.value s) op) : opArith unit op (some p) d s = .wrote (p.store d v) := by
  rw [opArith_eq isInt, given, onInts_eq isInt given fits, Option.map_some, store_wrap isInt]
  rfl

theorem opArith_undefined (isInt : p.isInteger) (overflow : ¬ NoOverflow p (p.value d) (p.value s) op) :
    opArith unit op (some p) d s = .undefined := by
  have first := @value_holds p d isInt
  have second := @value_holds p s isInt
  rw [opArith_eq isInt]
  cases op with
  | add =>
    have absent := IntType.assign_isNone.mpr (Classical.not_imp.mp (mt (add_fits isInt first second).mp overflow))
    rw [onInts, IntType.add, absent]
    rfl
  | sub =>
    have absent := IntType.assign_isNone.mpr (Classical.not_imp.mp (mt (sub_fits isInt first second).mp overflow))
    rw [onInts, IntType.sub, absent]
    rfl
  | mul =>
    have absent := IntType.assign_isNone.mpr (Classical.not_imp.mp (mt (mul_fits isInt first second).mp overflow))
    rw [onInts, IntType.mul, absent]
    rfl
  | div | mod | shl | shr => exact absurd trivial overflow

theorem opNeg_wrote (isInt : p.isInteger) : opNeg unit (some p) d = .wrote (p.store d (-p.value d)) := by
  have numeric : kNumeric p = true := by
    rw [kNumeric, isInt, Bool.true_or]
  rw [opNeg, tableOf, Option.filter_some, if_pos numeric, Option.map_some]
  dsimp only
  rw [negImpl, if_neg (notFloat isInt), negInt_eq isInt (value_holds isInt), Option.map_some, store_wrap isInt]
  rfl

end Instructions

section Manual
variable (unit : FloatUnit) (p : ScalarPrim) (d s : Nat)

def Computes (v : Int) (outcome : Outcome) : Prop :=
  ∃ cell, outcome = .wrote cell ∧ (carrier p).Holds (p.value cell) ∧ p.value cell ≡ v [ZMOD p.span] ∧ cell / p.span = d / p.span

def Meets (op : ArithOp) : Prop :=
  let x := p.value d
  let y := p.value s
  let outcome := opArith unit op (some p) d s
  match op with
  | .add => Computes p d (x + y) outcome
  | .sub => Computes p d (x - y) outcome
  | .mul => Computes p d (x * y) outcome
  | .div => if y = 0 then outcome = .raised .divisionByZero else Computes p d (x.tdiv y) outcome
  | .mod =>
    if y = 0 then outcome = .raised .moduloByZero
    else Computes p d (x.tmod y) outcome ∧ ∀ quotient rest, opDiv unit (some p) d s = .wrote quotient → outcome = .wrote rest →
      x ≡ p.value quotient * y + p.value rest [ZMOD p.span]
  | .shl => if y < 0 ∨ (8 * p.slotWidth : Int) ≤ y then outcome = .raised .shiftCountOutOfRange else Computes p d (x * 2 ^ y.toNat) outcome
  | .shr => if y < 0 ∨ (8 * p.slotWidth : Int) ≤ y then outcome = .raised .shiftCountOutOfRange else Computes p d (x / 2 ^ y.toNat) outcome

variable {unit p d s}
variable {op : ArithOp} {v : Int} {outcome : Outcome}

theorem value_store_modEq (isInt : p.isInteger) : p.value (p.store d v) ≡ v [ZMOD p.span] := by
  rw [value_store.1, wrap_eq_convert isInt, ← carrier_span]
  exact IntType.convert_modEq

theorem computes_store (isInt : p.isInteger) (wrote : outcome = .wrote (p.store d v)) : Computes p d v outcome :=
  ⟨_, wrote, value_holds isInt, value_store_modEq isInt, value_store.2⟩

theorem division_modEq (isInt : p.isInteger) (divisor : p.value s ≠ 0) {quotient rest : Nat}
    (divides : opArith unit .div (some p) d s = .wrote quotient) (leaves : opArith unit .mod (some p) d s = .wrote rest) :
    p.value d ≡ p.value quotient * p.value s + p.value rest [ZMOD p.span] := by
  have isQuotient := @opArith_wrote unit p d s .div _ isInt (if_neg divisor) trivial
  have isRest := @opArith_wrote unit p d s .mod _ isInt (if_neg divisor) trivial
  cases divides.symm.trans isQuotient
  cases leaves.symm.trans isRest
  have product := (@value_store_modEq p d ((p.value d).tdiv (p.value s)) isInt).mul_right (p.value s)
  have whole := product.add (@value_store_modEq p d ((p.value d).tmod (p.value s)) isInt)
  rw [Int.tdiv_mul_add_tmod] at whole
  exact whole.symm

theorem meets_of_noOverflow (isInt : p.isInteger) (fits : NoOverflow p (p.value d) (p.value s) op) : Meets unit p d s op := by
  have computes {v : Int} (given : arithInt p (p.value d) (p.value s) op = some v) := computes_store isInt (@opArith_wrote unit p d s op v isInt given fits)
  have raises (absent : arithInt p (p.value d) (p.value s) op = none) := @opArith_raised unit p d s op isInt absent
  cases op with
  | add | sub | mul => exact computes rfl
  | div =>
    dsimp only [Meets]
    split
    · rename_i zero
      exact raises (if_pos zero)
    · rename_i divisor
      exact computes (if_neg divisor)
  | mod =>
    dsimp only [Meets]
    split
    · rename_i zero
      exact raises (if_pos zero)
    · rename_i divisor
      exact ⟨computes (if_neg divisor), fun _ _ => division_modEq isInt divisor⟩
  | shl | shr =>
    dsimp only [Meets]
    split
    · rename_i outside
      exact raises (if_pos outside)
    · rename_i inside
      exact computes (if_neg inside)

theorem not_computes_undefined (undefined_ : outcome = .undefined) : ¬ Computes p d v outcome := by
  rintro ⟨cell, wrote, -⟩
  cases undefined_.symm.trans wrote

theorem not_meets_of_overflow (isInt : p.isInteger) (overflow : ¬ NoOverflow p (p.value d) (p.value s) op) : ¬ Meets unit p d s op := by
  have undefined_ := @opArith_undefined unit p d s op isInt overflow
  cases op with
  | add | sub | mul => exact not_computes_undefined undefined_
  | div | mod | shl | shr => exact absurd trivial overflow

/-- The instructions of an integer row do what the manual says exactly where no signed arithmetic of the host overflows, and a
negation always does. -/
theorem meets_iff_noOverflow (unit : FloatUnit) (p : ScalarPrim) (isInt : p.isInteger) (d s : Nat) :
    (∀ op, Meets unit p d s op ↔ NoOverflow p (p.value d) (p.value s) op) ∧
      Computes p d (-p.value d) (opNeg unit (some p) d) := by
  refine ⟨fun op => ⟨fun meets => ?_, meets_of_noOverflow isInt⟩, computes_store isInt (opNeg_wrote isInt)⟩
  by_contra overflow
  exact not_meets_of_overflow isInt overflow meets

theorem least_byte_divided : Meets NarrowCells.noFloats .byte 0x80 0xFF .div :=
  ((meets_iff_noOverflow NarrowCells.noFloats .byte rfl 0x80 0xFF).1 .div).mpr trivial

theorem overflow_undefined :
    (opAdd NarrowCells.noFloats (some .int32) 0x7FFFFFFF 1 = .undefined ∧ ¬ Meets NarrowCells.noFloats .int32 0x7FFFFFFF 1 .add) ∧
      opMul NarrowCells.noFloats (some .ushort) 0xFFFF 0xFFFF = .undefined ∧ ¬ Meets NarrowCells.noFloats .ushort 0xFFFF 0xFFFF .mul := by
  have sum : opAdd NarrowCells.noFloats (some .int32) 0x7FFFFFFF 1 = .undefined := by decide
  have square : opMul NarrowCells.noFloats (some .ushort) 0xFFFF 0xFFFF = .undefined := by decide
  exact ⟨⟨sum, not_computes_undefined sum⟩, square, not_computes_undefined square⟩

end Manual

end NLang.Vm.IntegerOps
