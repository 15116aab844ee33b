import Mathlib

/-!
# Integers of the host

The integer types of C++17 with the operators on two operands of one type. Types below 32 bits are promoted to `int`. A
result of an unsigned type is reduced; a result that a signed type does not hold is undefined, which is nothing here. An
assignment converts the result back, with two's complement.
-/

namespace NLang.Library.HostIntegers

structure IntType where
  bits : Nat
  signed : Bool
  deriving DecidableEq

namespace IntType
section Operators
variable (t : IntType)

def span : Int := 2 ^ t.bits

def least : Int := if t.signed then -2 ^ (t.bits - 1) else 0

def Holds (v : Int) : Prop := t.least ≤ v ∧ v < t.least + t.span

instance (v : Int) : Decidable (t.Holds v) := inferInstanceAs (Decidable (_ ∧ _))

def convert (v : Int) : Int := (v - t.least) % t.span + t.least

def unsigned : IntType := { t with signed := false }

def promote : IntType := if t.bits < 32 then ⟨32, true⟩ else t

def result (exact : Int) : Option Int :=
  if t.signed then if t.Holds exact then some exact else none else some (t.convert exact)

def assign (exact : Int) : Option Int := (t.promote.result exact).map t.convert

def add (x y : Int) : Option Int := t.assign (x + y)
def sub (x y : Int) : Option Int := t.assign (x - y)
def mul (x y : Int) : Option Int := t.assign (x * y)
def neg (x : Int) : Option Int := t.assign (-x)

def div (x y : Int) : Option Int := if y = 0 then none else t.assign (x.tdiv y)

def rem (x y : Int) : Option Int := (t.div x y).map fun _ => t.convert (x.tmod y)

def shl (x places : Int) : Option Int :=
  let p := t.promote
  let moved := x * 2 ^ places.toNat
  if places < 0 ∨ p.bits ≤ places then none
  else if p.signed ∧ (x < 0 ∨ p.span ≤ moved) then none
  else some (p.convert moved)

def shr (x places : Int) : Option Int :=
  if places < 0 ∨ t.promote.bits ≤ places then none else some (t.convert (x / 2 ^ places.toNat))

end Operators

section Conversions
variable {t u : IntType} {v w : Int}

theorem span_pos : 0 < t.span := Int.pow_pos (by decide)

theorem convert_holds : t.Holds (t.convert v) := by
  have low := Int.emod_nonneg (v - t.least) (Int.ne_of_gt (@span_pos t))
  have high := Int.emod_lt_of_pos (v - t.least) (@span_pos t)
  unfold Holds convert
  omega

theorem convert_of_holds (holds : t.Holds v) : t.convert v = v := by
  unfold Holds at holds
  rw [convert, Int.emod_eq_of_lt (by omega) (by omega)]
  omega

theorem convert_congr (same : v ≡ w [ZMOD t.span]) : t.convert v = t.convert w := by
  rw [convert, convert, (same.sub_right t.least)]

theorem convert_modEq : t.convert v ≡ v [ZMOD t.span] := by
  have reduced : (v - t.least) % t.span ≡ v - t.least [ZMOD t.span] := Int.mod_modEq _ _
  have moved := reduced.add_right t.least
  rwa [Int.sub_add_cancel] at moved

theorem span_dvd (narrow : t.bits ≤ u.bits) : t.span ∣ u.span := pow_dvd_pow 2 narrow

theorem convert_convert (narrow : t.bits ≤ u.bits) : t.convert (u.convert v) = t.convert v :=
  convert_congr (convert_modEq.of_dvd (span_dvd narrow))

theorem bits_le_promote : t.bits ≤ t.promote.bits := by
  unfold promote
  split
  · exact Nat.le_of_lt ‹_›
  · exact Nat.le_refl _

theorem assign_eq (fits : t.promote.signed = true → t.promote.Holds v) : t.assign v = some (t.convert v) := by
  unfold assign result
  split
  · rename_i signed
    rw [if_pos (fits signed), Option.map_some]
  · rw [Option.map_some, convert_convert bits_le_promote]

theorem assign_none (signed : t.promote.signed = true) (beyond : ¬ t.promote.Holds v) : t.assign v = none := by
  rw [assign, result, if_pos signed, if_neg beyond]
  rfl

theorem assign_isNone : t.assign v = none ↔ t.promote.signed = true ∧ ¬ t.promote.Holds v := by
  constructor
  · intro undefined_
    by_contra fits
    rw [assign_eq fun signed => not_not.mp fun beyond => fits ⟨signed, beyond⟩] at undefined_
    cases undefined_
  · rintro ⟨signed, beyond⟩
    exact assign_none signed beyond

end Conversions

end IntType

end NLang.Library.HostIntegers
