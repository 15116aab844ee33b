import NLang.Library.Words
import NLang.Vm.ScalarPrims

/-!
# Strict parses of integers

`INTR_String_ToInt`, `INTR_String_ToLong` and `INTR_String_ToChar` over the C library's `strtol` and `strtoll`, which read a
string up to its first NUL. Nothing is returned where an exception is raised.
-/

namespace NLang.Vm.StrictParses
open NLang.Library.Words

def isSpace (byte : UInt8) : Bool := byte = 32 ∨ 9 ≤ byte ∧ byte ≤ 13

def isDigit (byte : UInt8) : Bool := 48 ≤ byte ∧ byte ≤ 57

def decimal (digits : Bytes) : Nat := digits.foldl (fun n digit => 10 * n + (digit.toNat - 48)) 0

def cString (s : Bytes) : Bytes := s.takeWhile (· ≠ 0)

def byteAt (s : Bytes) (offset : Nat) : UInt8 := s[offset]?.getD 0

def takeSign : Bytes → Bytes × Bytes
  | 43 :: rest => ([43], rest)
  | 45 :: rest => ([45], rest)
  | rest => ([], rest)

structure Converted where
  value : Int
  stop : Nat
  outOfRange : Bool

def clamp (bits : Nat) (v : Int) (stop : Nat) : Converted :=
  if v < -2 ^ (bits - 1) then ⟨-2 ^ (bits - 1), stop, true⟩
  else if 2 ^ (bits - 1) ≤ v then ⟨2 ^ (bits - 1) - 1, stop, true⟩
  else ⟨v, stop, false⟩

def strtol (bits : Nat) (text : Bytes) : Converted :=
  let (sign, number) := takeSign (text.dropWhile isSpace)
  let digits := number.takeWhile isDigit
  let v : Int := if sign = [45] then -decimal digits else decimal digits
  if digits = [] then ⟨0, 0, false⟩ else clamp bits v (text.length - (number.length - digits.length))

structure Host where
  longBits : Nat
  wide : 32 ≤ longBits

def strictParse (bits : Nat) (rejects : Int → Bool) (s : Bytes) : Option Int :=
  if s.head?.all isSpace then none
  else
    let parsed := strtol bits (cString s)
    if parsed.stop = 0 ∨ byteAt s parsed.stop ≠ 0 ∨ parsed.outOfRange ∨ rejects parsed.value then none else some parsed.value

def toInt (host : Host) : Bytes → Option Int := strictParse host.longBits fun v => v < -2 ^ 31 ∨ 2 ^ 31 - 1 < v

def toChar : Bytes → Option Int :=
  strictParse 64 fun v => v < 0 ∨ 0x10FFFF < v ∨ 0xD800 ≤ v ∧ v ≤ 0xDFFF

def toLong : Bytes → Option Int := strictParse 64 fun _ => false

inductive Denotes : Bytes → Int → Prop where
  | plain {digits : Bytes} (some_ : digits ≠ []) (each : ∀ digit ∈ digits, isDigit digit) : Denotes digits (decimal digits)
  | plus {digits : Bytes} (some_ : digits ≠ []) (each : ∀ digit ∈ digits, isDigit digit) : Denotes (43 :: digits) (decimal digits)
  | minus {digits : Bytes} (some_ : digits ≠ []) (each : ∀ digit ∈ digits, isDigit digit) : Denotes (45 :: digits) (-decimal digits)

inductive Target where
  | int | long | char

def Target.InRange : Target → Int → Prop
  | .int, v => -2 ^ 31 ≤ v ∧ v < 2 ^ 31
  | .long, v => -2 ^ 63 ≤ v ∧ v < 2 ^ 63
  | .char, v => isScalarValue v

def parse (host : Host) : Target → Bytes → Option Int
  | .int => toInt host
  | .long => toLong
  | .char => toChar

def Strict (host : Host) (target : Target) (s : Bytes) : Prop :=
  ∀ v, parse host target s = some v ↔ Denotes s v ∧ target.InRange v

section Reads
variable {text s digits : Bytes} {v : Int} {bits : Nat}

theorem not_sign_of_isDigit {byte : UInt8} (digit : isDigit byte) : byte ≠ 43 ∧ byte ≠ 45 ∧ byte ≠ 0 ∧ isSpace byte = false := by
  simp only [isDigit, isSpace, decide_eq_true_eq, decide_eq_false_iff_not, ne_eq, ← UInt8.toNat_inj, UInt8.le_iff_toNat_le] at *
  simp at *
  omega

theorem takeWhile_digits (each : ∀ digit ∈ digits, isDigit digit) : digits.takeWhile isDigit = digits :=
  List.takeWhile_eq_self_iff.mpr each

theorem Denotes.head (denotes : Denotes text v) : ∃ first rest, text = first :: rest ∧ first ≠ 0 ∧ isSpace first = false := by
  cases denotes with
  | plain some_ each =>
    obtain ⟨first, rest, rfl⟩ := List.exists_cons_of_ne_nil some_
    obtain ⟨-, -, notNul, notSpace⟩ := not_sign_of_isDigit (each first (.head _))
    exact ⟨first, rest, rfl, notNul, notSpace⟩
  | plus | minus => exact ⟨_, _, rfl, by decide, by decide⟩

theorem Denotes.noNul (denotes : Denotes text v) : (0 : UInt8) ∉ text := by
  have apart {digits : Bytes} (each : ∀ digit ∈ digits, isDigit digit) : (0 : UInt8) ∉ digits := by
    intro member
    exact (not_sign_of_isDigit (each 0 member)).2.2.1 rfl
  cases denotes with
  | plain _ each => exact apart each
  | plus _ each | minus _ each =>
    intro member
    rcases List.mem_cons.mp member with same | later
    · cases same
    · exact apart each later

theorem takeSign_digits (some_ : digits ≠ []) (each : ∀ digit ∈ digits, isDigit digit) : takeSign digits = ([], digits) := by
  obtain ⟨first, rest, rfl⟩ := List.exists_cons_of_ne_nil some_
  obtain ⟨notPlus, notMinus, -, -⟩ := not_sign_of_isDigit (each first (.head _))
  unfold takeSign
  split
  · rename_i same
    exact absurd (List.cons.inj same).1 notPlus
  · rename_i same
    exact absurd (List.cons.inj same).1 notMinus
  · rfl

theorem dropWhile_isSpace (notSpace : text.head?.all isSpace = false) : text.dropWhile isSpace = text := by
  cases text with
  | nil => cases notSpace
  | cons first rest => exact List.dropWhile_cons_of_neg (by simpa using notSpace)

theorem strtol_signed {sign number : Bytes} (notSpace : text.head?.all isSpace = false) (signed : takeSign text = (sign, number)) :
    strtol bits text = if number.takeWhile isDigit = [] then ⟨0, 0, false⟩ else
      clamp bits (if sign = [45] then -decimal (number.takeWhile isDigit) else decimal (number.takeWhile isDigit))
        (text.length - (number.length - (number.takeWhile isDigit).length)) := by
  simp only [strtol, dropWhile_isSpace notSpace, signed]

theorem strtol_denotes (denotes : Denotes text v) : strtol bits text = clamp bits v text.length := by
  have notSpace : text.head?.all isSpace = false := by
    obtain ⟨first, rest, rfl, -, notSpace⟩ := denotes.head
    exact notSpace
  cases denotes with
  | plain some_ each =>
    rw [strtol_signed notSpace (takeSign_digits some_ each), takeWhile_digits each, if_neg some_, if_neg (List.cons_ne_nil _ _).symm,
      Nat.sub_self, Nat.sub_zero]
  | plus some_ each =>
    rw [strtol_signed notSpace rfl, takeWhile_digits each, if_neg some_, if_neg (by decide), Nat.sub_self, Nat.sub_zero]
  | minus some_ each =>
    rw [strtol_signed notSpace rfl, takeWhile_digits each, if_neg some_, if_pos rfl, Nat.sub_self, Nat.sub_zero]

theorem clamp_stop {stop : Nat} : (clamp bits v stop).stop = stop := by
  unfold clamp
  split
  · rfl
  · split <;> rfl

theorem denotes_of_whole (notSpace : text.head?.all isSpace = false) (some_ : (strtol bits text).stop ≠ 0)
    (whole : (strtol bits text).stop = text.length) : ∃ v, Denotes text v := by
  have behind {sign number : Bytes} (signed : takeSign text = (sign, number)) (long : number.length ≤ text.length) :
      number ≠ [] ∧ ∀ digit ∈ number, isDigit digit := by
    rw [strtol_signed notSpace signed] at some_ whole
    split at whole
    · rename_i none
      rw [if_pos none] at some_
      exact absurd rfl some_
    · rename_i more
      rw [clamp_stop] at whole
      have part := List.takeWhile_prefix (l := number) isDigit
      have shorter := part.length_le
      have filled := List.length_pos_iff.mpr more
      have all : number.takeWhile isDigit = number := part.eq_of_length (by omega)
      exact ⟨all ▸ more, List.takeWhile_eq_self_iff.mp all⟩
  cases signed : takeSign text with
  | mk sign number =>
    unfold takeSign at signed
    split at signed
    · cases signed
      obtain ⟨more, each⟩ := behind rfl (Nat.le_succ _)
      exact ⟨_, .plus more each⟩
    · cases signed
      obtain ⟨more, each⟩ := behind rfl (Nat.le_succ _)
      exact ⟨_, .minus more each⟩
    · rename_i notPlus notMinus
      cases signed
      have unsigned : takeSign text = ([], text) := by
        unfold takeSign
        split
        · exact absurd rfl (notPlus _)
        · exact absurd rfl (notMinus _)
        · rfl
      obtain ⟨more, each⟩ := behind unsigned (Nat.le_refl _)
      exact ⟨_, .plain more each⟩

theorem strtol_stop_le : (strtol bits text).stop ≤ text.length := by
  unfold strtol
  dsimp only
  split
  · exact Nat.zero_le _
  · rw [clamp_stop]
    exact Nat.sub_le ..

theorem cString_of_noNul (noNul : (0 : UInt8) ∉ s) : cString s = s := by
  apply List.takeWhile_eq_self_iff.mpr
  intro byte member
  simpa using fun same : byte = 0 => noNul (same ▸ member)

theorem noNul_cString : (0 : UInt8) ∉ cString s := by
  intro member
  simpa using List.mem_takeWhile_imp member

theorem byteAt_eq_zero {offset : Nat} (inside : offset ≤ (cString s).length) : byteAt s offset = 0 ↔ offset = (cString s).length := by
  have parts : cString s ++ s.dropWhile (· ≠ 0) = s := List.takeWhile_append_dropWhile
  have here : byteAt s offset = ((cString s ++ s.dropWhile (· ≠ 0))[offset]?).getD 0 := by
    rw [parts]
    rfl
  rw [here]
  rcases Nat.lt_or_ge offset (cString s).length with before | behind
  · rw [List.getElem?_append_left before, List.getElem?_eq_getElem before, Option.getD_some]
    have notNul : (cString s)[offset] ≠ 0 := fun same => noNul_cString (same ▸ List.getElem_mem before)
    exact iff_of_false notNul (by omega)
  · have last : offset = (cString s).length := by omega
    rw [last, List.getElem?_append_right (Nat.le_refl _), Nat.sub_self, ← List.head?_eq_getElem?]
    have ends := List.head?_dropWhile_not (fun byte : UInt8 => decide (byte ≠ 0)) s
    cases rest : (s.dropWhile (· ≠ 0)).head? with
    | none => exact iff_of_true rfl rfl
    | some byte =>
      rw [rest] at ends
      exact iff_of_true (by simpa using ends) rfl

variable {rejects : Int → Bool}

def Fits (bits : Nat) (v : Int) : Prop := -2 ^ (bits - 1) ≤ v ∧ v < 2 ^ (bits - 1)

theorem clamp_fits {stop : Nat} (fits : Fits bits v) : clamp bits v stop = ⟨v, stop, false⟩ := by
  rw [clamp, if_neg (Int.not_lt.mpr fits.1), if_neg (Int.not_le.mpr fits.2)]

theorem fits_of_clamp {stop : Nat} (inside : (clamp bits v stop).outOfRange = false) : Fits bits v := by
  unfold clamp at inside
  split at inside
  · cases inside
  · rename_i low
    split at inside
    · cases inside
    · rename_i high
      exact ⟨Int.not_lt.mp low, Int.not_le.mp high⟩

theorem head_cString (some_ : cString s ≠ []) : s.head? = (cString s).head? := by
  cases s with
  | nil => exact absurd rfl some_
  | cons first rest =>
    by_cases nul : first = 0
    · exact absurd (List.takeWhile_cons_of_neg (by simpa using nul)) some_
    · rw [cString, List.takeWhile_cons_of_pos (by simpa using nul)]
      rfl

theorem strictParse_iff : strictParse bits rejects s = some v ↔ Denotes (cString s) v ∧ Fits bits v ∧ rejects v = false := by
  constructor
  · intro parsed
    unfold strictParse at parsed
    split at parsed
    · cases parsed
    · rename_i begins
      dsimp only at parsed
      split at parsed
      · cases parsed
      · rename_i accepted
        simp only [not_or, not_not, Bool.not_eq_true] at accepted
        obtain ⟨moved, ended, inside, kept⟩ := accepted
        have whole := (byteAt_eq_zero strtol_stop_le).mp ended
        have some_ : cString s ≠ [] := by
          intro empty
          rw [empty] at whole moved
          exact moved whole
        have notSpace : (cString s).head?.all isSpace = false := by
          rw [← head_cString some_]
          simpa using begins
        obtain ⟨v', denotes⟩ := denotes_of_whole notSpace moved whole
        rw [strtol_denotes denotes] at parsed inside kept
        have fits := fits_of_clamp inside
        rw [clamp_fits fits] at parsed kept
        cases parsed
        exact ⟨denotes, fits, kept⟩
  · rintro ⟨denotes, fits, kept⟩
    obtain ⟨first, rest, starts, -, notSpace⟩ := denotes.head
    have some_ : cString s ≠ [] := by
      rw [starts]
      exact List.cons_ne_nil _ _
    have begins : s.head?.all isSpace = false := by
      rw [head_cString some_, starts]
      exact notSpace
    have ended := (@byteAt_eq_zero s (cString s).length (Nat.le_refl _)).mpr rfl
    have moved : (cString s).length ≠ 0 := fun empty => some_ (List.length_eq_zero_iff.mp empty)
    rw [strictParse, begins, if_neg Bool.false_ne_true]
    dsimp only
    rw [strtol_denotes denotes, clamp_fits fits, if_neg]
    simp [moved, ended, kept]

end Reads

section Methods
variable {host : Host} {target : Target} {s : Bytes} {v : Int}

theorem parse_iff : parse host target s = some v ↔ Denotes (cString s) v ∧ target.InRange v := by
  cases target with
  | int =>
    have wide := host.wide
    have power : (2 : Int) ^ 31 ≤ 2 ^ (host.longBits - 1) := pow_le_pow_right₀ (by decide) (by omega)
    rw [parse, toInt, strictParse_iff]
    apply and_congr_right
    intro _
    simp only [Fits, Target.InRange, decide_eq_false_iff_not]
    omega
  | long =>
    rw [parse, toLong, strictParse_iff]
    apply and_congr_right
    intro _
    simp [Fits, Target.InRange]
  | char =>
    rw [parse, toChar, strictParse_iff]
    apply and_congr_right
    intro _
    simp only [Fits, Target.InRange, isScalarValue, decide_eq_false_iff_not, decide_eq_true_eq]
    omega

/-- A method accepts the grammar of its target on the whole string, unless there is a NUL behind a literal in range. An `int` is
also a `long`. -/
theorem strict_iff (host : Host) (s : Bytes) :
    (∀ target : Target, Strict host target s ↔ ¬ ((0 : UInt8) ∈ s ∧ ∃ v, Denotes (cString s) v ∧ target.InRange v)) ∧
      ∀ v, toInt host s = some v → toLong s = some v := by
  constructor
  · intro target
    constructor
    · rintro strict ⟨nul, v, denotes, inRange⟩
      have whole := (strict v).mp (parse_iff.mpr ⟨denotes, inRange⟩)
      exact whole.1.noNul nul
    · intro clean v
      rw [parse_iff]
      by_cases nul : (0 : UInt8) ∈ s
      · constructor
        · rintro ⟨denotes, inRange⟩
          exact absurd ⟨nul, v, denotes, inRange⟩ clean
        · rintro ⟨denotes, -⟩
          exact absurd nul denotes.noNul
      · rw [cString_of_noNul nul]
  · intro v parsed
    obtain ⟨denotes, low, high⟩ := (@parse_iff host .int s v).mp parsed
    exact (@parse_iff host .long s v).mpr ⟨denotes, by omega, by omega⟩

theorem nul_hides_rest : toInt ⟨32, Nat.le_refl _⟩ [53, 0, 120] = some 5 ∧ ∀ target, ¬ Strict ⟨32, Nat.le_refl _⟩ target [53, 0, 120] := by
  refine ⟨by decide, fun target strict => ?_⟩
  have parsed : parse ⟨32, Nat.le_refl _⟩ target [53, 0, 120] = some 5 := by
    cases target <;> decide
  exact ((strict 5).mp parsed).1.noNul (by decide)

end Methods

end NLang.Vm.StrictParses
