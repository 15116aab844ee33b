import NLang.Backend.FoldedDefaults

/-!
# Labels of a switch

The keys of foldable case labels and the search for duplicates in `StatementResolverSwitchTry.cpp`.
-/

namespace NLang.Compiler.SwitchLabels
open NLang.Vm NLang.Image NLang.Backend.Folded

def Unsigned : SnExpression → Prop
  | .neg (.scalar lit) => lit.row.category = .sint → 0 ≤ lit.row.value lit.bits
  | _ => True

inductive SwitchLabel where
  | enumMember (value : Int) (int32 : -2 ^ 31 ≤ value ∧ value < 2 ^ 31)
  | charLiteral (codePoint : Nat) (scalar : codePoint < 0x110000)
  | expr (e : SnExpression) (unsigned : Unsigned e)

inductive SwitchLabelKey where
  | int (value : Int)
  | float (bits : Nat)
  | string (content : Text)

section Keys
variable (unit : FloatUnit)

def extractLiteralLabel : Literal → Option SwitchLabelKey
  | .null => some (.int 0)
  | .string content => some (.string content)
  | .scalar lit =>
    match lit.row with
    | .int32 => some (.int (ScalarPrim.value .int32 lit.bits))
    | .long | .ulong => some (.int (ScalarPrim.value .long lit.bits))
    | .float => some (.float (unit.convert .float .double lit.bits))
    | .double => some (.float lit.bits)
    | _ => none

def constantKey : ConstLiteralValue → Option SwitchLabelKey
  | .int .int32 v | .int .long v => some (.int v)
  | .floating .float bits => some (.float (unit.convert .float .double bits))
  | .floating .double bits => some (.float bits)
  | _ => none

def extractSwitchLabelKey : SwitchLabel → Option SwitchLabelKey
  | .enumMember value _ => some (.int value)
  | .charLiteral codePoint _ => some (.int (ScalarPrim.value .int32 codePoint))
  | .expr (.literal lit) _ => extractLiteralLabel unit lit
  | .expr (.neg lit) _ => (tryGetConstantLiteral unit (.neg lit)).bind (constantKey unit)
  | .expr .other _ => none

def sameKey : SwitchLabelKey → SwitchLabelKey → Bool
  | .int v, .int w => v = w
  | .float bits, .float bits' => unit.compare .equal .double bits bits'
  | .string content, .string content' => content = content'
  | _, _ => false

def checkDuplicates (seen : List SwitchLabelKey) : List SwitchLabel → List SwitchLabelKey
  | [] => []
  | label :: labels =>
    match extractSwitchLabelKey unit label with
    | none => checkDuplicates seen labels
    | some key =>
      match seen.find? (sameKey unit · key) with
      | some first => first :: checkDuplicates seen labels
      | none => checkDuplicates (seen ++ [key]) labels

def checkDuplicateCaseLabels (labels : List SwitchLabel) : List SwitchLabelKey := checkDuplicates unit [] labels

inductive LabelValue where
  | number (v : Int)
  | float (bits : Nat)
  | string (content : Text)

def literalValue : Literal → Option LabelValue
  | .null => some (.number 0)
  | .string content => some (.string content)
  | .scalar lit =>
    match lit.row with
    | .int32 | .long | .ulong => some (.number (lit.row.value lit.bits))
    | .float => some (.float (unit.convert .float .double lit.bits))
    | .double => some (.float lit.bits)
    | _ => none

def negatedValue : Literal → Option LabelValue
  | .null => some (.number 0)
  | .string _ => none
  | .scalar lit =>
    match lit.row with
    | .int32 | .long => some (.number (-lit.row.value lit.bits))
    | .ulong => if lit.row.value lit.bits = 2 ^ 63 then some (.number (-2 ^ 63)) else none
    | .float => some (.float (unit.convert .float .double (unit.neg .float lit.bits)))
    | .double => some (.float (unit.neg .double lit.bits))
    | _ => none

def SwitchLabel.value : SwitchLabel → Option LabelValue
  | .enumMember value _ => some (.number value)
  | .charLiteral codePoint _ => some (.number codePoint)
  | .expr (.literal lit) _ => literalValue unit lit
  | .expr (.neg lit) _ => negatedValue unit lit
  | .expr .other _ => none

def LabelValue.Same : LabelValue → LabelValue → Prop
  | .number v, .number w => v = w
  | .float bits, .float bits' => unit.compare .equal .double bits bits' = true
  | .string content, .string content' => content = content'
  | _, _ => False

def SameValue (a b : SwitchLabel) : Prop :=
  ∃ v ∈ a.value unit, ∃ w ∈ b.value unit, v.Same unit w

def Wraps (a b : SwitchLabel) : Prop :=
  ∃ v w : Int, a.value unit = some (.number v) ∧ b.value unit = some (.number w) ∧
    ((2 ^ 63 ≤ v ∧ v = w + 2 ^ 64) ∨ (2 ^ 63 ≤ w ∧ w = v + 2 ^ 64))

def TwoOf (related : SwitchLabel → SwitchLabel → Prop) (labels : List SwitchLabel) : Prop :=
  ∃ a b, [a, b].Sublist labels ∧ related a b

end Keys

section Duplicates
variable {unit : FloatUnit} {a b : SwitchLabel}

inductive KeyOf : SwitchLabelKey → LabelValue → Prop where
  | small (v : Int) (positive : v < 2 ^ 63) : KeyOf (.int v) (.number v)
  | wrapped (v : Int) (large : 2 ^ 63 ≤ v) (inside : v < 2 ^ 64) : KeyOf (.int (v - 2 ^ 64)) (.number v)
  | float (bits : Nat) : KeyOf (.float bits) (.float bits)
  | string (content : Text) : KeyOf (.string content) (.string content)

theorem value_lt (p : ScalarPrim) (signed : p.category = .sint) (cell : Nat) : p.value cell < 2 ^ 63 := by
  have bound : (p.span : Int) / 2 ≤ 2 ^ 63 := by
    cases p <;> decide
  have positive : (0 : Int) < p.span := by
    cases p <;> decide
  have below := Int.emod_lt_of_pos (cell : Int) positive
  rw [ScalarPrim.value, ScalarPrim.wrap]
  by_cases half : (p.span : Int) / 2 ≤ (cell : Int) % p.span
  · rw [if_pos ⟨signed, half⟩]
    omega
  · rw [if_neg fun both => half both.2]
    omega

theorem ulong_value {bits : Nat} (fits : bits < 2 ^ 64) : ScalarPrim.value .ulong bits = bits := by
  have unsigned : ¬ (ScalarPrim.category .ulong = .sint ∧
      (ScalarPrim.span .ulong : Int) / 2 ≤ (bits : Int) % ScalarPrim.span .ulong) := by
    rintro ⟨signed, -⟩
    cases signed
  rw [ScalarPrim.value, ScalarPrim.wrap, if_neg unsigned]
  exact Int.emod_eq_of_lt (Int.natCast_nonneg bits) (Int.ofNat_lt.mpr fits)

theorem long_value {bits : Nat} (fits : bits < 2 ^ 64) :
    ScalarPrim.value .long bits = if 2 ^ 63 ≤ bits then (bits : Int) - 2 ^ 64 else (bits : Int) := by
  have residue : (bits : Int) % (ScalarPrim.span .long : Nat) = bits :=
    Int.emod_eq_of_lt (Int.natCast_nonneg bits) (Int.ofNat_lt.mpr fits)
  have span : ((ScalarPrim.span .long : Nat) : Int) = 2 ^ 64 := rfl
  have signed : ScalarPrim.category .long = .sint := rfl
  rw [ScalarPrim.value, ScalarPrim.wrap, residue, span]
  by_cases half : 2 ^ 63 ≤ bits
  · rw [if_pos ⟨signed, by omega⟩, if_pos half]
  · rw [if_neg fun both => half (by have := both.2; omega), if_neg half]

theorem int32_value {bits : Nat} (small : bits < 2 ^ 31) : ScalarPrim.value .int32 bits = bits := by
  have residue : (bits : Int) % (ScalarPrim.span .int32 : Nat) = bits :=
    Int.emod_eq_of_lt (Int.natCast_nonneg bits) (Int.ofNat_lt.mpr (Nat.lt_trans small (by decide)))
  have span : ((ScalarPrim.span .int32 : Nat) : Int) = 2 ^ 32 := rfl
  rw [ScalarPrim.value, ScalarPrim.wrap, residue, span]
  exact if_neg fun both => by have := both.2; omega

def Keyed (key : Option SwitchLabelKey) (value : Option LabelValue) : Prop :=
  (key = none ∧ value = none) ∨ ∃ k v, key = some k ∧ value = some v ∧ KeyOf k v

theorem keyed_literal (lit : Literal) : Keyed (extractLiteralLabel unit lit) (literalValue unit lit) := by
  cases lit with
  | null => exact .inr ⟨_, _, rfl, rfl, .small 0 (by decide)⟩
  | string content => exact .inr ⟨_, _, rfl, rfl, .string content⟩
  | scalar lit =>
    obtain ⟨row, bits, fits⟩ := lit
    cases row with
    | int32 => exact .inr ⟨_, _, rfl, rfl, .small _ (value_lt .int32 rfl bits)⟩
    | long => exact .inr ⟨_, _, rfl, rfl, .small _ (value_lt .long rfl bits)⟩
    | ulong =>
      refine .inr ⟨_, _, rfl, rfl, ?_⟩
      rw [long_value fits, ulong_value fits]
      split
      · exact .wrapped bits (by omega) (Int.ofNat_lt.mpr fits)
      · exact .small bits (by omega)
    | float | double => exact .inr ⟨_, _, rfl, rfl, .float _⟩
    | byte | ubyte | short | ushort | uint32 | bool | char => exact .inl ⟨rfl, rfl⟩

theorem keyed_neg (lit : Literal) (unsigned : Unsigned (.neg lit)) :
    Keyed ((tryGetConstantLiteral unit (.neg lit)).bind (constantKey unit)) (negatedValue unit lit) := by
  cases lit with
  | null => exact .inr ⟨_, _, rfl, rfl, .small 0 (by decide)⟩
  | string content => exact .inl ⟨rfl, rfl⟩
  | scalar lit =>
    obtain ⟨row, bits, fits⟩ := lit
    cases row with
    | int32 =>
      have positive : 0 ≤ ScalarPrim.value .int32 bits := unsigned rfl
      have small : -ScalarPrim.value .int32 bits < 2 ^ 63 := by omega
      exact .inr ⟨_, _, rfl, rfl, .small _ small⟩
    | long =>
      have positive : 0 ≤ ScalarPrim.value .long bits := unsigned rfl
      have small : -ScalarPrim.value .long bits < 2 ^ 63 := by omega
      exact .inr ⟨_, _, rfl, rfl, .small _ small⟩
    | ulong =>
      simp only [tryGetConstantLiteral, tryGetLiteral, negatedValue]
      split
      · exact .inr ⟨_, _, rfl, rfl, .small _ (by decide)⟩
      · exact .inl ⟨rfl, rfl⟩
    | float | double => exact .inr ⟨_, _, rfl, rfl, .float _⟩
    | byte | ubyte | short | ushort | uint32 | bool | char => exact .inl ⟨rfl, rfl⟩

theorem keyed (label : SwitchLabel) : Keyed (extractSwitchLabelKey unit label) (label.value unit) := by
  cases label with
  | enumMember value int32 => exact .inr ⟨_, _, rfl, rfl, .small value (by omega)⟩
  | charLiteral codePoint scalar =>
    refine .inr ⟨_, _, rfl, rfl, ?_⟩
    rw [int32_value (Nat.lt_trans scalar (by decide))]
    exact .small codePoint (by omega)
  | expr e unsigned =>
    cases e with
    | literal lit => exact keyed_literal lit
    | neg lit => exact keyed_neg lit unsigned
    | other => exact .inl ⟨rfl, rfl⟩

def SameKeys (unit : FloatUnit) (a b : SwitchLabel) : Prop :=
  ∃ k ∈ extractSwitchLabelKey unit a, ∃ l ∈ extractSwitchLabelKey unit b, sameKey unit k l

theorem checkDuplicates_eq_nil {seen : List SwitchLabelKey} {labels : List SwitchLabel} :
    checkDuplicates unit seen labels = [] ↔
      (∀ label ∈ labels, ∀ key ∈ extractSwitchLabelKey unit label, ∀ first ∈ seen, ¬ sameKey unit first key) ∧
        labels.Pairwise fun a b => ¬ SameKeys unit a b := by
  induction labels generalizing seen with
  | nil => simp only [checkDuplicates, List.not_mem_nil, false_implies, implies_true, List.Pairwise.nil, and_self]
  | cons label labels ih =>
    rw [List.pairwise_cons, List.forall_mem_cons, checkDuplicates]
    cases found : extractSwitchLabelKey unit label with
    | none =>
      have apart : ∀ b ∈ labels, ¬ SameKeys unit label b := by
        rintro b - ⟨k, key, -⟩
        rw [found] at key
        cases key
      have noKey : ∀ key ∈ (none : Option SwitchLabelKey), ∀ first ∈ seen, ¬ sameKey unit first key := by
        rintro key ⟨⟩
      rw [and_iff_right noKey, and_iff_right apart]
      exact ih
    | some key =>
      have apart : (∀ b ∈ labels, ¬ SameKeys unit label b) ↔
          ∀ b ∈ labels, ∀ l ∈ extractSwitchLabelKey unit b, ¬ sameKey unit key l := by
        simp only [SameKeys, found, Option.mem_some_iff, exists_eq_left', not_exists, not_and]
      rw [apart]
      dsimp only
      cases first : seen.find? (sameKey unit · key) with
      | some other =>
        refine iff_of_false (List.cons_ne_nil _ _) fun both => ?_
        have passes := List.find?_some (p := (sameKey unit · key)) first
        exact both.1.1 key rfl other (List.mem_of_find?_eq_some first) passes
      | none =>
        have unseen : ∀ first ∈ seen, ¬ sameKey unit first key := List.find?_eq_none.mp first
        simp only [ih, Option.mem_some_iff, forall_eq', List.mem_append, List.mem_singleton, or_imp,
          forall_and, forall_eq, and_assoc]
        exact (and_iff_right unseen).symm

theorem checkDuplicateCaseLabels_ne_nil {labels : List SwitchLabel} :
    checkDuplicateCaseLabels unit labels ≠ [] ↔ TwoOf (SameKeys unit) labels := by
  rw [checkDuplicateCaseLabels, Ne, checkDuplicates_eq_nil, List.pairwise_iff_forall_sublist, TwoOf]
  simp only [List.not_mem_nil, false_implies, implies_true, true_and, not_forall, not_not, exists_prop]

theorem KeyOf.same {k l : SwitchLabelKey} {v w : LabelValue} (key : KeyOf k v) (key' : KeyOf l w) :
    sameKey unit k l ↔ v.Same unit w ∨ ∃ m n : Int, v = .number m ∧ w = .number n ∧
      ((2 ^ 63 ≤ m ∧ m = n + 2 ^ 64) ∨ (2 ^ 63 ≤ n ∧ n = m + 2 ^ 64)) := by
  have numbers {m n : Int} {P : Int → Int → Prop} :
      (∃ m' n' : Int, LabelValue.number m = .number m' ∧ LabelValue.number n = .number n' ∧ P m' n') ↔ P m n := by
    constructor
    · rintro ⟨_, _, ⟨⟩, ⟨⟩, holds⟩
      exact holds
    · exact fun holds => ⟨m, n, rfl, rfl, holds⟩
  cases key <;> cases key'
  case small.small | small.wrapped | wrapped.small | wrapped.wrapped =>
    rw [numbers, sameKey, LabelValue.Same, decide_eq_true_iff]
    omega
  case float.float | string.string =>
    simp only [sameKey, LabelValue.Same, reduceCtorEq, false_and, exists_false, or_false, decide_eq_true_eq]
  all_goals simp only [sameKey, LabelValue.Same, reduceCtorEq, false_and, and_false, exists_false, or_false,
    Bool.false_eq_true]

theorem sameKeys_iff : SameKeys unit a b ↔ SameValue unit a b ∨ Wraps unit a b := by
  unfold SameKeys SameValue Wraps
  obtain ⟨noKey, noValue⟩ | ⟨k, v, key, value, keyOf⟩ := @keyed unit a
  · simp only [noKey, noValue, Option.mem_def, reduceCtorEq, false_and, exists_false, or_self]
  obtain ⟨noKey, noValue⟩ | ⟨l, w, key', value', keyOf'⟩ := @keyed unit b
  · simp only [noKey, noValue, Option.mem_def, reduceCtorEq, false_and, and_false, exists_false, or_self]
  simp only [key, value, key', value', Option.mem_some_iff, exists_eq_left', Option.some.injEq]
  exact keyOf.same keyOf'

theorem duplicates_reported_iff {labels : List SwitchLabel} :
    (checkDuplicateCaseLabels unit labels ≠ [] ↔ TwoOf (SameValue unit) labels) ↔
      (TwoOf (Wraps unit) labels → TwoOf (SameValue unit) labels) := by
  have either : TwoOf (SameKeys unit) labels ↔ TwoOf (SameValue unit) labels ∨ TwoOf (Wraps unit) labels := by
    simp only [TwoOf, sameKeys_iff, and_or_left, exists_or]
  rw [checkDuplicateCaseLabels_ne_nil, either]
  tauto

end Duplicates

end NLang.Compiler.SwitchLabels
