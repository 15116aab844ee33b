import NLang.Backend.FoldedDefaults
import NLang.Vm.IntegerOps

/-!
# Implicit conversions

The conversions that the resolver inserts between integers: the verdicts of the cast table, the common type of two
operands (`ExprResolverBinary.cpp`), the constants that fit (`ExprResolverCastFit.cpp`) and the gates of
`FixupExprType`, against the cell that the cast leaves at run time.
-/

namespace NLang.Compiler.ImplicitConversions
open NLang.Library NLang.Vm NLang.Backend.Folded

def dealUintToken (n : UInt64) : ScalarLiteral :=
  if small : n.toNat < 2 ^ 31 then ⟨.int32, n.toNat, Nat.lt_trans small (by decide)⟩
  else if n.toNat < 2 ^ 63 then ⟨.long, n.toNat, n.toNat_lt⟩
  else ⟨.ulong, n.toNat, n.toNat_lt⟩

inductive ConstantFitVerdict where
  | notApplicable | fits | outOfRange
  deriving DecidableEq

section Resolver
variable (unit : FloatUnit)

def tryConstantFit (e : SnExpression) (target : ScalarPrim) : ConstantFitVerdict :=
  match tryGetConstantLiteral unit e with
  | some (.int row v) =>
    if target.isInteger then if fitsRow row target v then .fits else .outOfRange else .notApplicable
  | some (.floating .double bits) =>
    if target = .float then if doubleFitsFloat unit bits then .fits else .outOfRange else .notApplicable
  | _ => .notApplicable

inductive Fixup where
  | same | cast | incompatible | outOfRange
  deriving DecidableEq

def fixupExprType (e : SnExpression) (source target : ScalarPrim) : Fixup :=
  match deriveScalarCast source target with
  | .same => .same
  | .auto | .box => .cast
  | .explicit =>
    match tryConstantFit unit e target with
    | .fits => .cast
    | .outOfRange => .outOfRange
    | .notApplicable => .incompatible
  | .none => .incompatible

end Resolver

def promoted (p : ScalarPrim) : ScalarPrim := if rank p < 3 then .int32 else p

def commonNumericType (l r : ScalarPrim) : Option ScalarPrim :=
  if isNumeric l = false ∨ isNumeric r = false then none
  else if l.category = .float ∨ r.category = .float then
    some (if (l.category = .float ∧ rank l = 2) ∨ (r.category = .float ∧ rank r = 2) then .double else .float)
  else if promoted l = promoted r then some (promoted l)
  else kScalarPrims.find? fun p =>
    p.isInteger && primDomainContained (promoted l) p && primDomainContained (promoted r) p

def Represents (p : ScalarPrim) (v : Int) : Prop := (IntegerOps.carrier p).Holds v

instance (p : ScalarPrim) (v : Int) : Decidable (Represents p v) :=
  inferInstanceAs (Decidable ((IntegerOps.carrier p).least ≤ v ∧
    v < (IntegerOps.carrier p).least + (IntegerOps.carrier p).span))

section Domains
variable {unit : FloatUnit} {s t l r c : ScalarPrim} {v : Int}

theorem mem_kScalarPrims (p : ScalarPrim) : p ∈ kScalarPrims := by
  cases p <;> decide

theorem contained_bounds : ∀ s ∈ kScalarPrims, ∀ t ∈ kScalarPrims, s.isInteger → t.isInteger →
    primDomainContained s t = true → (IntegerOps.carrier t).least ≤ (IntegerOps.carrier s).least ∧
      (IntegerOps.carrier s).least + (IntegerOps.carrier s).span ≤
        (IntegerOps.carrier t).least + (IntegerOps.carrier t).span := by
  decide

theorem Represents.widen (isInt : s.isInteger) (isInt' : t.isInteger) (contained : primDomainContained s t = true)
    (represents : Represents s v) : Represents t v := by
  obtain ⟨low, high⟩ :=
    contained_bounds s (mem_kScalarPrims s) t (mem_kScalarPrims t) isInt isInt' contained
  exact ⟨le_trans low represents.1, lt_of_lt_of_le represents.2 high⟩

theorem derive_integers : ∀ s ∈ kScalarPrims, ∀ t ∈ kScalarPrims, s.isInteger → t.isInteger →
    deriveScalarCast s t = if s = t then .same else if primDomainContained s t then .auto else .explicit := by
  decide

theorem common_integers : ∀ l ∈ kScalarPrims, ∀ r ∈ kScalarPrims, l.isInteger → r.isInteger →
    ∀ c ∈ commonNumericType l r, c.isInteger ∧ primDomainContained l c = true ∧ primDomainContained r c = true := by
  decide

theorem wrap_of_represents (isInt : t.isInteger) (represents : Represents t v) : t.wrap v = v := by
  rw [IntegerOps.wrap_eq_convert isInt]
  exact HostIntegers.IntType.convert_of_holds represents

theorem value_represents (isInt : s.isInteger) (cell : Nat) : Represents s (s.value cell) := IntegerOps.value_holds isInt

end Domains

def Keeps (unit : FloatUnit) (s t : ScalarPrim) (cell : Nat) (v : Int) : Prop :=
  ∃ cell', castSlot unit s t cell = some cell' ∧ t.value cell' = v

section Cells
variable {unit : FloatUnit} {s t : ScalarPrim} {v : Int} {cell : Nat}

theorem castCell_integers (isInt : s.isInteger) (isInt' : t.isInteger) :
    castCell unit s t cell = some (s.value cell) := by
  cases IntegerOps.integerRow isInt <;> cases IntegerOps.integerRow isInt' <;> rfl

theorem keeps_wrap (isInt : s.isInteger) (isInt' : t.isInteger) (differ : s ≠ t) :
    Keeps unit s t cell (t.wrap (s.value cell)) := by
  refine ⟨t.store cell (s.value cell), ?_, IntegerOps.value_store.1⟩
  rw [castSlot, if_neg differ, castCell_integers isInt isInt', Option.map_some]

theorem keeps_represented (isInt : s.isInteger) (isInt' : t.isInteger) (represents : Represents t (s.value cell)) :
    Keeps unit s t cell (s.value cell) := by
  by_cases same : s = t
  · subst same
    exact ⟨cell, if_pos rfl, rfl⟩
  · have kept : Keeps unit s t cell (t.wrap (s.value cell)) := keeps_wrap isInt isInt' same
    rwa [wrap_of_represents isInt' represents] at kept

theorem keeps_contained (isInt : s.isInteger) (isInt' : t.isInteger) (contained : primDomainContained s t = true) :
    Keeps unit s t cell (s.value cell) :=
  keeps_represented isInt isInt' ((value_represents isInt cell).widen isInt isInt' contained)

end Cells

def constantOf (negated : Bool) (n : UInt64) : SnExpression :=
  if negated then .neg (.scalar (dealUintToken n)) else .literal (.scalar (dealUintToken n))

def constantNumber (negated : Bool) (n : UInt64) : Int := if negated then -n.toNat else n.toNat

section Constants
variable {unit : FloatUnit} {t : ScalarPrim} {n : UInt64} {negated : Bool}

theorem dealUintToken_cases (n : UInt64) :
    (n.toNat < 2 ^ 31 ∧ (dealUintToken n).row = .int32 ∧ (dealUintToken n).bits = n.toNat) ∨
      (n.toNat < 2 ^ 63 ∧ (dealUintToken n).row = .long ∧ (dealUintToken n).bits = n.toNat) ∨
      (2 ^ 63 ≤ n.toNat ∧ (dealUintToken n).row = .ulong ∧ (dealUintToken n).bits = n.toNat) := by
  unfold dealUintToken
  by_cases small : n.toNat < 2 ^ 31
  · rw [dif_pos small]
    exact .inl ⟨small, rfl, rfl⟩
  · rw [dif_neg small]
    by_cases middle : n.toNat < 2 ^ 63
    · rw [if_pos middle]
      exact .inr (.inl ⟨middle, rfl, rfl⟩)
    · rw [if_neg middle]
      exact .inr (.inr ⟨Nat.le_of_not_lt middle, rfl, rfl⟩)

theorem represents_int32 {v : Int} : Represents .int32 v ↔ -2 ^ 31 ≤ v ∧ v < 2 ^ 31 := Iff.rfl

theorem represents_long {v : Int} : Represents .long v ↔ -2 ^ 63 ≤ v ∧ v < 2 ^ 63 := Iff.rfl

theorem represents_ulong {v : Int} : Represents .ulong v ↔ 0 ≤ v ∧ v < 2 ^ 64 := Iff.rfl

theorem row_integer (n : UInt64) : (dealUintToken n).row.isInteger := by
  rcases dealUintToken_cases n with ⟨-, row, -⟩ | ⟨-, row, -⟩ | ⟨-, row, -⟩ <;> rw [row] <;> rfl

theorem row_represents (n : UInt64) : Represents (dealUintToken n).row n.toNat := by
  rcases dealUintToken_cases n with ⟨small, row, -⟩ | ⟨middle, row, -⟩ | ⟨large, row, -⟩ <;> rw [row]
  · exact represents_int32.mpr (by omega)
  · exact represents_long.mpr (by omega)
  · exact represents_ulong.mpr ⟨by omega, by exact_mod_cast n.toNat_lt⟩

def NegatedULong (negated : Bool) (n : UInt64) : Prop := negated = true ∧ (dealUintToken n).row = .ulong

theorem negatedULong_iff : NegatedULong negated n ↔ negated = true ∧ 2 ^ 63 ≤ n.toNat := by
  refine and_congr_right fun _ => ?_
  rcases dealUintToken_cases n with ⟨small, row, -⟩ | ⟨middle, row, -⟩ | ⟨large, row, -⟩ <;> rw [row]
  · exact iff_of_false nofun (by omega)
  · exact iff_of_false nofun (by omega)
  · exact iff_of_true rfl large

theorem number_represents (ordinary : ¬ NegatedULong negated n) :
    Represents (dealUintToken n).row (constantNumber negated n) := by
  cases negated with
  | false => exact row_represents n
  | true =>
    change Represents _ (-(n.toNat : Int))
    rcases dealUintToken_cases n with ⟨small, row, -⟩ | ⟨middle, row, -⟩ | ⟨-, row, -⟩
    · rw [row]
      exact represents_int32.mpr (by omega)
    · rw [row]
      exact represents_long.mpr (by omega)
    · exact absurd ⟨rfl, row⟩ ordinary

theorem tryGetLiteral_token (n : UInt64) :
    tryGetLiteral (.scalar (dealUintToken n)) = some (.int (dealUintToken n).row n.toNat) := by
  have number : (dealUintToken n).row.value (dealUintToken n).bits = n.toNat := by
    have bits : (dealUintToken n).bits = n.toNat := by
      rcases dealUintToken_cases n with ⟨-, -, bits⟩ | ⟨-, -, bits⟩ | ⟨-, -, bits⟩ <;> exact bits
    rw [bits]
    exact wrap_of_represents (row_integer n) (row_represents n)
  rw [tryGetLiteral, number]
  rcases dealUintToken_cases n with ⟨-, row, -⟩ | ⟨-, row, -⟩ | ⟨-, row, -⟩ <;> rw [row]

theorem tryGetConstant_cases (unit : FloatUnit) (negated : Bool) (n : UInt64) :
    (¬ NegatedULong negated n ∧ tryGetConstantLiteral unit (constantOf negated n) =
        some (.int (dealUintToken n).row (constantNumber negated n))) ∨
      (NegatedULong negated n ∧ n.toNat = 2 ^ 63 ∧
        tryGetConstantLiteral unit (constantOf negated n) = some (.int .long (-2 ^ 63))) ∨
      (NegatedULong negated n ∧ n.toNat ≠ 2 ^ 63 ∧ tryGetConstantLiteral unit (constantOf negated n) = none) := by
  cases negated with
  | false => exact .inl ⟨fun wraps => absurd wraps.1 Bool.false_ne_true, tryGetLiteral_token n⟩
  | true =>
    simp only [constantOf, if_true, tryGetConstantLiteral, tryGetLiteral_token]
    rcases dealUintToken_cases n with ⟨-, row, -⟩ | ⟨-, row, -⟩ | ⟨-, row, -⟩
    · refine .inl ⟨fun wraps => ?_, by rw [row]; rfl⟩
      cases row.symm.trans wraps.2
    · refine .inl ⟨fun wraps => ?_, by rw [row]; rfl⟩
      cases row.symm.trans wraps.2
    · rw [row]
      by_cases top : n.toNat = 2 ^ 63
      · exact .inr (.inl ⟨⟨rfl, row⟩, top, if_pos (by exact_mod_cast top)⟩)
      · exact .inr (.inr ⟨⟨rfl, row⟩, top, if_neg (by exact_mod_cast top)⟩)

theorem fitsRow_iff_represents {row : ScalarPrim} {v : Int} (isInt : t.isInteger) (large : row = .ulong → 2 ^ 63 ≤ v) :
    fitsRow row t v = true ↔ Represents t v := by
  have signed (half : Int) (isRange : Represents t v ↔ -half ≤ v ∧ v < half) (small : half ≤ 2 ^ 63) :
      (row ≠ .ulong ∧ -half ≤ v ∧ v < half) ↔ Represents t v := by
    rw [isRange]
    refine and_iff_right_of_imp fun inside isULong => ?_
    exact absurd (large isULong) (not_le.mpr (lt_of_lt_of_le inside.2 small))
  cases IntegerOps.integerRow isInt with
  | byte => exact decide_eq_true_iff.trans (signed (2 ^ 7) Iff.rfl (by decide))
  | short => exact decide_eq_true_iff.trans (signed (2 ^ 15) Iff.rfl (by decide))
  | int32 => exact decide_eq_true_iff.trans (signed (2 ^ 31) Iff.rfl (by decide))
  | long => exact decide_eq_true_iff.trans (signed (2 ^ 63) Iff.rfl le_rfl)
  | ubyte => exact decide_eq_true_iff
  | ushort => exact decide_eq_true_iff
  | uint32 => exact decide_eq_true_iff
  | ulong => exact decide_eq_true_iff

theorem emit_constant (unit : FloatUnit) (negated : Bool) (n : UInt64) (old : Nat) : ∃ cell,
    emitExpression unit old (constantOf negated n) = some ((dealUintToken n).row, cell) ∧
      (dealUintToken n).row.value cell = (dealUintToken n).row.wrap (constantNumber negated n) := by
  have bits : (dealUintToken n).bits = n.toNat := by
    rcases dealUintToken_cases n with ⟨-, -, bits⟩ | ⟨-, -, bits⟩ | ⟨-, -, bits⟩ <;> exact bits
  have literal (old : Nat) : (dealUintToken n).row.value ((dealUintToken n).row.store old (dealUintToken n).bits) =
      n.toNat := by
    rw [IntegerOps.value_store.1, bits]
    exact wrap_of_represents (row_integer n) (row_represents n)
  cases negated with
  | false =>
    refine ⟨_, rfl, ?_⟩
    rw [IntegerOps.value_store.1, bits]
    rfl
  | true =>
    refine ⟨(dealUintToken n).row.store ((dealUintToken n).row.store old (dealUintToken n).bits) (-n.toNat), ?_,
      IntegerOps.value_store.1⟩
    change (negEntry unit (dealUintToken n).row _).bind _ = _
    rw [negEntry, if_pos (row_integer n), Option.bind_some, literal]

theorem fixup_constant (isInt : t.isInteger) : fixupExprType unit (constantOf negated n) (dealUintToken n).row t =
    if (dealUintToken n).row = t then .same
    else if primDomainContained (dealUintToken n).row t then .cast
    else
      match tryConstantFit unit (constantOf negated n) t with
      | .fits => .cast
      | .outOfRange => .outOfRange
      | .notApplicable => .incompatible := by
  rw [fixupExprType, derive_integers _ (mem_kScalarPrims _) t (mem_kScalarPrims t) (row_integer n) isInt]
  by_cases same : (dealUintToken n).row = t
  · rw [if_pos same, if_pos same]
  · rw [if_neg same, if_neg same]
    cases primDomainContained (dealUintToken n).row t <;> rfl

theorem tryConstantFit_int {e : SnExpression} {row : ScalarPrim} {v : Int} (isInt : t.isInteger)
    (isConst : tryGetConstantLiteral unit e = some (.int row v)) (large : row = .ulong → 2 ^ 63 ≤ v) :
    (Represents t v ∧ tryConstantFit unit e t = .fits) ∨ (¬ Represents t v ∧ tryConstantFit unit e t = .outOfRange) := by
  rw [tryConstantFit, isConst]
  simp only [isInt, if_true]
  by_cases fits : fitsRow row t v = true
  · exact .inl ⟨(fitsRow_iff_represents isInt large).mp fits, if_pos fits⟩
  · exact .inr ⟨fun inside => fits ((fitsRow_iff_represents isInt large).mpr inside), if_neg fits⟩

theorem fixup_ordinary (isInt : t.isInteger) (ordinary : ¬ NegatedULong negated n) :
    fixupExprType unit (constantOf negated n) (dealUintToken n).row t =
      if (dealUintToken n).row = t then .same
      else if Represents t (constantNumber negated n) then .cast else .outOfRange := by
  rw [fixup_constant isInt]
  refine if_congr Iff.rfl rfl ?_
  have inRow := number_represents ordinary
  have large : (dealUintToken n).row = .ulong → 2 ^ 63 ≤ constantNumber negated n := by
    intro isULong
    have positive : negated = false := Bool.eq_false_iff.mpr fun isNegated => ordinary ⟨isNegated, isULong⟩
    rcases dealUintToken_cases n with ⟨-, row, -⟩ | ⟨-, row, -⟩ | ⟨top, -, -⟩
    · cases row.symm.trans isULong
    · cases row.symm.trans isULong
    · rw [positive]
      exact Int.ofNat_le.mpr top
  by_cases contained : primDomainContained (dealUintToken n).row t = true
  · rw [if_pos contained, if_pos (inRow.widen (row_integer n) isInt contained)]
  · rw [if_neg contained]
    rcases tryGetConstant_cases unit negated n with ⟨-, isConst⟩ | ⟨wraps, -⟩ | ⟨wraps, -⟩
    · rcases tryConstantFit_int isInt isConst large with ⟨inside, fits⟩ | ⟨outside, beyond⟩
      · rw [fits, if_pos inside]
      · rw [beyond, if_neg outside]
    · exact absurd wraps ordinary
    · exact absurd wraps ordinary

theorem ulong_contained (isInt : t.isInteger) (other : t ≠ .ulong) : primDomainContained .ulong t = false := by
  cases IntegerOps.integerRow isInt with
  | ulong => exact absurd rfl other
  | _ => rfl

theorem represents_least (isInt : t.isInteger) : Represents t (-2 ^ 63) ↔ t = .long := by
  cases IntegerOps.integerRow isInt <;> decide

theorem fixup_negatedULong (isInt : t.isInteger) (wraps : NegatedULong negated n) :
    fixupExprType unit (constantOf negated n) (dealUintToken n).row t =
      if t = .ulong then .same
      else if n.toNat = 2 ^ 63 then if t = .long then .cast else .outOfRange
      else .incompatible := by
  rw [fixup_constant isInt, wraps.2]
  by_cases same : t = .ulong
  · rw [if_pos same.symm, if_pos same]
  · rw [if_neg (Ne.symm same), if_neg same, ulong_contained isInt same]
    rcases tryGetConstant_cases unit negated n with ⟨ordinary, -⟩ | ⟨-, top, isConst⟩ | ⟨-, top, isConst⟩
    · exact absurd wraps ordinary
    · rw [if_pos top]
      rcases tryConstantFit_int isInt isConst nofun with ⟨inside, fits⟩ | ⟨outside, beyond⟩
      · rw [fits, if_pos ((represents_least isInt).mp inside)]
        rfl
      · rw [beyond, if_neg fun isLong => outside ((represents_least isInt).mpr isLong)]
        rfl
    · rw [if_neg top, tryConstantFit, isConst]
      rfl

theorem represents_negatedULong (isInt : t.isInteger) (wraps : NegatedULong negated n) :
    Represents t (constantNumber negated n) ↔ n.toNat = 2 ^ 63 ∧ t = .long := by
  obtain ⟨rfl, top⟩ := negatedULong_iff.mp wraps
  by_cases least : n.toNat = 2 ^ 63
  · have number : constantNumber true n = -2 ^ 63 := by
      rw [constantNumber, if_pos rfl, least]
      rfl
    rw [number, represents_least isInt]
    exact (and_iff_right least).symm
  · refine iff_of_false (fun inside => ?_) fun both => least both.1
    have below : constantNumber true n < -2 ^ 63 := by
      change -(n.toNat : Int) < -2 ^ 63
      omega
    have bound : -2 ^ 63 ≤ (IntegerOps.carrier t).least := by
      cases IntegerOps.integerRow isInt <;> decide
    exact absurd (lt_of_lt_of_le below (le_trans bound inside.1)) (lt_irrefl _)

theorem keeps_constant (isInt : t.isInteger) (casts : fixupExprType unit (constantOf negated n) (dealUintToken n).row t = .cast)
    (old : Nat) : ∃ cell, emitExpression unit old (constantOf negated n) = some ((dealUintToken n).row, cell) ∧
      Keeps unit (dealUintToken n).row t cell (constantNumber negated n) := by
  obtain ⟨cell, emitted, number⟩ := emit_constant unit negated n old
  refine ⟨cell, emitted, ?_⟩
  by_cases wraps : NegatedULong negated n
  · rw [fixup_negatedULong isInt wraps] at casts
    split at casts
    · cases casts
    · rename_i other
      split at casts
      · rename_i top
        split at casts
        · rename_i isLong
          have kept : Keeps unit _ _ cell _ := keeps_wrap (row_integer n) isInt
            (fun same => other (same.symm.trans wraps.2))
          subst isLong
          have least : constantNumber negated n = -2 ^ 63 := by
            rw [constantNumber, if_pos wraps.1, top]
            rfl
          rw [number, wraps.2, least] at kept
          rw [wraps.2, least]
          exact kept
        · cases casts
      · cases casts
  · rw [fixup_ordinary isInt wraps] at casts
    split at casts
    · cases casts
    · split at casts
      · rename_i inside
        have inRow : (dealUintToken n).row.value cell = constantNumber negated n :=
          number.trans (wrap_of_represents (row_integer n) (number_represents wraps))
        rw [← inRow] at inside ⊢
        exact keeps_represented (row_integer n) isInt inside
      · cases casts

end Constants

section Widening
variable {unit : FloatUnit} {s t : ScalarPrim}

theorem fixup_contained (isInt : s.isInteger) (isInt' : t.isInteger) (contained : primDomainContained s t = true)
    (e : SnExpression) : fixupExprType unit e s t = if s = t then .same else .cast := by
  rw [fixupExprType, derive_integers s (mem_kScalarPrims s) t (mem_kScalarPrims t) isInt isInt', if_pos contained]
  by_cases same : s = t
  · rw [if_pos same, if_pos same]
  · rw [if_neg same, if_neg same]

theorem contained_of_cast (isInt : s.isInteger) (isInt' : t.isInteger) (casts : fixupExprType unit .other s t = .cast) :
    primDomainContained s t = true := by
  by_contra wider
  rw [fixupExprType, derive_integers s (mem_kScalarPrims s) t (mem_kScalarPrims t) isInt isInt', if_neg wider] at casts
  by_cases same : s = t
  · rw [if_pos same] at casts
    cases casts
  · rw [if_neg same] at casts
    cases casts

end Widening

/-- The casts between integers that the resolver inserts keep the number: of any value where a type is widened or both
operands are promoted, and of a constant where it fits. A constant is refused as out of range where the target has no such
number; only a negated `ulong` literal is a `ulong` that wraps, and flows to `ulong` as it is and to no other type unless
it is the least `long`. -/
theorem implicit_conversions (unit : FloatUnit) :
    (∀ s t : ScalarPrim, s.isInteger → t.isInteger → fixupExprType unit .other s t = .cast →
      ∀ cell, Keeps unit s t cell (s.value cell)) ∧
    (∀ l r c : ScalarPrim, l.isInteger → r.isInteger → commonNumericType l r = some c → c.isInteger ∧
      ∀ s, s = l ∨ s = r → (∀ e, fixupExprType unit e s c = if s = c then .same else .cast) ∧
        ∀ cell, Keeps unit s c cell (s.value cell)) ∧
    ∀ (negated : Bool) (n : UInt64) (t : ScalarPrim), t.isInteger →
      let e := constantOf negated n
      let row := (dealUintToken n).row
      (fixupExprType unit e row t = .cast → ∀ old, ∃ cell, emitExpression unit old e = some (row, cell) ∧
        Keeps unit row t cell (constantNumber negated n)) ∧
      (¬ NegatedULong negated n →
        (fixupExprType unit e row t = .outOfRange ↔ ¬ Represents t (constantNumber negated n))) ∧
      (NegatedULong negated n → fixupExprType unit e row t =
        if t = .ulong then .same
        else if n.toNat ≠ 2 ^ 63 then .incompatible
        else if Represents t (constantNumber negated n) then .cast else .outOfRange) := by
  refine ⟨fun s t isInt isInt' casts cell => ?_, fun l r c isInt isInt' common => ?_, fun negated n t isInt => ?_⟩
  · exact keeps_contained isInt isInt' (contained_of_cast isInt isInt' casts)
  · obtain ⟨isInt'', left, right⟩ :=
      common_integers l (mem_kScalarPrims l) r (mem_kScalarPrims r) isInt isInt' c (Option.mem_def.mpr common)
    refine ⟨isInt'', ?_⟩
    rintro s (rfl | rfl)
    · exact ⟨fixup_contained isInt isInt'' left, fun cell => keeps_contained isInt isInt'' left⟩
    · exact ⟨fixup_contained isInt' isInt'' right, fun cell => keeps_contained isInt' isInt'' right⟩
  · refine ⟨keeps_constant isInt, fun ordinary => ?_, fun wraps => ?_⟩
    · rw [fixup_ordinary isInt ordinary]
      by_cases same : (dealUintToken n).row = t
      · rw [if_pos same]
        exact iff_of_false nofun fun outside => outside (same ▸ number_represents ordinary)
      · rw [if_neg same]
        by_cases inside : Represents t (constantNumber negated n)
        · rw [if_pos inside]
          exact iff_of_false nofun (not_not_intro inside)
        · rw [if_neg inside]
          exact iff_of_true rfl inside
    · rw [fixup_negatedULong isInt wraps]
      refine if_congr Iff.rfl rfl ?_
      by_cases top : n.toNat = 2 ^ 63
      · rw [if_pos top, if_neg (not_not_intro top)]
        refine if_congr ?_ rfl rfl
        rw [represents_negatedULong isInt wraps]
        exact (and_iff_right top).symm
      · rw [if_neg top, if_pos top]

theorem negatedULong_accepted :
    let e := constantOf true 9223372036854775809
    fixupExprType NarrowCells.noFloats e (dealUintToken 9223372036854775809).row .ulong = .same ∧
      ¬ Represents .ulong (constantNumber true 9223372036854775809) ∧
      (emitExpression NarrowCells.noFloats 0 e).map Prod.snd = some 9223372036854775807 := by
  refine ⟨?_, ?_, ?_⟩ <;> decide

end NLang.Compiler.ImplicitConversions
