import NLang.Backend.FoldedDefaults
import NLang.Vm.NarrowCells

/-!
# Coercion of folded defaults

When a folded integer default is the value that the expression has at run time, in the unit of the declaration and in
the units that read it from the image.
-/

namespace NLang.Backend.Folded
open NLang.Vm NLang.Image ScalarPrim

inductive IntegerDefault : SnExpression → Prop where
  | literal {lit : ScalarLiteral} (row : lit.row = .int32 ∨ lit.row = .long ∨ lit.row = .ulong) :
      IntegerDefault (.literal (.scalar lit))
  | negInt {lit : ScalarLiteral} (row : lit.row = .int32) (lexed : lit.bits < 2 ^ 31) : IntegerDefault (.neg (.scalar lit))
  | negLong {lit : ScalarLiteral} (row : lit.row = .long) (lexed : lit.bits < 2 ^ 63) : IntegerDefault (.neg (.scalar lit))
  | negULong {lit : ScalarLiteral} (row : lit.row = .ulong) (lexed : lit.bits = 2 ^ 63) : IntegerDefault (.neg (.scalar lit))

def foldedValue : SnExpression → Int
  | .literal (.scalar lit) => if lit.row = .int32 then value .int32 lit.bits else value .long lit.bits
  | .neg (.scalar lit) => -lit.bits
  | _ => 0

def runtimeValue : SnExpression → Int
  | .literal (.scalar lit) => lit.row.value lit.bits
  | .neg (.scalar lit) => if lit.row = .ulong then 2 ^ 63 else -lit.bits
  | _ => 0

def TopULong (e : SnExpression) : Prop :=
  ∃ lit : ScalarLiteral, (e = .literal (.scalar lit) ∨ e = .neg (.scalar lit)) ∧ lit.row = .ulong ∧ 2 ^ 63 ≤ lit.bits

def readSpan (d : ScalarPrim) : Nat := if d.slotWidth = 8 then 2 ^ 64 else 2 ^ 32

def carrier (d : ScalarPrim) : ScalarPrim :=
  if d.slotWidth = 8 ∨ d.category = .float then d else .int32

def bitsOf (unit : FloatUnit) (d : ScalarPrim) (v : Int) : Nat :=
  if d.category = .float then unit.ofInt d v % d.span else (v % readSpan d).toNat

section Values
variable {unit : FloatUnit} {stringIdx : Text → Nat} {e : SnExpression} {d : ScalarPrim}

theorem scalarPrimOfRtk_code (p : ScalarPrim) : scalarPrimOfRtk (code p) = some p := by
  cases p <;> decide

theorem code_injective {p q : ScalarPrim} : code p = code q ↔ p = q :=
  ⟨fun same => Option.some.inj ((scalarPrimOfRtk_code p).symm.trans ((congrArg _ same).trans (scalarPrimOfRtk_code q))), congrArg _⟩

theorem ofInt_value32 (v : Nat) : UInt32.ofInt (value .int32 v) = UInt32.ofNat v := by
  apply UInt32.toNat_inj.mp
  simp [UInt32.ofInt, value, wrap, span, category, slotWidth]
  omega

theorem ofInt_value64 (v : Nat) : UInt64.ofInt (value .long v) = UInt64.ofNat v := by
  apply UInt64.toNat_inj.mp
  simp [UInt64.ofInt, value, wrap, span, category, slotWidth]
  omega

theorem value32_ofInt {v : Int} (low : -2 ^ 31 ≤ v) (high : v < 2 ^ 31) : value .int32 (UInt32.ofInt v).toNat = v := by
  simp [UInt32.ofInt, value, wrap, span, category, slotWidth]
  omega

theorem value64_ofInt {v : Int} (low : -2 ^ 63 ≤ v) (high : v < 2 ^ 63) : value .long (UInt64.ofInt v).toNat = v := by
  simp [UInt64.ofInt, value, wrap, span, category, slotWidth]
  omega

theorem value32_bounds (v : Nat) : -2 ^ 31 ≤ value .int32 v ∧ value .int32 v < 2 ^ 31 := by
  simp [value, wrap, span, category, slotWidth]
  omega

theorem value64_bounds (v : Nat) : -2 ^ 63 ≤ value .long v ∧ value .long v < 2 ^ 63 := by
  simp [value, wrap, span, category, slotWidth]
  omega

theorem foldDefault_cases (isInt : IntegerDefault e) :
    (foldDefault unit stringIdx e = { tag := code .int32, intValue := UInt32.ofInt (foldedValue e) } ∧
      -2 ^ 31 ≤ foldedValue e ∧ foldedValue e < 2 ^ 31) ∨
    ∃ row, (row = .long ∨ row = .ulong) ∧
      foldDefault unit stringIdx e = { tag := code row, longValue := UInt64.ofInt (foldedValue e) } ∧
      -2 ^ 63 ≤ foldedValue e ∧ foldedValue e < 2 ^ 63 := by
  cases isInt with
  | @literal lit row =>
    obtain ⟨_, bits, fits⟩ := lit
    rcases row with row | row | row
    · cases row
      refine .inl ⟨?_, value32_bounds bits⟩
      rw [foldedValue, if_pos rfl, ofInt_value32]
      rfl
    · cases row
      refine .inr ⟨.long, .inl rfl, ?_, value64_bounds bits⟩
      rw [foldedValue, if_neg nofun, ofInt_value64]
      rfl
    · cases row
      refine .inr ⟨.ulong, .inr rfl, ?_, value64_bounds bits⟩
      rw [foldedValue, if_neg nofun, ofInt_value64]
      rfl
  | @negInt lit row lexed =>
    obtain ⟨_, bits, fits⟩ := lit
    cases row
    dsimp only at lexed
    refine .inl ⟨?_, by rw [foldedValue]; dsimp only; omega⟩
    have same : -UInt32.ofNat bits = UInt32.ofInt (-bits) := by
      apply UInt32.toNat_inj.mp
      simp [UInt32.ofInt, UInt32.size]
      omega
    rw [foldedValue, ← same]
    rfl
  | @negLong lit row lexed =>
    obtain ⟨_, bits, fits⟩ := lit
    cases row
    dsimp only at lexed
    refine .inr ⟨.long, .inl rfl, ?_, by rw [foldedValue]; dsimp only; omega⟩
    have same : -UInt64.ofNat bits = UInt64.ofInt (-bits) := by
      apply UInt64.toNat_inj.mp
      simp [UInt64.ofInt, UInt64.size]
      omega
    rw [foldedValue, ← same]
    rfl
  | @negULong lit row lexed =>
    obtain ⟨_, bits, fits⟩ := lit
    cases row
    dsimp only at lexed
    refine .inr ⟨.long, .inl rfl, ?_, by rw [foldedValue]; dsimp only; omega⟩
    have same : -(bits : Int) = -2 ^ 63 := by omega
    rw [foldedValue, same]
    exact if_pos lexed

theorem coerce_same {dv : DefaultValueDesc} {kind : UInt8} (same : dv.tag = kind) : coerceDefaultToDeclared unit dv kind = dv :=
  if_pos (.inr (.inl same))

theorem coerce_stamp {dv : DefaultValueDesc} {source : ScalarPrim} {kind : UInt8} {channel : Channel} (tagged : dv.tag = code source)
    (other : code source ≠ kind) (isChannel : channelOf unit dv = some channel) :
    coerceDefaultToDeclared unit dv kind = stampDeclared unit dv channel kind := by
  have plain : code source ≠ Image.Rtk.void ∧ code source ≠ rtkNull ∧ code source ≠ Image.Rtk.string := by
    cases source <;> decide
  rw [coerceDefaultToDeclared, tagged, if_neg (by simp [other, plain]), isChannel]

theorem ofInt_toNat32 (v : Int) : (UInt32.ofInt v).toNat = (v % 2 ^ 32).toNat := by
  simp [UInt32.ofInt]
  omega

theorem ofInt_toNat64 (v : Int) : (UInt64.ofInt v).toNat = (v % 2 ^ 64).toNat := by
  simp [UInt64.ofInt]
  omega

def Holds (unit : FloatUnit) (dv : DefaultValueDesc) (d : ScalarPrim) (v : Int) : Prop :=
  dv.tag = code (carrier d) ∧ ∀ fresh, materializeDefaultValue fresh dv = some (bitsOf unit d v)

theorem holds_int32 {dv : DefaultValueDesc} {v : Int} (tag : dv.tag = code .int32) (bits : dv.intValue = UInt32.ofInt v)
    (word : carrier d = .int32) : Holds unit dv d v := by
  have four : bitsOf unit d v = (v % 2 ^ 32).toNat := by
    cases d <;> first | rfl | cases word
  refine ⟨by rw [tag, word], fun fresh => ?_⟩
  rw [materializeDefaultValue, tag, scalarPrimOfRtk_code, four, ← ofInt_toNat32, ← bits]

theorem holds_long {dv : DefaultValueDesc} {v : Int} (wide : d = .long ∨ d = .ulong) (tag : dv.tag = code d)
    (bits : dv.longValue = UInt64.ofInt v) : Holds unit dv d v := by
  have same : bitsOf unit d v = (UInt64.ofInt v).toNat := by
    rcases wide with rfl | rfl
    all_goals exact (ofInt_toNat64 v).symm
  rcases wide with rfl | rfl
  all_goals
    refine ⟨tag, fun fresh => ?_⟩
    rw [materializeDefaultValue, tag, scalarPrimOfRtk_code, same, bits]

theorem stamp_holds (numeric : isNumeric d = true) (dv : DefaultValueDesc) (v : Int) :
    Holds unit (stampDeclared unit dv (.ival v) (code d)) d v := by
  rw [stampDeclared, scalarPrimOfRtk_code]
  cases d with
  | long => exact holds_long (.inl rfl) rfl rfl
  | ulong => exact holds_long (.inr rfl) rfl rfl
  | float =>
    refine ⟨rfl, fun fresh => congrArg some ?_⟩
    exact UInt32.toNat_ofNat' ..
  | double =>
    refine ⟨rfl, fun fresh => congrArg some ?_⟩
    exact UInt64.toNat_ofNat' ..
  | bool | char => cases numeric
  | _ => exact holds_int32 rfl rfl rfl

theorem extract_holds (isInt : IntegerDefault e) (numeric : isNumeric d = true) :
    Holds unit (extractDefaultValue unit stringIdx e (code d)) d (foldedValue e) := by
  unfold extractDefaultValue
  rcases @foldDefault_cases unit stringIdx e isInt with ⟨base, low, high⟩ | ⟨row, wide, base, low, high⟩
  · rw [base]
    by_cases same : d = .int32
    · subst same
      rw [coerce_same rfl]
      exact holds_int32 rfl rfl rfl
    · have isChannel : channelOf unit { tag := code .int32, intValue := UInt32.ofInt (foldedValue e) } = some (.ival (foldedValue e)) :=
        congrArg (some ∘ Channel.ival) (value32_ofInt low high)
      rw [coerce_stamp rfl (fun equal => same (code_injective.mp equal).symm) isChannel]
      exact stamp_holds numeric _ _
  · rw [base]
    by_cases same : d = row
    · subst same
      rw [coerce_same rfl]
      exact holds_long wide rfl rfl
    · have isChannel : channelOf unit { tag := code row, longValue := UInt64.ofInt (foldedValue e) } = some (.ival (foldedValue e)) := by
        rcases wide with rfl | rfl
        all_goals exact congrArg (some ∘ Channel.ival) (value64_ofInt low high)
      rw [coerce_stamp rfl (fun equal => same (code_injective.mp equal).symm) isChannel]
      exact stamp_holds numeric _ _

theorem span_pos (p : ScalarPrim) : (0 : Int) < p.span := by
  have := Nat.two_pow_pos (8 * p.slotWidth)
  rw [span]
  omega

theorem wrap_congr {p : ScalarPrim} {v w : Int} (same : v % p.span = w % p.span) : p.wrap v = p.wrap w := by
  rw [wrap, wrap, same]

theorem store_emod (p : ScalarPrim) (cell : Nat) (v : Int) : (p.store cell v : Int) % p.span = v % p.span := by
  have nonneg := Int.emod_nonneg v (span_pos p).ne'
  rw [store, Int.natCast_add, Int.natCast_mul, Int.toNat_of_nonneg nonneg, Int.mul_add_emod_self_right, Int.emod_emod]

theorem value_store (p : ScalarPrim) (cell : Nat) (v : Int) : p.value (p.store cell v) = p.wrap v :=
  wrap_congr (store_emod p cell v)

theorem wrap_int32 {v : Int} (low : -2 ^ 31 ≤ v) (high : v < 2 ^ 31) : wrap .int32 v = v := by
  simp [wrap, span, category, slotWidth]
  omega

theorem wrap_long {v : Int} (low : -2 ^ 63 ≤ v) (high : v < 2 ^ 63) : wrap .long v = v := by
  simp [wrap, span, category, slotWidth]
  omega

theorem wrap_ulong_top {v : Int} (top : v = 2 ^ 63 ∨ v = -2 ^ 63) : wrap .ulong v = 2 ^ 63 := by
  simp [wrap, span, category, slotWidth]
  omega

theorem emit_integer (isInt : IntegerDefault e) (old : Nat) : ∃ (row : ScalarPrim) (cell : Nat),
    emitExpression unit old e = some (row, cell) ∧ evalRow e = some row ∧ (row = .int32 ∨ row = .long ∨ row = .ulong) ∧
    row.value cell = runtimeValue e := by
  cases isInt with
  | @literal lit row => exact ⟨_, _, rfl, rfl, row, value_store _ _ _⟩
  | @negInt lit row lexed =>
    obtain ⟨_, bits, fits⟩ := lit
    cases row
    dsimp only at lexed
    refine ⟨_, _, rfl, rfl, .inl rfl, ?_⟩
    rw [value_store, value_store]
    change wrap .int32 (-wrap .int32 bits) = -bits
    rw [wrap_int32 (v := bits) (by omega) (by omega), wrap_int32 (by omega) (by omega)]
  | @negLong lit row lexed =>
    obtain ⟨_, bits, fits⟩ := lit
    cases row
    dsimp only at lexed
    refine ⟨_, _, rfl, rfl, .inr (.inl rfl), ?_⟩
    rw [value_store, value_store]
    change wrap .long (-wrap .long bits) = -bits
    rw [wrap_long (v := bits) (by omega) (by omega), wrap_long (by omega) (by omega)]
  | @negULong lit row lexed =>
    obtain ⟨_, bits, fits⟩ := lit
    cases row
    dsimp only at lexed
    refine ⟨_, _, rfl, rfl, .inr (.inr rfl), ?_⟩
    rw [value_store, value_store]
    change wrap .ulong (-wrap .ulong bits) = 2 ^ 63
    rw [wrap_ulong_top (v := bits) (.inl (by omega)), wrap_ulong_top (.inr rfl)]

theorem store_of_emod {p : ScalarPrim} {cell : Nat} {v : Int} (same : v % p.span = (cell : Int) % p.span) :
    p.store cell v = cell := by
  rw [store, same, ← Int.natCast_mod, Int.toNat_natCast, Nat.mul_comm, Nat.div_add_mod]

theorem emod_of_dvd {v w : Int} {m n : Int} (divides : m ∣ n) (same : v % n = w % n) : v % m = w % m := by
  rw [← Int.emod_emod_of_dvd v divides, same, Int.emod_emod_of_dvd w divides]

theorem toNat_emod {cell : Nat} {v : Int} {m : Nat} (same : v % m = (cell : Int) % m) : cell % m = (v % m).toNat := by
  rw [same, ← Int.natCast_mod, Int.toNat_natCast]

theorem value_row {row : ScalarPrim} (cell : Nat) : row.value cell % row.span = (cell : Int) % row.span :=
  NarrowCells.wrap_emod

theorem span_dvd_readSpan (d : ScalarPrim) : (d.span : Int) ∣ readSpan d := by
  cases d <;> decide

theorem readSpan_dvd_span {row : ScalarPrim} (integer : row = .int32 ∨ row = .long ∨ row = .ulong) (narrower : ¬ d.slotWidth = 8) :
    (readSpan d : Int) ∣ row.span := by
  rw [readSpan, if_neg narrower]
  rcases integer with rfl | rfl | rfl
  all_goals decide

theorem store_readSpan {cell : Nat} {v : Int} (low : ¬ d.slotWidth = 8 → v % readSpan d = (cell : Int) % readSpan d) :
    d.store cell v % readSpan d = (v % readSpan d).toNat := by
  by_cases wide : d.slotWidth = 8
  · have spans : readSpan d = d.span := by rw [readSpan, if_pos wide, span, wide]
    rw [spans]
    exact toNat_emod (store_emod d cell v).symm
  · rw [store_of_emod (emod_of_dvd (span_dvd_readSpan d) (low wide))]
    exact toNat_emod (low wide)

theorem castSlot_integer {row : ScalarPrim} (integer : row = .int32 ∨ row = .long ∨ row = .ulong) (numeric : isNumeric d = true)
    (cell : Nat) : ∃ stored, castSlot unit row d cell = some stored ∧ stored % readSpan d = bitsOf unit d (row.value cell) := by
  have fixed : ¬ row.category = .float := by rcases integer with rfl | rfl | rfl <;> decide
  by_cases same : row = d
  · subst same
    refine ⟨cell, if_pos rfl, ?_⟩
    have spans : readSpan row = row.span := by rcases integer with rfl | rfl | rfl <;> rfl
    rw [bitsOf, if_neg fixed, spans]
    exact toNat_emod (value_row cell)
  · have bools : ¬ (row.category = .bool ∨ d.category = .bool) := by
      rcases integer with rfl | rfl | rfl
      all_goals
        cases d with
        | bool | char => cases numeric
        | _ => decide
    have chars : ¬ (d.category = .char ∧ isScalarValue (row.value cell) = false) := by
      cases d with
      | bool | char => cases numeric
      | _ => exact fun both => nomatch both.1
    rw [castSlot, if_neg same, castCell, if_neg bools, if_neg fixed, if_neg chars]
    by_cases float : d.category = .float
    · rw [if_pos float, bitsOf, if_pos float]
      refine ⟨_, rfl, ?_⟩
      have spans : readSpan d = d.span := by
        cases d with
        | float | double => rfl
        | _ => cases float
      rw [spans, toNat_emod (store_emod d cell _).symm, ← Int.natCast_mod, Int.toNat_natCast]
    · rw [if_neg float, bitsOf, if_neg float]
      exact ⟨_, rfl, store_readSpan fun narrower => emod_of_dvd (readSpan_dvd_span integer narrower) (value_row cell)⟩

theorem value_ulong {bits : Nat} (fits : bits < 2 ^ 64) : value .ulong bits = bits := by
  simp [value, wrap, span, category, slotWidth]
  omega

theorem value_long_low {bits : Nat} (low : bits < 2 ^ 63) : value .long bits = bits := by
  simp [value, wrap, span, category, slotWidth]
  omega

theorem value_long_top {bits : Nat} (top : 2 ^ 63 ≤ bits) (fits : bits < 2 ^ 64) : value .long bits = bits - 2 ^ 64 := by
  simp [value, wrap, span, category, slotWidth]
  omega

theorem not_topULong {lit : ScalarLiteral} (small : lit.row ≠ .ulong ∨ lit.bits < 2 ^ 63) :
    ¬ TopULong (.literal (.scalar lit)) ∧ ¬ TopULong (.neg (.scalar lit)) := by
  constructor
  all_goals
    rintro ⟨_, same | same, isULong, top⟩ <;> cases same
    exact small.elim (fun other => other isULong) (fun less => Nat.not_lt.mpr top less)

theorem runtimeValue_cases (isInt : IntegerDefault e) : (¬ TopULong e ∧ runtimeValue e = foldedValue e) ∨
    (TopULong e ∧ runtimeValue e = foldedValue e + 2 ^ 64 ∧ -2 ^ 63 ≤ foldedValue e ∧ foldedValue e < 0) := by
  cases isInt with
  | @literal lit row =>
    obtain ⟨_, bits, fits⟩ := lit
    rcases row with row | row | row
    · cases row
      exact .inl ⟨(not_topULong (.inl (by simp))).1, rfl⟩
    · cases row
      exact .inl ⟨(not_topULong (.inl (by simp))).1, rfl⟩
    · cases row
      have isFolded : foldedValue (.literal (.scalar ⟨.ulong, bits, fits⟩)) = value .long bits := rfl
      have isRuntime : runtimeValue (.literal (.scalar ⟨.ulong, bits, fits⟩)) = value .ulong bits := rfl
      by_cases top : 2 ^ 63 ≤ bits
      · refine .inr ⟨⟨_, .inl rfl, rfl, top⟩, ?_⟩
        rw [isFolded, isRuntime, value_ulong fits, value_long_top top fits]
        have top : (2 ^ 63 : Int) ≤ bits := by exact_mod_cast top
        have fits : (bits : Int) < 2 ^ 64 := by exact_mod_cast fits
        omega
      · refine .inl ⟨(not_topULong (.inr (Nat.lt_of_not_le top))).1, ?_⟩
        rw [isFolded, isRuntime, value_ulong fits, value_long_low (Nat.lt_of_not_le top)]
  | @negInt lit row lexed => exact .inl ⟨(not_topULong (.inl (by rw [row]; decide))).2, by rw [runtimeValue, if_neg (by rw [row]; decide)]; rfl⟩
  | @negLong lit row lexed => exact .inl ⟨(not_topULong (.inl (by rw [row]; decide))).2, by rw [runtimeValue, if_neg (by rw [row]; decide)]; rfl⟩
  | @negULong lit row lexed =>
    refine .inr ⟨⟨lit, .inr rfl, row, lexed.ge⟩, ?_⟩
    have isFolded : foldedValue (.neg (.scalar lit)) = -2 ^ 63 := congrArg (fun bits : Nat => -(bits : Int)) lexed
    have isRuntime : runtimeValue (.neg (.scalar lit)) = 2 ^ 63 := if_pos row
    rw [isFolded, isRuntime]
    decide

theorem numeric_of_cast {row : ScalarPrim} (integer : row = .int32 ∨ row = .long ∨ row = .ulong)
    (implicit : deriveScalarCast row d = .same ∨ deriveScalarCast row d = .auto) : isNumeric d = true := by
  rcases integer with rfl | rfl | rfl
  all_goals revert implicit; cases d <;> decide

theorem constant_integer (isInt : IntegerDefault e) : ∃ (row : ScalarPrim) (v : Int), (row = .int32 ∨ row = .long ∨ row = .ulong) ∧
    tryGetConstantLiteral unit e = some (.int row v) ∧ classifyConstantInitializer unit e = .scalar row ∧
    (v = foldedValue e ∨ v = runtimeValue e ∧ 2 ^ 63 ≤ v) := by
  cases isInt with
  | @literal lit row =>
    obtain ⟨_, bits, fits⟩ := lit
    rcases row with row | row | row
    · cases row
      exact ⟨_, _, .inl rfl, rfl, rfl, .inl rfl⟩
    · cases row
      exact ⟨_, _, .inr (.inl rfl), rfl, rfl, .inl rfl⟩
    · cases row
      refine ⟨_, _, .inr (.inr rfl), rfl, rfl, ?_⟩
      dsimp only
      rw [value_ulong fits]
      by_cases top : 2 ^ 63 ≤ bits
      · exact .inr ⟨(value_ulong fits).symm, by exact_mod_cast top⟩
      · exact .inl (value_long_low (Nat.lt_of_not_le top)).symm
  | @negInt lit row lexed =>
    obtain ⟨_, bits, fits⟩ := lit
    cases row
    refine ⟨_, _, .inl rfl, rfl, rfl, .inl (congrArg Neg.neg (wrap_int32 ?_ ?_))⟩
    all_goals
      dsimp only at lexed ⊢
      omega
  | @negLong lit row lexed =>
    obtain ⟨_, bits, fits⟩ := lit
    cases row
    refine ⟨_, _, .inr (.inl rfl), rfl, rfl, .inl (congrArg Neg.neg (value_long_low lexed))⟩
  | @negULong lit row lexed =>
    obtain ⟨_, bits, fits⟩ := lit
    cases row
    have isTop : value .ulong bits = 2 ^ 63 := (value_ulong fits).trans (by exact_mod_cast lexed)
    have isConst : tryGetConstantLiteral unit (.neg (.scalar ⟨.ulong, bits, fits⟩)) = some (.int .long (-2 ^ 63)) := if_pos isTop
    refine ⟨.long, -2 ^ 63, .inr (.inl rfl), isConst, ?_, .inl ?_⟩
    · simp only [classifyConstantInitializer, isConst]
    · exact (congrArg (fun bits : Nat => -(bits : Int)) lexed).symm

theorem numeric_of_fits (isInt : IntegerDefault e) (fits : constantFits unit e d = true) : isNumeric d = true := by
  obtain ⟨row, v, _, isConst, _⟩ := @constant_integer unit e isInt
  rw [constantFits, isConst, Bool.and_eq_true] at fits
  simp [isNumeric, fits.1]

end Values

inductive Form where
  | param | field | constant

def accepts (unit : FloatUnit) : Form → SnExpression → Declared → Bool
  | .param, e, declared => checkDefaultTypeCompat unit e declared
  | .field, e, declared | .constant, e, declared => foldsAtCompileTime unit e declared

def Declared.cellRow : Declared → ScalarPrim
  | .scalar row => row
  | _ => .int32

def SameCell (declared : Declared) (a b : Nat) : Prop := a % readSpan declared.cellRow = b % readSpan declared.cellRow

section Accepted
variable {unit : FloatUnit} {e : SnExpression} {form : Form} {declared : Declared}

def Converts (unit : FloatUnit) (e : SnExpression) (source d : ScalarPrim) : Prop :=
  deriveScalarCast source d = .same ∨ deriveScalarCast source d = .auto ∨
    (deriveScalarCast source d = .explicit ∧ constantFits unit e d = true)

theorem folds_scalar {source d : ScalarPrim} (isKind : classifyConstantInitializer unit e = .scalar source) :
    foldsAtCompileTime unit e (.scalar d) = true ↔ Converts unit e source d := by
  unfold foldsAtCompileTime Converts
  rw [isKind]
  dsimp only
  cases isCast : deriveScalarCast source d <;> simp_all

theorem derive_ne_box (source d : ScalarPrim) : deriveScalarCast source d ≠ .box := by
  unfold deriveScalarCast
  split_ifs <;> decide

theorem compat_scalar {source d : ScalarPrim} (isRow : evalRow e = some source) :
    checkDefaultTypeCompat unit e (.scalar d) = true ↔ Converts unit e source d := by
  have notBox := derive_ne_box source d
  unfold checkDefaultTypeCompat Converts castInfo
  rw [isRow]
  dsimp only
  cases isCast : deriveScalarCast source d <;> simp_all

theorem numeric_of_converts (isInt : IntegerDefault e) {source d : ScalarPrim}
    (integer : source = .int32 ∨ source = .long ∨ source = .ulong) (converts : Converts unit e source d) : isNumeric d = true := by
  rcases converts with same | auto | ⟨_, fits⟩
  · exact numeric_of_cast integer (.inl same)
  · exact numeric_of_cast integer (.inr auto)
  · exact numeric_of_fits isInt fits

theorem evalRow_integer (isInt : IntegerDefault e) : ∃ row, evalRow e = some row ∧ (row = .int32 ∨ row = .long ∨ row = .ulong) := by
  cases isInt with
  | literal row => exact ⟨_, rfl, row⟩
  | negInt row => exact ⟨_, rfl, .inl row⟩
  | negLong row => exact ⟨_, rfl, .inr (.inl row)⟩
  | negULong row => exact ⟨_, rfl, .inr (.inr row)⟩

theorem accepted_cases (isInt : IntegerDefault e) (accepted : accepts unit form e declared = true) :
    (∃ d, declared = .scalar d ∧ isNumeric d = true) ∨ (declared = .enum ∧ evalRow e = some .int32 ∧ form = .param) ∨
      declared = .string ∨ declared = .object ∨ declared = .reference := by
  cases declared with
  | string | object | reference => simp
  | scalar d =>
    refine .inl ⟨d, rfl, ?_⟩
    cases form with
    | param =>
      obtain ⟨row, isRow, integer⟩ := evalRow_integer isInt
      exact numeric_of_converts isInt integer ((compat_scalar isRow).mp accepted)
    | field | constant =>
      obtain ⟨row, _, integer, _, isKind, _⟩ := @constant_integer unit e isInt
      exact numeric_of_converts isInt integer ((folds_scalar isKind).mp accepted)
  | enum =>
    refine .inr (.inl ⟨rfl, ?_⟩)
    cases form with
    | param =>
      obtain ⟨row, isRow, integer⟩ := evalRow_integer isInt
      rw [accepts, checkDefaultTypeCompat, isRow] at accepted
      rcases integer with rfl | rfl | rfl
      · exact ⟨isRow, rfl⟩
      · cases accepted
      · cases accepted
    | field | constant => cases accepted

end Accepted

def SignsApart (unit : FloatUnit) : Prop :=
  ∀ d : ScalarPrim, d.category = .float → ∀ v w : Int, -2 ^ 63 ≤ v → v < 0 → 0 ≤ w → w < 2 ^ 64 →
    unit.ofInt d v % d.span ≠ unit.ofInt d w % d.span

section Value
variable (unit : FloatUnit) (stringIdx : Text → Nat) (content : Nat → Option Text) (form : Form) (e : SnExpression)
  (declared : Declared)

def described : DefaultValueDesc := extractDefaultValue unit stringIdx e declared.runtimeTypeKind

def Coerces : Prop :=
  ∀ old fresh, ∃ cell stored, materializeDefaultValue fresh (described unit stringIdx e declared) = some cell ∧
    storeExpression unit declared old fresh e = some stored ∧ SameCell declared cell stored

def ReadsBack : Prop :=
  match form with
  | .field => True
  | .param => ∃ lit, synthScalarDefault content (described unit stringIdx e declared) = some lit ∧
      ∀ old, ∃ here there, emitDefaultBinding unit declared old e = some here ∧
        emitDefaultBinding unit declared old (.literal lit) = some there ∧ SameCell declared here there
  | .constant => ∃ lit, synthScalarDefault content (described unit stringIdx e declared) = some lit ∧
      ∀ old fresh, ∃ cell, emitFoldedConstantRead unit stringIdx declared old fresh e = some cell ∧
        emitFoldedConstantRead unit stringIdx declared old fresh (.literal lit) = some cell

def KeepsValue : Prop := Coerces unit stringIdx e declared ∧ ReadsBack unit stringIdx content form e declared

def KeepsWhen : Prop :=
  match declared with
  | .scalar d => ¬ (d.category = .float ∧ TopULong e) ∧ ¬ (form = .constant ∧ d = .uint32 ∧ 2 ^ 31 ≤ runtimeValue e)
  | .enum => True
  | _ => False

end Value

section Coerces
variable {unit : FloatUnit} {stringIdx : Text → Nat} {e : SnExpression} {d : ScalarPrim}

theorem readSpan_dvd (d : ScalarPrim) : (readSpan d : Int) ∣ 2 ^ 64 := by
  unfold readSpan
  split_ifs
  · exact dvd_refl _
  · exact ⟨2 ^ 32, rfl⟩

theorem bitsOf_lt (numeric : isNumeric d = true) (v : Int) : bitsOf unit d v < readSpan d := by
  have range : 0 < (readSpan d : Int) := by unfold readSpan; split_ifs <;> decide
  unfold bitsOf
  split_ifs with floating
  · cases d with
    | float | double => exact Nat.mod_lt _ (by decide)
    | _ => cases floating
  · have nonneg := Int.emod_nonneg v range.ne'
    have small := Int.emod_lt_of_pos v range
    omega

theorem bitsOf_eq_iff (signs : SignsApart unit) (isInt : IntegerDefault e) :
    bitsOf unit d (foldedValue e) = bitsOf unit d (runtimeValue e) ↔ ¬ (d.category = .float ∧ TopULong e) := by
  rcases runtimeValue_cases isInt with ⟨small, same⟩ | ⟨top, same, low, high⟩
  · rw [same]
    exact iff_of_true rfl fun ⟨_, top⟩ => small top
  · unfold bitsOf
    split_ifs with floating
    · exact iff_of_false (signs d floating _ _ low high (by omega) (by omega)) (fun keep => keep ⟨floating, top⟩)
    · refine iff_of_true ?_ (fun ⟨isFloat, _⟩ => floating isFloat)
      obtain ⟨k, wide⟩ := readSpan_dvd d
      rw [same, wide, Int.add_mul_emod_self_left]

theorem coerces_scalar (signs : SignsApart unit) (isInt : IntegerDefault e) (numeric : isNumeric d = true) :
    Coerces unit stringIdx e (.scalar d) ↔ ¬ (d.category = .float ∧ TopULong e) := by
  rw [← bitsOf_eq_iff signs isInt]
  have described := (@extract_holds unit stringIdx e d isInt numeric).2
  have kept (old : Nat) : ∃ stored, storeExpression unit (.scalar d) old 0 e = some stored ∧
      stored % readSpan d = bitsOf unit d (runtimeValue e) := by
    obtain ⟨row, cell, emitted, _, integer, isValue⟩ := @emit_integer unit e isInt old
    obtain ⟨stored, cast, bits⟩ := @castSlot_integer unit d row integer numeric cell
    refine ⟨stored, ?_, isValue ▸ bits⟩
    rw [storeExpression, emitted]
    exact cast
  constructor
  · intro coerces
    obtain ⟨cell, stored, isCell, isStored, same⟩ := coerces 0 0
    obtain ⟨_, isStored', bits⟩ := kept 0
    cases isStored.symm.trans isStored'
    cases (described 0).symm.trans isCell
    rw [← bits]
    exact (Nat.mod_eq_of_lt (bitsOf_lt numeric _)).symm.trans same
  · intro same old fresh
    obtain ⟨stored, isStored, bits⟩ := kept old
    refine ⟨_, stored, described fresh, isStored, ?_⟩
    exact (Nat.mod_eq_of_lt (bitsOf_lt numeric _)).trans (same.trans bits.symm)

theorem described_handle (isInt : IntegerDefault e) {declared : Declared} (handle : scalarPrimOfRtk declared.runtimeTypeKind = none) :
    ∃ cell, ∀ fresh, materializeDefaultValue fresh (described unit stringIdx e declared) = some cell := by
  have other (source : ScalarPrim) : code source ≠ declared.runtimeTypeKind := by
    intro same
    rw [← same, scalarPrimOfRtk_code] at handle
    cases handle
  have kept {dv : DefaultValueDesc} (source : ScalarPrim) {channel : Channel} (tag : dv.tag = code source)
      (isChannel : channelOf unit dv = some channel) : coerceDefaultToDeclared unit dv declared.runtimeTypeKind = dv := by
    rw [coerce_stamp tag (other source) isChannel, stampDeclared, handle]
  unfold described extractDefaultValue
  rcases @foldDefault_cases unit stringIdx e isInt with ⟨base, _⟩ | ⟨row, wide, base, _⟩
  · rw [base, kept .int32 rfl rfl]
    exact ⟨_, fun fresh => rfl⟩
  · rcases wide with rfl | rfl
    · rw [base, kept .long rfl rfl]
      exact ⟨_, fun fresh => rfl⟩
    · rw [base, kept .ulong rfl rfl]
      exact ⟨_, fun fresh => rfl⟩

theorem not_coerces_handle (isInt : IntegerDefault e) {declared : Declared}
    (handle : declared = .string ∨ declared = .object) : ¬ Coerces unit stringIdx e declared := by
  intro coerces
  have isHandle : scalarPrimOfRtk declared.runtimeTypeKind = none := by
    rcases handle with rfl | rfl <;> decide
  obtain ⟨cell, kept⟩ := @described_handle unit stringIdx e isInt declared isHandle
  have equal (fresh : Nat) : cell % 2 ^ 32 = fresh % 2 ^ 32 := by
    obtain ⟨_, stored, isCell, isStored, same⟩ := coerces 0 fresh
    cases (kept fresh).symm.trans isCell
    obtain ⟨row, _, emitted, _⟩ := @emit_integer unit e isInt 0
    rw [storeExpression, emitted] at isStored
    rcases handle with rfl | rfl
    all_goals
      cases isStored
      exact same
  exact absurd ((equal 0).symm.trans (equal 1)) (by decide)

theorem not_coerces_reference (isInt : IntegerDefault e) : ¬ Coerces unit stringIdx e .reference := by
  intro coerces
  obtain ⟨_, stored, _, isStored, _⟩ := coerces 0 0
  obtain ⟨row, _, emitted, _⟩ := @emit_integer unit e isInt 0
  rw [storeExpression, emitted] at isStored
  cases isStored

theorem not_topULong_of_int32 (isRow : evalRow e = some .int32) : ¬ TopULong e := by
  rintro ⟨lit, same | same, isULong, _⟩
  all_goals
    subst same
    cases isULong.symm.trans (Option.some.inj isRow)

theorem coerces_enum (isInt : IntegerDefault e) (isRow : evalRow e = some .int32) : Coerces unit stringIdx e .enum := by
  intro old fresh
  have described := (@extract_holds unit stringIdx e .int32 isInt rfl).2
  obtain ⟨row, cell, emitted, isRow', integer, isValue⟩ := @emit_integer unit e isInt old
  cases isRow'.symm.trans isRow
  obtain ⟨stored, cast, bits⟩ := @castSlot_integer unit .int32 _ integer rfl cell
  cases cast
  refine ⟨_, cell, described fresh, ?_, ?_⟩
  · rw [storeExpression, emitted]
    rfl
  · have same : bitsOf unit .int32 (foldedValue e) = bitsOf unit .int32 (runtimeValue e) := by
      rcases runtimeValue_cases isInt with ⟨_, same⟩ | ⟨top, _⟩
      · rw [same]
      · exact absurd top (not_topULong_of_int32 isRow)
    rw [isValue] at bits
    exact (Nat.mod_eq_of_lt (bitsOf_lt rfl _)).trans (same.trans bits.symm)

end Coerces

section Rebuilt
variable {unit : FloatUnit} {stringIdx : Text → Nat} {content : Nat → Option Text} {e : SnExpression} {d : ScalarPrim} {v : Int}

theorem bitsOf_fits (numeric : isNumeric d = true) : bitsOf unit d v < (carrier d).span := by
  have small := @bitsOf_lt unit d numeric v
  cases d with
  | bool | char => cases numeric
  | _ => exact small

def rebuilt (unit : FloatUnit) (d : ScalarPrim) (v : Int) (numeric : isNumeric d = true) : ScalarLiteral :=
  ⟨carrier d, bitsOf unit d v, bitsOf_fits numeric⟩

theorem synth_holds {dv : DefaultValueDesc} (numeric : isNumeric d = true) (holds : Holds unit dv d v) :
    synthScalarDefault content dv = some (.scalar (rebuilt unit d v numeric)) := by
  obtain ⟨tag, cell⟩ := holds
  have bits := cell 0
  rw [materializeDefaultValue, tag, scalarPrimOfRtk_code] at bits
  unfold synthScalarDefault rebuilt
  rw [tag, scalarPrimOfRtk_code]
  cases d with
  | bool | char => cases numeric
  | _ => exact congrArg (some ∘ Literal.scalar) (ScalarLiteral.mk.injEq .. ▸ ⟨rfl, Option.some.inj bits⟩)

theorem bitsOf_int32 (word : carrier d = .int32) (numeric : isNumeric d = true) :
    bitsOf unit d (value .int32 (bitsOf unit d v)) = bitsOf unit d v := by
  cases d with
  | bool | char => cases numeric
  | float | long | ulong | double => cases word
  | _ =>
    simp [bitsOf, readSpan, value, wrap, span, category, slotWidth]
    omega

theorem carrier_cases (numeric : isNumeric d = true) : carrier d = .int32 ∨ (carrier d = d ∧ d.span = readSpan d) := by
  cases d with
  | bool | char => cases numeric
  | float | long | ulong | double => exact .inr ⟨rfl, rfl⟩
  | _ => exact .inl rfl

theorem castSlot_rebuilt (numeric : isNumeric d = true) (old : Nat) : ∃ stored,
    castSlot unit (carrier d) d ((carrier d).store old (bitsOf unit d v)) = some stored ∧ stored % readSpan d = bitsOf unit d v := by
  rcases carrier_cases numeric with word | ⟨same, whole⟩
  · rw [word]
    obtain ⟨stored, cast, bits⟩ := @castSlot_integer unit d .int32 (.inl rfl) numeric (store .int32 old (bitsOf unit d v))
    refine ⟨stored, cast, bits.trans ?_⟩
    rw [value_store]
    exact bitsOf_int32 word numeric
  · rw [same]
    refine ⟨_, if_pos rfl, ?_⟩
    have low := store_emod d old (bitsOf unit d v)
    rw [whole] at low
    have low : d.store old (bitsOf unit d v) % readSpan d = bitsOf unit d v % readSpan d := by exact_mod_cast low
    rw [low, Nat.mod_eq_of_lt (bitsOf_lt numeric v)]

def readCell (unit : FloatUnit) (d : ScalarPrim) (old bits : Nat) : Nat :=
  match d with
  | .float => store .float old (unit.convert .double .float (unit.convert .float .double bits))
  | .double => store .double old bits
  | d => if d.slotWidth = 8 then store .long old (value .long bits) else store .int32 old (value .int32 bits)

theorem foldedCell_holds {dv : DefaultValueDesc} (numeric : isNumeric d = true) (holds : Holds unit dv d v) (old fresh : Nat) :
    foldedCell unit (.scalar d) old fresh dv = some (readCell unit d old (bitsOf unit d v)) := by
  obtain ⟨tag, cell⟩ := holds
  have bits := cell 0
  rw [materializeDefaultValue, tag, scalarPrimOfRtk_code] at bits
  have plain : code (carrier d) ≠ Image.Rtk.void ∧ code (carrier d) ≠ rtkNull := by
    cases d <;> decide
  unfold foldedCell foldedFloatingValue foldedSignedValue readCell
  rw [tag, if_neg plain.1, if_neg plain.2, scalarPrimOfRtk_code]
  cases d with
  | bool | char => cases numeric
  | _ =>
    rw [← Option.some.inj bits]
    rfl

theorem rebuilt_holds (numeric : isNumeric d = true) :
    Holds unit (extractDefaultValue unit stringIdx (.literal (.scalar (rebuilt unit d v numeric))) (code d)) d v := by
  rcases carrier_cases numeric with word | ⟨same, whole⟩
  · have isInt : IntegerDefault (.literal (.scalar (rebuilt unit d v numeric))) := .literal (.inl word)
    have holds := @extract_holds unit stringIdx _ d isInt numeric
    have isValue : foldedValue (.literal (.scalar (rebuilt unit d v numeric))) = value .int32 (bitsOf unit d v) := if_pos word
    rw [isValue] at holds
    exact ⟨holds.1, fun fresh => (holds.2 fresh).trans (congrArg some (bitsOf_int32 word numeric))⟩
  · have small : bitsOf unit d v < d.span := whole ▸ bitsOf_lt numeric v
    have tagged : (foldDefault unit stringIdx (.literal (.scalar (rebuilt unit d v numeric)))).tag = code d := by
      cases d with
      | int32 | float | long | ulong | double => rfl
      | _ => cases same
    rw [extractDefaultValue, coerce_same tagged]
    cases d with
    | int32 | float | long | ulong | double => exact ⟨rfl, fun fresh => congrArg some (Nat.mod_eq_of_lt small)⟩
    | _ => cases same

end Rebuilt

section ReadsBack
variable {unit : FloatUnit} {stringIdx : Text → Nat} {content : Nat → Option Text} {e : SnExpression} {d : ScalarPrim}

theorem reads_param (signs : SignsApart unit) (isInt : IntegerDefault e) (numeric : isNumeric d = true)
    (keeps : ¬ (d.category = .float ∧ TopULong e)) : ReadsBack unit stringIdx content .param e (.scalar d) := by
  have holds := @extract_holds unit stringIdx e d isInt numeric
  refine ⟨_, synth_holds numeric holds, fun old => ?_⟩
  obtain ⟨row, cell, emitted, _, integer, isValue⟩ := @emit_integer unit e isInt old
  obtain ⟨here, cast, bits⟩ := @castSlot_integer unit d row integer numeric cell
  obtain ⟨there, cast', bits'⟩ := @castSlot_rebuilt unit d (foldedValue e) numeric old
  refine ⟨here, there, ?_, cast', ?_⟩
  · rw [emitDefaultBinding, emitted]
    exact cast
  · rw [isValue, ← (bitsOf_eq_iff signs isInt).mpr keeps] at bits
    exact bits.trans bits'.symm

theorem reads_enum (signs : SignsApart unit) (isInt : IntegerDefault e) (isRow : evalRow e = some .int32) :
    ReadsBack unit stringIdx content .param e .enum := by
  have holds := @extract_holds unit stringIdx e .int32 isInt rfl
  refine ⟨_, synth_holds rfl holds, fun old => ?_⟩
  obtain ⟨row, cell, emitted, isRow', integer, isValue⟩ := @emit_integer unit e isInt old
  cases isRow'.symm.trans isRow
  obtain ⟨here, cast, bits⟩ := @castSlot_integer unit .int32 _ integer rfl cell
  cases cast
  obtain ⟨there, cast', bits'⟩ := @castSlot_rebuilt unit .int32 (foldedValue e) rfl old
  cases cast'
  refine ⟨cell, _, ?_, rfl, ?_⟩
  · rw [emitDefaultBinding, emitted]
    rfl
  · have same : bitsOf unit .int32 (foldedValue e) = bitsOf unit .int32 (runtimeValue e) :=
      (bitsOf_eq_iff signs isInt).mpr (fun ⟨floating, _⟩ => by cases floating)
    rw [isValue, ← same] at bits
    exact bits.trans bits'.symm

theorem derive_explicit {row : ScalarPrim} (integer : row = .int32 ∨ row = .long ∨ row = .ulong) (numeric : isNumeric d = true)
    (word : carrier d = .int32) (other : d ≠ .int32) : deriveScalarCast row d = .explicit := by
  rcases integer with rfl | rfl | rfl
  all_goals cases d <;> first | rfl | exact absurd rfl other | exact absurd word (by decide) | exact absurd numeric (by decide)

theorem fitsRow_iff {row : ScalarPrim} {v : Int} : fitsRow row d v = true ↔
    if d.category = .uint then 0 ≤ v ∧ v < d.span else row ≠ .ulong ∧ -(d.span / 2 : Int) ≤ v ∧ v < d.span / 2 := by
  unfold fitsRow
  split <;> exact decide_eq_true_iff

theorem fitsRow_bounds {row : ScalarPrim} {v : Int} (word : carrier d = .int32) (numeric : isNumeric d = true)
    (fits : fitsRow row d v = true) : v < 2 ^ 32 ∧ fitsRow .int32 d v = true ∧ (d = .uint32 → 0 ≤ v) ∧
      (d ≠ .uint32 → -2 ^ 31 ≤ v ∧ v < 2 ^ 31) := by
  rw [fitsRow_iff] at fits ⊢
  cases d with
  | bool | char => cases numeric
  | float | long | ulong | double => cases word
  | _ =>
    simp [span, category, slotWidth] at fits ⊢
    omega

theorem accepted_fits (isInt : IntegerDefault e) (accepted : foldsAtCompileTime unit e (.scalar d) = true)
    (word : carrier d = .int32) (numeric : isNumeric d = true) (other : d ≠ .int32) : fitsRow .int32 d (foldedValue e) = true := by
  obtain ⟨row, v, integer, isConst, isKind, isValue⟩ := @constant_integer unit e isInt
  have explicit := derive_explicit integer numeric word other
  rcases (folds_scalar isKind).mp accepted with same | auto | ⟨_, fits⟩
  · rw [explicit] at same
    cases same
  · rw [explicit] at auto
    cases auto
  · rw [constantFits, isConst, Bool.and_eq_true] at fits
    obtain ⟨small, inRow, _⟩ := fitsRow_bounds word numeric fits.2
    rcases isValue with rfl | ⟨_, top⟩
    · exact inRow
    · omega

theorem constantFits_rebuilt {v : Int} (word : carrier d = .int32) (numeric : isNumeric d = true) :
    constantFits unit (.literal (.scalar (rebuilt unit d v numeric))) d = fitsRow .int32 d (wrap .int32 v) := by
  have same : value .int32 (v % 2 ^ 32).toNat = wrap .int32 v := by
    simp [value, wrap, span, category, slotWidth]
    omega
  cases d with
  | bool | char => cases numeric
  | float | long | ulong | double => cases word
  | _ =>
    rw [← same]
    rfl

theorem folds_rebuilt (isInt : IntegerDefault e) (accepted : foldsAtCompileTime unit e (.scalar d) = true) (numeric : isNumeric d = true) :
    foldsAtCompileTime unit (.literal (.scalar (rebuilt unit d (foldedValue e) numeric))) (.scalar d) = true ↔
      ¬ (d = .uint32 ∧ 2 ^ 31 ≤ runtimeValue e) := by
  have isKind : classifyConstantInitializer unit (.literal (.scalar (rebuilt unit d (foldedValue e) numeric))) = .scalar (carrier d) := by
    cases d with
    | bool | char => cases numeric
    | _ => rfl
  rw [folds_scalar isKind]
  rcases carrier_cases numeric with word | ⟨same, _⟩
  · by_cases other : d = .int32
    · subst other
      exact iff_of_true (.inl rfl) (fun both => by cases both.1)
    · have explicit := derive_explicit (.inl rfl) numeric word other
      have isFit := accepted_fits isInt accepted word numeric other
      obtain ⟨small, _, unsigned, signed⟩ := fitsRow_bounds word numeric isFit
      have onlyFits : Converts unit (.literal (.scalar (rebuilt unit d (foldedValue e) numeric))) (carrier d) d ↔
          fitsRow .int32 d (wrap .int32 (foldedValue e)) = true := by
        rw [Converts, word, explicit, constantFits_rebuilt word numeric]
        simp
      rw [onlyFits]
      by_cases isUInt : d = .uint32
      · subst isUInt
        have notTop : runtimeValue e = foldedValue e := by
          rcases runtimeValue_cases isInt with ⟨_, same⟩ | ⟨_, _, _, negative⟩
          · exact same
          · exact absurd (unsigned rfl) (by omega)
        have isUnsigned : category .uint32 = .uint := rfl
        rw [notTop, fitsRow_iff, if_pos isUnsigned]
        simp [wrap, span, category, slotWidth]
        have := unsigned rfl
        omega
      · rw [wrap_int32 (signed isUInt).1 (signed isUInt).2]
        exact iff_of_true isFit (fun both => isUInt both.1)
  · have notUInt : d ≠ .uint32 := by
      rintro rfl
      cases same
    rw [same]
    exact iff_of_true (.inl (if_pos rfl)) (fun both => notUInt both.1)

theorem reads_constant (isInt : IntegerDefault e) (accepted : foldsAtCompileTime unit e (.scalar d) = true) (numeric : isNumeric d = true) :
    ReadsBack unit stringIdx content .constant e (.scalar d) ↔ ¬ (d = .uint32 ∧ 2 ^ 31 ≤ runtimeValue e) := by
  rw [← folds_rebuilt isInt accepted numeric]
  have holds := @extract_holds unit stringIdx e d isInt numeric
  have holds' := @rebuilt_holds unit stringIdx d (foldedValue e) numeric
  constructor
  · rintro ⟨lit, synth, reads⟩
    obtain ⟨cell, _, read⟩ := reads 0 0
    cases (synth_holds numeric holds).symm.trans synth
    by_contra fails
    rw [emitFoldedConstantRead, if_neg fails] at read
    cases read
  · intro folds
    refine ⟨_, synth_holds numeric holds, fun old fresh => ⟨readCell unit d old (bitsOf unit d (foldedValue e)), ?_, ?_⟩⟩
    · rw [emitFoldedConstantRead, if_pos accepted]
      exact foldedCell_holds numeric holds old fresh
    · rw [emitFoldedConstantRead, if_pos folds]
      exact foldedCell_holds numeric holds' old fresh

end ReadsBack

def roundHalfEven (n shift : Nat) : Nat :=
  let quotient := n / 2 ^ shift
  let rest := n % 2 ^ shift
  if 2 ^ shift < 2 * rest ∨ (2 * rest = 2 ^ shift ∧ quotient % 2 = 1) then quotient + 1 else quotient

def magnitudeBits (fraction bias n : Nat) : Nat :=
  if n = 0 then 0
  else
    let exponent := n.log2
    let significand := if exponent ≤ fraction then n * 2 ^ (fraction - exponent) else roundHalfEven n (exponent - fraction)
    (exponent + bias) * 2 ^ fraction + (significand - 2 ^ fraction)

def roundInt (d : ScalarPrim) (v : Int) : Nat :=
  (if v < 0 then d.span / 2 else 0) + (if d = .float then magnitudeBits 23 127 v.natAbs else magnitudeBits 52 1023 v.natAbs)

def roundingUnit : FloatUnit := { NarrowCells.noFloats with ofInt := roundInt }

theorem roundHalfEven_le {n shift size : Nat} (small : n < 2 ^ shift * size) : roundHalfEven n shift ≤ size := by
  have quotient : n / 2 ^ shift < size := Nat.div_lt_of_lt_mul small
  unfold roundHalfEven
  dsimp only
  split <;> omega

theorem magnitudeBits_le {n : Nat} (small : n < 2 ^ 64) (fraction bias : Nat) :
    magnitudeBits fraction bias n ≤ (64 + bias) * 2 ^ fraction := by
  unfold magnitudeBits
  split
  · exact Nat.zero_le _
  · rename_i nonzero
    have exponent : n.log2 < 64 := (Nat.log2_lt nonzero).mpr small
    have below : n < 2 ^ (n.log2 + 1) := Nat.lt_log2_self
    have significand : (if n.log2 ≤ fraction then n * 2 ^ (fraction - n.log2) else roundHalfEven n (n.log2 - fraction)) ≤
        2 ^ (fraction + 1) := by
      split
      · rename_i exact_
        have whole : 2 ^ (n.log2 + 1) * 2 ^ (fraction - n.log2) = 2 ^ (fraction + 1) := by
          rw [← Nat.pow_add]
          congr 1
          omega
        exact (Nat.mul_le_mul_right _ below.le).trans whole.le
      · refine roundHalfEven_le ?_
        rw [← Nat.pow_add]
        exact below.trans_le (Nat.pow_le_pow_right (by decide) (by omega))
    have bound : (n.log2 + bias) * 2 ^ fraction ≤ (63 + bias) * 2 ^ fraction := Nat.mul_le_mul_right _ (by omega)
    have carry : 2 ^ (fraction + 1) = 2 * 2 ^ fraction := Nat.pow_succ'
    have total : (64 + bias) * 2 ^ fraction = (63 + bias) * 2 ^ fraction + 2 ^ fraction := by ring
    dsimp only
    omega

theorem roundingUnit_signs : SignsApart roundingUnit := by
  intro d floating v w low negative nonneg high
  have apart (sign magnitude magnitude' : Nat) (one : magnitude < sign) (two : magnitude' < sign) :
      (sign + magnitude) % (2 * sign) ≠ (0 + magnitude') % (2 * sign) := by
    rw [Nat.mod_eq_of_lt (by omega), Nat.mod_eq_of_lt (by omega)]
    omega
  have sizes : v.natAbs < 2 ^ 64 ∧ w.natAbs < 2 ^ 64 := by omega
  have plain : ¬ w < 0 := by omega
  change roundInt d v % _ ≠ roundInt d w % _
  unfold roundInt
  rw [if_pos negative, if_neg plain]
  cases d with
  | float =>
    have whole : span .float = 2 * 2 ^ 31 := by decide
    have bound {n : Nat} (small : n < 2 ^ 64) := (magnitudeBits_le small 23 127).trans_lt (by decide : (64 + 127) * 2 ^ 23 < 2 ^ 31)
    rw [whole, Nat.mul_div_cancel_left _ (by decide), if_pos rfl, if_pos rfl]
    exact apart _ _ _ (bound sizes.1) (bound sizes.2)
  | double =>
    have whole : span .double = 2 * 2 ^ 63 := by decide
    have bound {n : Nat} (small : n < 2 ^ 64) := (magnitudeBits_le small 52 1023).trans_lt (by decide : (64 + 1023) * 2 ^ 52 < 2 ^ 63)
    rw [whole, Nat.mul_div_cancel_left _ (by decide), if_neg (by decide), if_neg (by decide)]
    exact apart _ _ _ (bound sizes.1) (bound sizes.2)
  | _ => cases floating

/-- A folded integer default keeps its value exactly when it is declared as a number or an enum, no `ulong` of at least
2^63 goes into a floating type and no `uint` constant is at least 2^31. -/
theorem keepsValue_iff (unit : FloatUnit) (signs : SignsApart unit) (stringIdx : Text → Nat) (content : Nat → Option Text)
    (form : Form) (e : SnExpression) (declared : Declared) (isInt : IntegerDefault e) (accepted : accepts unit form e declared = true) :
    KeepsValue unit stringIdx content form e declared ↔ KeepsWhen form e declared := by
  rcases accepted_cases isInt accepted with ⟨d, rfl, numeric⟩ | ⟨rfl, isRow, rfl⟩ | rfl | rfl | rfl
  · have reads (keeps : ¬ (d.category = .float ∧ TopULong e)) : ReadsBack unit stringIdx content form e (.scalar d) ↔
        ¬ (form = .constant ∧ d = .uint32 ∧ 2 ^ 31 ≤ runtimeValue e) := by
      cases form with
      | param => exact iff_of_true (reads_param signs isInt numeric keeps) (fun ⟨isConstant, _⟩ => by cases isConstant)
      | field => exact iff_of_true trivial (fun ⟨isConstant, _⟩ => by cases isConstant)
      | constant => simpa using reads_constant isInt accepted numeric
    rw [KeepsValue, coerces_scalar signs isInt numeric]
    exact and_congr_right reads
  · exact iff_of_true ⟨coerces_enum isInt isRow, reads_enum signs isInt isRow⟩ trivial
  · exact iff_of_false (fun keeps => not_coerces_handle isInt (.inl rfl) keeps.1) (fun none => none)
  · exact iff_of_false (fun keeps => not_coerces_handle isInt (.inr rfl) keeps.1) (fun none => none)
  · exact iff_of_false (fun keeps => not_coerces_reference isInt keeps.1) (fun none => none)

def five : SnExpression := .literal (.scalar ⟨.int32, 5, by decide⟩)

theorem five_keepsValue : KeepsValue roundingUnit (fun _ => 0) (fun _ => none) .constant five (.scalar .double) := by
  have isSmall : ¬ TopULong five := (not_topULong (.inl (by decide))).1
  exact (keepsValue_iff roundingUnit roundingUnit_signs (fun _ => 0) (fun _ => none) .constant five (.scalar .double)
    (.literal (.inl rfl)) rfl).mpr ⟨fun top => isSmall top.2, fun isUInt => by cases isUInt.2.1⟩

def topULong : SnExpression := .literal (.scalar ⟨.ulong, 2 ^ 63, by decide⟩)

def topUInt : SnExpression := .literal (.scalar ⟨.long, 3000000000, by decide⟩)

theorem top_values_change :
    (accepts roundingUnit .param topULong (.scalar .double) = true ∧
      ¬ KeepsValue roundingUnit (fun _ => 0) (fun _ => none) .param topULong (.scalar .double)) ∧
    accepts roundingUnit .constant topUInt (.scalar .uint32) = true ∧
      ¬ KeepsValue roundingUnit (fun _ => 0) (fun _ => none) .constant topUInt (.scalar .uint32) := by
  refine ⟨⟨rfl, fun keeps => ?_⟩, rfl, fun keeps => ?_⟩
  · have isInt : IntegerDefault topULong := .literal (.inr (.inr rfl))
    exact (coerces_scalar roundingUnit_signs isInt rfl).mp keeps.1 ⟨rfl, _, .inl rfl, rfl, Nat.le_refl _⟩
  · have isInt : IntegerDefault topUInt := .literal (.inr (.inl rfl))
    exact (reads_constant isInt rfl rfl).mp keeps.2 ⟨rfl, by decide⟩

end NLang.Backend.Folded
