import NLang.Compiler.OverloadMatch
import NLang.Compiler.TypeDistances

/-!
# The choice of an overload

How arguments are bound to formals (`ExprResolverDelegate.cpp`), the distance of a candidate
(`ExprResolverBinding.cpp`), and the gates that the conversions of the chosen one meet (`ExprResolverCast.cpp`).
-/

namespace NLang.Compiler.Overloads
open NLang.Vm NLang.Image NLang.Backend.Folded ImplicitConversions

def ownType : SnExpression → Option SnField
  | .literal lit | .neg lit =>
    match lit with
    | .null => some (.scalar .int32)
    | .string _ => some .string
    | .scalar lit => some (.scalar lit.row)
  | .other => none

/-- An argument with a type; a call of a `void` function has none. Constants are of their own type. `null as T` is null
as well. -/
structure TypedExpr where
  type : Option SnField
  isNull : Bool := false
  expr : SnExpression := .other
  own : ownType expr ≠ none → type = ownType expr := by decide

structure FuncType where
  returnType : SnField
  params : List (SnField × Bool)

/-- A function that is named and not called. `returnType` is `none` for a function without one, and `some none` where it
is not resolved. -/
structure FuncRef where
  returnType : Option (Option SnField)
  params : List (Option SnField × Bool)

def funcRefMatchesDecl (ref : FuncRef) (decl : FuncType) : Bool :=
  (match ref.returnType with
    | none => decl.returnType = .void
    | some field => field = some decl.returnType) &&
  ref.params = decl.params.map fun param => (some param.1, param.2)

inductive Argument where
  | funcRef (ref : FuncRef)
  | braces
  | typed (e : TypedExpr)

inductive Actual where
  | positional (arg : Argument)
  | named (name : Text) (arg : Argument)
  | out (isResolved : Bool) (arg : Argument)

structure SnFormalParam where
  name : Text
  type : Option SnField
  isOut : Bool := false
  hasDefault : Bool := false

structure SnFunction where
  id : Nat
  params : List SnFormalParam

structure FormalBinding where
  formal : SnFormalParam
  caller : Option (Argument × Bool) := none

structure BindState where
  bindings : List FormalBinding
  nextFormal : Nat := 0
  seenNamed : Bool := false

def BindState.bind (st : BindState) (idx : Nat) (arg : Argument) (isOut : Bool) : Option BindState :=
  match st.bindings[idx]? with
  | some { formal, caller := none } =>
    some { st with bindings := st.bindings.set idx { formal, caller := some (arg, isOut) } }
  | _ => none

def bindPositionalActual (st : BindState) (arg : Argument) (isOut : Bool) : Option BindState :=
  match st.bindings[st.nextFormal]? with
  | none => none
  | some b =>
    if b.formal.isOut = isOut then { st with nextFormal := st.nextFormal + 1 }.bind st.nextFormal arg isOut else none

def bindNamedActual (st : BindState) (name : Text) (arg : Argument) : Option BindState :=
  match st.bindings.findIdx? (·.formal.name = name) with
  | none => none
  | some idx => st.bind idx arg false

def bindActual (st : BindState) : Actual → Option BindState
  | .positional arg => if st.seenNamed then none else bindPositionalActual st arg false
  | .out isResolved arg => if isResolved then bindPositionalActual st arg true else none
  | .named name arg => bindNamedActual { st with seenNamed := true } name arg

def satisfyUnboundFormals (bindings : List FormalBinding) : Bool :=
  bindings.all fun b => b.caller.isSome || b.formal.hasDefault

def tryBindArgs (actuals : List Actual) (callee : SnFunction) : Option (List FormalBinding) :=
  match actuals.foldlM bindActual { bindings := callee.params.map fun formal => { formal } } with
  | some st => if satisfyUnboundFormals st.bindings then some st.bindings else none
  | none => none

inductive NullVerdict where
  | adjudicate | accept | reject

def nullBindingVerdict (e : TypedExpr) (formal : SnField) : NullVerdict :=
  if e.isNull = false then .adjudicate
  else if formal.isToken then .accept
  else if formal = .string then .reject
  else .adjudicate

def isInitListTargetShape : SnField → Bool
  | .arrayToken _ _ | .structDecl _ | .arrayInst _ => true
  | .classDecl decl _ => decl.isContainer || !decl.isBuiltinClass
  | _ => false

def fittedConstantRung (source target : SnField) : Option Nat :=
  match source.intOfEnum, target.intOfEnum with
  | .scalar s, .scalar t => some (scalarRung s t)
  | _, _ => none

section Distance
variable (unit : FloatUnit) (funcTypes : Nat → FuncType)

def bindingConstantFits (e : TypedExpr) (source target : SnField) : Bool :=
  calcCastKind source target = .explicit &&
    match target with
    | .scalar row => tryConstantFit unit e.expr row = .fits
    | _ => false

def typedBindingDistance (e : TypedExpr) (source target : SnField) : Option Nat :=
  match calcTypeDistance source target with
  | some n => some n
  | none => if bindingConstantFits unit e source target then fittedConstantRung source target else none

def bindingDistance (b : FormalBinding) : Option Nat :=
  match b.caller, b.formal.type with
  | none, _ => some 0
  | some (.funcRef ref, _), some (.funcDecl id) => if funcRefMatchesDecl ref (funcTypes id) then some 0 else none
  | some (.braces, _), some target => if isInitListTargetShape target then some 0 else none
  | some (.typed e, isOut), some target =>
    match e.type with
    | none => none
    | some source =>
      match nullBindingVerdict e target with
      | .accept => some 0
      | .reject => none
      | .adjudicate =>
        match typedBindingDistance unit e source target with
        | none => none
        | some n => if isOut = true ∧ n ≠ 0 then none else some n
  | _, _ => none

def computeBindingDistance : List FormalBinding → Option Nat
  | [] => some 0
  | b :: bindings =>
    match bindingDistance unit funcTypes b, computeBindingDistance bindings with
    | some n, some rest => some (n + rest)
    | _, _ => none

def candidateDistance (actuals : List Actual) (candidate : SnFunction) : Option Nat :=
  (tryBindArgs actuals candidate).bind (computeBindingDistance unit funcTypes)

def fixupExprType (e : TypedExpr) (source target : SnField) : Fixup :=
  match calcCastKind source target with
  | .same => .same
  | .auto =>
    if (target.isClass || target.isInterface || target.isToken) && !e.isNull then .incompatible
    else if e.isNull && target = .string then .same
    else .cast
  | .box => if e.isNull then .same else .cast
  | .explicit =>
    match target with
    | .scalar row =>
      match tryConstantFit unit e.expr row with
      | .fits => .cast
      | .outOfRange => .outOfRange
      | .notApplicable => .incompatible
    | _ => .incompatible
  | .none | .unbox | .downcast => .incompatible

end Distance

def Typed (b : FormalBinding) (e : TypedExpr) (isOut : Bool) (source target : SnField) : Prop :=
  b.caller = some (.typed e, isOut) ∧ e.type = some source ∧ b.formal.type = some target

def ExactBinding (funcTypes : Nat → FuncType) (b : FormalBinding) : Prop :=
  b.caller = none ∨ (∃ e isOut source, Typed b e isOut source source) ∨
    (∃ ref isOut id, b.caller = some (.funcRef ref, isOut) ∧ b.formal.type = some (.funcDecl id) ∧
      funcRefMatchesDecl ref (funcTypes id) = true) ∨
    ∃ isOut target, b.caller = some (.braces, isOut) ∧ b.formal.type = some target ∧ isInitListTargetShape target = true

def Converts (b : FormalBinding) : Prop := ∃ e isOut source target, Typed b e isOut source target ∧ source ≠ target

def sameRankFits : List (ScalarPrim × ScalarPrim) := [(.int32, .uint32), (.long, .ulong), (.ulong, .long)]

/-- The conversions without a distance: null to an array, between `int` and enums, between the spellings of an array
type, and from a constant to the other type of its rank. -/
def FreeConversion (e : TypedExpr) (source target : SnField) : Prop :=
  (e.isNull = true ∧ target.isToken = true) ∨
    (source.intOfEnum = .scalar .int32 ∧ target.intOfEnum = .scalar .int32) ∨
    sameArrayType source target = true ∨ ∃ fit ∈ sameRankFits, source = .scalar fit.1 ∧ target = .scalar fit.2

def Pays (b : FormalBinding) : Prop :=
  ∃ e isOut source target, Typed b e isOut source target ∧ source ≠ target ∧ ¬ FreeConversion e source target

def NullString (b : FormalBinding) : Prop :=
  ∃ e isOut source, Typed b e isOut source .string ∧ e.isNull = true

/-- An array type in another spelling below the top, or a null that was cast to a type other than `int` and flows to an
array. -/
def Misfit (b : FormalBinding) : Prop :=
  ∃ e source target, Typed b e false source target ∧ (Respelled source target ∨
    e.isNull = true ∧ target.isToken = true ∧ source ≠ .scalar .int32 ∧ source ≠ target ∧
      sameArrayType source target = false)

def Accepted (unit : FloatUnit) (b : FormalBinding) : Prop :=
  ∀ e source target, Typed b e false source target →
    fixupExprType unit e source target = .same ∨ fixupExprType unit e source target = .cast

section Fits
variable {unit : FloatUnit} {e : TypedExpr} {expr : SnExpression} {source target : SnField} {row : ScalarPrim} {n : Nat}

theorem tryGetConstantLiteral_type {constant : ConstLiteralValue}
    (isConst : tryGetConstantLiteral unit expr = some constant) :
    ∃ p, ownType expr = some (.scalar p) ∧
      match constant with
      | .int _ _ => p ∈ [ScalarPrim.int32, .long, .ulong]
      | .floating p' _ => p' = p := by
  have literal (lit : Literal) (constant : ConstLiteralValue) (found : tryGetLiteral lit = some constant) :
      ∃ p, ownType (.literal lit) = some (.scalar p) ∧
        match constant with
        | .int p' _ => p' = p ∧ p ∈ [ScalarPrim.int32, .long, .ulong]
        | .floating p' _ => p' = p := by
    cases lit with
    | null =>
      cases found
      exact ⟨.int32, rfl, rfl, by decide⟩
    | string content => cases found
    | scalar lit =>
      refine ⟨lit.row, rfl, ?_⟩
      rw [tryGetLiteral] at found
      cases isRow : lit.row <;> rw [isRow] at found <;> cases found <;> first | rfl | exact ⟨rfl, by decide⟩
  cases expr with
  | literal lit =>
    obtain ⟨p, isType, known⟩ := literal lit constant isConst
    refine ⟨p, isType, ?_⟩
    cases constant with
    | int p' v => exact known.2
    | floating p' bits => exact known
  | neg lit =>
    rw [tryGetConstantLiteral] at isConst
    cases found : tryGetLiteral lit with
    | none =>
      rw [found] at isConst
      cases isConst
    | some inner =>
      obtain ⟨p, isType, known⟩ := literal lit inner found
      refine ⟨p, isType, ?_⟩
      rw [found] at isConst
      cases inner with
      | int p' v =>
        obtain ⟨rfl, member⟩ := known
        have isInt : ∃ p v, constant = .int p v := by
          rcases List.mem_cons.mp member with rfl | member
          · exact ⟨_, _, (Option.some.inj isConst).symm⟩
          rcases List.mem_cons.mp member with rfl | member
          · exact ⟨_, _, (Option.some.inj isConst).symm⟩
          cases List.mem_singleton.mp member
          dsimp only at isConst
          split at isConst
          · exact ⟨_, _, (Option.some.inj isConst).symm⟩
          · cases isConst
        obtain ⟨_, _, rfl⟩ := isInt
        exact member
      | floating p' bits =>
        cases isConst
        exact known
  | other => cases isConst

theorem tryConstantFit_fits (fits : tryConstantFit unit expr row = .fits) :
    ∃ p, ownType expr = some (.scalar p) ∧
      (p ∈ [ScalarPrim.int32, .long, .ulong] ∧ row.isInteger = true ∨ p = .double ∧ row = .float) := by
  rw [tryConstantFit] at fits
  split at fits
  · rename_i isConst
    obtain ⟨p, isType, member⟩ := tryGetConstantLiteral_type isConst
    split at fits
    · rename_i isInt
      exact ⟨p, isType, .inl ⟨member, isInt⟩⟩
    · cases fits
  · rename_i isConst
    obtain ⟨p, isType, same⟩ := tryGetConstantLiteral_type isConst
    split at fits
    · rename_i isFloat
      exact ⟨p, isType, .inr ⟨same.symm, isFloat⟩⟩
    · cases fits
  · cases fits

theorem sameRank_iff : ∀ p ∈ [ScalarPrim.int32, .long, .ulong], ∀ row ∈ kScalarPrims, row.isInteger = true →
    deriveScalarCast p row = .explicit → (scalarRung p row = 0 ↔ (p, row) ∈ sameRankFits) := by decide

theorem sameRankFits_explicit : ∀ fit ∈ sameRankFits,
    calcTypeDistance (.scalar fit.1) (.scalar fit.2) = none := by decide

theorem bindingConstantFits_scalar (fits : bindingConstantFits unit e source target = true)
    (isType : e.type = some source) : ∃ p row, source = .scalar p ∧ target = .scalar row ∧
      deriveScalarCast p row = .explicit ∧ tryConstantFit unit e.expr row = .fits ∧
      (p ∈ [ScalarPrim.int32, .long, .ulong] ∧ row.isInteger = true ∨ p = .double ∧ row = .float) := by
  unfold bindingConstantFits at fits
  rw [Bool.and_eq_true, decide_eq_true_iff] at fits
  obtain ⟨isExplicit, fits⟩ := fits
  cases target with
  | scalar row =>
    have fits' := of_decide_eq_true fits
    obtain ⟨p, known, row⟩ := tryConstantFit_fits fits'
    have own := e.own (by rw [known]; exact Option.some_ne_none _)
    cases isType.symm.trans (own.trans known)
    refine ⟨p, _, rfl, rfl, ?_, fits', row⟩
    change ofCastKind _ = _ at isExplicit
    generalize deriveScalarCast p _ = kind at isExplicit ⊢
    cases kind <;> first | rfl | cases isExplicit
  | _ => cases fits

theorem typedBindingDistance_some (found : typedBindingDistance unit e source target = some n) :
    calcTypeDistance source target = some n ∨ (calcTypeDistance source target = none ∧
      bindingConstantFits unit e source target = true ∧ fittedConstantRung source target = some n) := by
  unfold typedBindingDistance at found
  cases near : calcTypeDistance source target with
  | some m =>
    rw [near] at found
    exact .inl found
  | none =>
    rw [near] at found
    dsimp only at found
    split at found
    · rename_i fits
      exact .inr ⟨rfl, fits, found⟩
    · cases found

theorem typed_zero_iff (found : typedBindingDistance unit e source target = some n) (isType : e.type = some source)
    (differ : source ≠ target) (noBridge : ¬ (e.isNull = true ∧ target.isToken = true)) :
    n = 0 ↔ FreeConversion e source target := by
  have known (free : FreeConversion e source target) : calcTypeDistance source target = some 0 ∨
      ∃ fit ∈ sameRankFits, source = .scalar fit.1 ∧ target = .scalar fit.2 := by
    rcases free with bridge | ⟨isInt, isInt'⟩ | same | fit
    · exact absurd bridge noBridge
    · exact .inl (calcTypeDistance_int isInt isInt')
    · exact .inl (calcTypeDistance_sameArray same)
    · exact .inr fit
  rcases typedBindingDistance_some found with near | ⟨apart, fits, rung⟩
  · constructor
    · rintro rfl
      rcases calcTypeDistance_some near with ⟨equal, -⟩ | ⟨-, same, -⟩ | ⟨-, isInt, isInt', -⟩ | ⟨-, far⟩ | ⟨-, -, far⟩
      · exact absurd equal differ
      · exact .inr (.inr (.inl same))
      · exact .inr (.inl ⟨isInt, isInt'⟩)
      · exact absurd rfl far
      · exact absurd rfl far
    · intro free
      rcases known free with zero | ⟨fit, member, rfl, rfl⟩
      · exact Option.some.inj (near.symm.trans zero)
      · cases (sameRankFits_explicit fit member).symm.trans near
  · obtain ⟨p, row, rfl, rfl, isExplicit, -, rows⟩ := bindingConstantFits_scalar fits isType
    cases rung
    constructor
    · intro zero
      rcases rows with ⟨member, isInt⟩ | ⟨rfl, rfl⟩
      · have fit := (sameRank_iff p member row (mem_kScalarPrims row) isInt isExplicit).mp zero
        exact .inr (.inr (.inr ⟨(p, row), fit, rfl, rfl⟩))
      · exact absurd zero (by decide)
    · intro free
      rcases known free with zero | ⟨⟨p', row'⟩, member, same, same'⟩
      · cases apart.symm.trans zero
      · cases same
        cases same'
        rcases rows with ⟨member', isInt⟩ | ⟨rfl, rfl⟩
        · exact (sameRank_iff p' member' row' (mem_kScalarPrims row') isInt isExplicit).mpr member
        · exact absurd member (by decide)

end Fits

section Bindings
variable {unit : FloatUnit} {funcTypes : Nat → FuncType} {b : FormalBinding} {bindings : List FormalBinding}
  {e : TypedExpr} {isOut : Bool} {source target : SnField} {n : Nat}

theorem bindingDistance_typed (typed : Typed b e isOut source target) : bindingDistance unit funcTypes b =
    match nullBindingVerdict e target with
    | .accept => some 0
    | .reject => none
    | .adjudicate =>
      match typedBindingDistance unit e source target with
      | none => none
      | some n => if isOut = true ∧ n ≠ 0 then none else some n := by
  obtain ⟨bound, isType, isFormal⟩ := typed
  unfold bindingDistance
  rw [bound, isFormal]
  dsimp only
  rw [isType]

theorem nullBindingVerdict_cases (e : TypedExpr) (target : SnField) :
    (nullBindingVerdict e target = .accept ∧ e.isNull = true ∧ target.isToken = true) ∨
      (nullBindingVerdict e target = .reject ∧ e.isNull = true ∧ target = .string) ∨
      (nullBindingVerdict e target = .adjudicate ∧ ¬ (e.isNull = true ∧ target.isToken = true) ∧
        ¬ (e.isNull = true ∧ target = .string)) := by
  unfold nullBindingVerdict
  by_cases notNull : e.isNull = false
  · have never (p : Prop) : ¬ (e.isNull = true ∧ p) := fun both => absurd (notNull.symm.trans both.1) Bool.false_ne_true
    exact .inr (.inr ⟨if_pos notNull, never _, never _⟩)
  · have isNull := (Bool.not_eq_false _).mp notNull
    rw [if_neg notNull]
    by_cases isToken : target.isToken = true
    · exact .inl ⟨if_pos isToken, isNull, isToken⟩
    · rw [if_neg isToken]
      by_cases isText : target = .string
      · exact .inr (.inl ⟨if_pos isText, isNull, isText⟩)
      · exact .inr (.inr ⟨if_neg isText, fun both => isToken both.2, fun both => isText both.2⟩)

theorem bindingDistance_some (typed : Typed b e isOut source target)
    (found : bindingDistance unit funcTypes b = some n) :
    (e.isNull = true ∧ target.isToken = true ∧ n = 0) ∨
      (¬ (e.isNull = true ∧ target.isToken = true) ∧ ¬ (e.isNull = true ∧ target = .string) ∧
        typedBindingDistance unit e source target = some n) := by
  rw [bindingDistance_typed typed] at found
  rcases nullBindingVerdict_cases e target with
    ⟨verdict, isNull, isToken⟩ | ⟨verdict, -⟩ | ⟨verdict, noBridge, noText⟩ <;> rw [verdict] at found
  · cases found
    exact .inl ⟨isNull, isToken, rfl⟩
  · cases found
  · refine .inr ⟨noBridge, noText, ?_⟩
    cases near : typedBindingDistance unit e source target with
    | none =>
      rw [near] at found
      cases found
    | some m =>
      rw [near] at found
      dsimp only at found
      split at found
      · cases found
      · exact found

theorem bindingDistance_exact (exact : ExactBinding funcTypes b) (noText : ¬ NullString b) :
    bindingDistance unit funcTypes b = some 0 := by
  rcases exact with unbound | ⟨e, isOut, source, typed⟩ | ⟨ref, isOut, id, bound, isFormal, isMatch⟩ |
      ⟨isOut, target, bound, isFormal, shape⟩
  · unfold bindingDistance
    rw [unbound]
  · have near : typedBindingDistance unit e source source = some 0 := by
      rw [typedBindingDistance, calcTypeDistance, if_pos rfl]
    rw [bindingDistance_typed typed]
    rcases nullBindingVerdict_cases e source with
      ⟨verdict, -⟩ | ⟨verdict, isNull, isText⟩ | ⟨verdict, -⟩ <;> rw [verdict]
    · subst isText
      exact absurd ⟨e, isOut, _, typed, isNull⟩ noText
    · rw [near]
      exact if_neg fun far => far.2 rfl
  · unfold bindingDistance
    rw [bound, isFormal]
    exact if_pos isMatch
  · unfold bindingDistance
    rw [bound, isFormal]
    exact if_pos shape

theorem bindingDistance_nullString (isText : NullString b) : bindingDistance unit funcTypes b = none := by
  obtain ⟨e, isOut, source, typed, isNull⟩ := isText
  rw [bindingDistance_typed typed]
  rcases nullBindingVerdict_cases e .string with ⟨-, -, isToken⟩ | ⟨verdict, -⟩ | ⟨-, -, noText⟩
  · cases isToken
  · rw [verdict]
  · exact absurd ⟨isNull, rfl⟩ noText

theorem bindingDistance_zero_iff (found : bindingDistance unit funcTypes b = some n) : n = 0 ↔ ¬ Pays b := by
  by_cases typed : ∃ e isOut source target, Typed b e isOut source target ∧ source ≠ target
  · obtain ⟨e, isOut, source, target, typed, differ⟩ := typed
    have pays_iff : Pays b ↔ ¬ FreeConversion e source target := by
      constructor
      · rintro ⟨e', isOut', source', target', ⟨bound, isType, isFormal⟩, -, paid⟩
        cases typed.1.symm.trans bound
        cases typed.2.1.symm.trans isType
        cases typed.2.2.symm.trans isFormal
        exact paid
      · exact fun paid => ⟨e, isOut, source, target, typed, differ, paid⟩
    rw [pays_iff, not_not]
    rcases bindingDistance_some typed found with ⟨isNull, isToken, rfl⟩ | ⟨noBridge, -, near⟩
    · exact iff_of_true rfl (.inl ⟨isNull, isToken⟩)
    · exact typed_zero_iff near typed.2.1 differ noBridge
  · have free : ¬ Pays b := fun ⟨e, isOut, source, target, isTyped, differ, _⟩ =>
      typed ⟨e, isOut, source, target, isTyped, differ⟩
    refine iff_of_true ?_ free
    have whole := found
    unfold bindingDistance at found
    split at found
    · cases found
      rfl
    · split at found <;> cases found
      rfl
    · split at found <;> cases found
      rfl
    · rename_i e isOut target bound isFormal
      split at found
      · cases found
      · rename_i source isType
        have same : source = target := by
          by_contra differ
          exact typed ⟨e, isOut, source, target, ⟨bound, isType, isFormal⟩, differ⟩
        subst same
        rcases bindingDistance_some ⟨bound, isType, isFormal⟩ whole with ⟨-, -, zero⟩ | ⟨-, -, near⟩
        · exact zero
        · rw [typedBindingDistance, calcTypeDistance, if_pos rfl] at near
          cases near
          rfl
    · cases found

theorem fixupExprType_same (kind : calcCastKind source target = .same) :
    fixupExprType unit e source target = .same := by
  unfold fixupExprType
  rw [kind]

theorem fixupExprType_plain (kind : calcCastKind source target = .auto) (plain : Plain target) :
    fixupExprType unit e source target = .same ∨ fixupExprType unit e source target = .cast := by
  obtain ⟨noClass, noInterface, noToken⟩ := plain
  unfold fixupExprType
  rw [kind, noClass, noInterface, noToken]
  cases (e.isNull && decide (target = .string))
  · exact .inr rfl
  · exact .inl rfl

theorem fixupExprType_null (isNull : e.isNull = true) (isToken : target.isToken = true) :
    fixupExprType unit e (.scalar .int32) target = .cast := by
  cases target with
  | arrayToken elem rank =>
    unfold fixupExprType
    have kind : calcCastKind (.scalar .int32) (.arrayToken elem rank) = .auto := rfl
    rw [kind, isNull]
    rfl
  | _ => cases isToken

theorem fixupExprType_fits (fits : bindingConstantFits unit e source target = true) (isType : e.type = some source) :
    fixupExprType unit e source target = .cast := by
  obtain ⟨p, row, rfl, rfl, isExplicit, fits, -⟩ := bindingConstantFits_scalar fits isType
  have kind : calcCastKind (.scalar p) (.scalar row) = .explicit := congrArg ofCastKind isExplicit
  unfold fixupExprType
  rw [kind]
  dsimp only
  rw [fits]

theorem calcCastKind_token (isToken : target.isToken = true) (notInt : source ≠ .scalar .int32)
    (differ : source ≠ target) (apart : sameArrayType source target = false) :
    calcCastKind source target = .none ∨ calcCastKind source target = .downcast := by
  have unfolded : calcCastKind source target = tokenCastKind source target :=
    if_pos (by rw [isToken, Bool.or_true])
  rw [unfolded, tokenCastKind, isToken, Bool.and_true, Bool.and_true, apart]
  by_cases bothTokens : source.isToken = true
  · exact .inl (by rw [if_pos bothTokens, if_neg differ])
  · have notText : target ≠ .string := fun isText => by rw [isText] at isToken; cases isToken
    rw [if_neg bothTokens, decide_eq_false notText, Bool.and_false, if_neg Bool.false_ne_true, decide_eq_false notInt,
      if_neg Bool.false_ne_true, if_neg Bool.false_ne_true]
    rw [Bool.not_eq_true] at bothTokens
    rw [bothTokens, Bool.false_and, if_neg Bool.false_ne_true, Bool.and_true]
    cases source.isObject
    · exact .inl rfl
    · exact .inr rfl

theorem accepted_iff (found : bindingDistance unit funcTypes b = some n) : Accepted unit b ↔ ¬ Misfit b := by
  constructor
  · rintro accepted ⟨e, source, target, typed, misfit⟩
    have refused : fixupExprType unit e source target = .incompatible := by
      unfold fixupExprType
      rcases misfit with respelled | ⟨-, isToken, notInt, differ, apart⟩
      · rw [calcCastKind_respelled respelled]
      · rcases calcCastKind_token isToken notInt differ apart with kind | kind <;> rw [kind]
    rcases accepted e source target typed with same | cast
    · cases refused.symm.trans same
    · cases refused.symm.trans cast
  · intro fitting e source target typed
    have spelled (same : sameArrayType source target = true) : calcCastKind source target = .same := by
      by_cases equal : source = target
      · subst equal
        exact calcCastKind_self source
      · refine calcCastKind_spelled same fun alike => fitting ⟨e, source, target, typed, .inl ⟨equal, same, alike⟩⟩
    rcases bindingDistance_some typed found with ⟨isNull, isToken, -⟩ | ⟨-, -, near⟩
    · by_cases same : sameArrayType source target = true
      · exact .inl (fixupExprType_same (spelled same))
      · have differ : source ≠ target := by
          rintro rfl
          exact same (sameArrayType_self source)
        by_cases isInt : source = .scalar .int32
        · subst isInt
          exact .inr (fixupExprType_null isNull isToken)
        · exact absurd ⟨e, source, target, typed, .inr ⟨isNull, isToken, isInt, differ, by simpa using same⟩⟩ fitting
    · rcases typedBindingDistance_some near with near | ⟨-, fits, -⟩
      · rcases calcTypeDistance_some near with ⟨rfl, -⟩ | ⟨-, same, -⟩ | ⟨kind, -⟩ | ⟨kind, -⟩ | ⟨kind, plain, -⟩
        · exact .inl (fixupExprType_same (calcCastKind_self source))
        · exact .inl (fixupExprType_same (spelled same))
        · exact .inl (fixupExprType_same kind)
        · exact .inl (fixupExprType_same kind)
        · exact fixupExprType_plain kind plain
      · have isType := typed.2.1
        exact .inr (fixupExprType_fits fits isType)

theorem computeBindingDistance_some (found : computeBindingDistance unit funcTypes bindings = some n) :
    (∀ b ∈ bindings, ∃ m, bindingDistance unit funcTypes b = some m) ∧ (n = 0 ↔ ∀ b ∈ bindings, ¬ Pays b) := by
  induction bindings generalizing n with
  | nil =>
    cases found
    exact ⟨List.forall_mem_nil _, iff_of_true rfl (List.forall_mem_nil _)⟩
  | cons b bindings ih =>
    rw [computeBindingDistance] at found
    split at found
    · rename_i m rest near others
      cases found
      obtain ⟨bound, isZero⟩ := ih others
      refine ⟨fun b' member => ?_, ?_⟩
      · rcases List.mem_cons.mp member with rfl | later
        · exact ⟨m, near⟩
        · exact bound b' later
      · rw [Nat.add_eq_zero_iff, bindingDistance_zero_iff near, isZero, List.forall_mem_cons]
    · cases found

theorem computeBindingDistance_exact (exact : ∀ b ∈ bindings, ExactBinding funcTypes b)
    (noText : ∀ b ∈ bindings, ¬ NullString b) : computeBindingDistance unit funcTypes bindings = some 0 := by
  induction bindings with
  | nil => rfl
  | cons b bindings ih =>
    rw [List.forall_mem_cons] at exact noText
    rw [computeBindingDistance, bindingDistance_exact exact.1 noText.1, ih exact.2 noText.2]

theorem computeBindingDistance_nullString (member : b ∈ bindings) (isText : NullString b) :
    computeBindingDistance unit funcTypes bindings = none := by
  cases found : computeBindingDistance unit funcTypes bindings with
  | none => rfl
  | some n =>
    obtain ⟨m, near⟩ := (computeBindingDistance_some found).1 b member
    cases (bindingDistance_nullString isText).symm.trans near

end Bindings

section Choice
variable (unit : FloatUnit) (funcTypes : Nat → FuncType) (actuals : List Actual)

def Exact (candidate : SnFunction) : Prop :=
  ∃ bindings, tryBindArgs actuals candidate = some bindings ∧ ∀ b ∈ bindings, ExactBinding funcTypes b

def Binds (property : FormalBinding → Prop) (candidate : SnFunction) : Prop :=
  ∃ bindings, tryBindArgs actuals candidate = some bindings ∧ ∃ b ∈ bindings, property b

structure ChoiceHolds (outcome : List SnFunction → Outcome SnFunction) (candidates : List SnFunction) : Prop where
  orderFree : ∀ order, order.Perm candidates → outcome order = outcome candidates
  exactFirst : ∀ exact ∈ candidates, Exact funcTypes actuals exact →
    ∀ converting ∈ candidates, Binds actuals Converts converting →
      outcome candidates ≠ .chosen converting ∧ outcome [exact, converting] ≠ .chosen converting ∧
        outcome [exact, converting] ≠ .ambiguous
  accepted : ∀ callee, outcome candidates = .chosen callee → ∀ bindings, tryBindArgs actuals callee = some bindings →
    ∀ b ∈ bindings, Accepted unit b

/-- No exact candidate takes a null to `string`, and the others pay for a conversion, or are foreign where it is own.
The candidate ahead of the others has no misfit. -/
structure HoldsWhen (isOwnTu : SnFunction → Bool) (candidates : List SnFunction) : Prop where
  pays : ∀ exact ∈ candidates, Exact funcTypes actuals exact →
    ∀ converting ∈ candidates, Binds actuals Converts converting →
      (∃ n, candidateDistance unit funcTypes actuals converting = some n) → ¬ Binds actuals NullString exact ∧
        (Binds actuals Pays converting ∨ isOwnTu exact = true ∧ isOwnTu converting = false)
  fits : ∀ leader, Leads (candidateDistance unit funcTypes actuals) isOwnTu candidates leader →
    ¬ Binds actuals Misfit leader

variable {unit funcTypes actuals} {isOwnTu : SnFunction → Bool} {candidates : List SnFunction}
  {exact converting candidate : SnFunction} {bindings : List FormalBinding} {n : Nat}

theorem exactBinding_not_converts {b : FormalBinding} (isExact : ExactBinding funcTypes b) : ¬ Converts b := by
  rintro ⟨e, isOut, source, target, ⟨bound, isType, isFormal⟩, differ⟩
  rcases isExact with unbound | ⟨e', isOut', source', bound', isType', isFormal'⟩ | ⟨ref, isOut', id, bound', -⟩ |
      ⟨isOut', target', bound', -⟩
  · cases unbound.symm.trans bound
  · cases bound.symm.trans bound'
    exact differ (Option.some.inj ((isType.symm.trans isType').trans (isFormal'.symm.trans isFormal)))
  · cases bound.symm.trans bound'
  · cases bound.symm.trans bound'

theorem exact_ne (isExact : Exact funcTypes actuals exact) (converts : Binds actuals Converts converting) :
    exact ≠ converting := by
  rintro rfl
  obtain ⟨bindings, bound, all⟩ := isExact
  obtain ⟨bindings', bound', b, member, differ⟩ := converts
  cases bound.symm.trans bound'
  exact exactBinding_not_converts (all b member) differ

theorem candidateDistance_some (found : candidateDistance unit funcTypes actuals candidate = some n) :
    ∃ bindings, tryBindArgs actuals candidate = some bindings ∧
      computeBindingDistance unit funcTypes bindings = some n := by
  rw [candidateDistance, Option.bind_eq_some_iff] at found
  exact found

theorem candidateDistance_zero_iff (found : candidateDistance unit funcTypes actuals candidate = some n) :
    n = 0 ↔ ¬ Binds actuals Pays candidate := by
  obtain ⟨bindings, bound, near⟩ := candidateDistance_some found
  rw [(computeBindingDistance_some near).2]
  constructor
  · rintro free ⟨bindings', bound', b, member, pays⟩
    cases bound.symm.trans bound'
    exact free b member pays
  · exact fun free b member pays => free ⟨bindings, bound, b, member, pays⟩

theorem candidateDistance_exact (isExact : Exact funcTypes actuals exact) (noText : ¬ Binds actuals NullString exact) :
    candidateDistance unit funcTypes actuals exact = some 0 := by
  obtain ⟨bindings, bound, all⟩ := isExact
  rw [candidateDistance, bound]
  exact computeBindingDistance_exact all fun b member isText => noText ⟨bindings, bound, b, member, isText⟩

theorem candidateDistance_nullString (isText : Binds actuals NullString candidate) :
    candidateDistance unit funcTypes actuals candidate = none := by
  obtain ⟨bindings, bound, b, member, isText⟩ := isText
  rw [candidateDistance, bound]
  exact computeBindingDistance_nullString member isText

theorem outranks_exact (isExact : Exact funcTypes actuals exact) :
    Outranks (candidateDistance unit funcTypes actuals) isOwnTu exact converting ↔
      ((∃ n, candidateDistance unit funcTypes actuals converting = some n) → ¬ Binds actuals NullString exact ∧
        (Binds actuals Pays converting ∨ isOwnTu exact = true ∧ isOwnTu converting = false)) := by
  constructor
  · rintro ahead ⟨d, viable⟩
    obtain ⟨n, near, order⟩ := ahead d viable
    have noText : ¬ Binds actuals NullString exact := fun isText => by
      cases (candidateDistance_nullString isText).symm.trans near
    cases (candidateDistance_exact isExact noText).symm.trans near
    refine ⟨noText, ?_⟩
    rcases order with far | ⟨-, own⟩
    · refine .inl (not_not.mp fun free => ?_)
      exact absurd ((candidateDistance_zero_iff viable).mpr free) (Nat.ne_of_gt far)
    · exact .inr own
  · intro condition d viable
    obtain ⟨noText, order⟩ := condition ⟨d, viable⟩
    refine ⟨0, candidateDistance_exact isExact noText, ?_⟩
    by_cases zero : d = 0
    · rcases order with pays | own
      · exact absurd pays ((candidateDistance_zero_iff viable).mp zero)
      · exact .inr ⟨zero.symm, own⟩
    · exact .inl (Nat.pos_of_ne_zero zero)

theorem choiceHolds_iff :
    ChoiceHolds unit funcTypes actuals (invokeOutcome (candidateDistance unit funcTypes actuals) isOwnTu) candidates ↔
      HoldsWhen unit funcTypes actuals isOwnTu candidates := by
  constructor
  · intro holds
    refine ⟨?_, ?_⟩
    · intro exact here isExact converting there converts
      obtain ⟨-, notBeaten, notTied⟩ := holds.exactFirst exact here isExact converting there converts
      exact (outranks_exact isExact).mp ((outranks_iff_pair (exact_ne isExact converts)).mpr ⟨notBeaten, notTied⟩)
    · rintro leader leads ⟨bindings, bound, b, member, misfit⟩
      obtain ⟨n, viable⟩ := leads.1
      obtain ⟨bindings', bound', near⟩ := candidateDistance_some viable
      cases bound.symm.trans bound'
      obtain ⟨m, distance⟩ := (computeBindingDistance_some near).1 b member
      have accepted := holds.accepted leader (invokeOutcome_of_leads leads) bindings bound b member
      exact (accepted_iff distance).mp accepted misfit
  · intro condition
    refine ⟨fun order same => invokeOutcome_perm same, ?_, ?_⟩
    · intro exact here isExact converting there converts
      have differ := exact_ne isExact converts
      have ahead : Outranks (candidateDistance unit funcTypes actuals) isOwnTu exact converting :=
        (outranks_exact isExact).mpr (condition.pays exact here isExact converting there converts)
      exact ⟨ahead.not_chosen here differ, (outranks_iff_pair differ).mp ahead⟩
    · intro callee found bindings bound b member
      have leads := leads_of_invokeOutcome found
      obtain ⟨n, viable⟩ := leads.1
      obtain ⟨bindings', bound', near⟩ := candidateDistance_some viable
      cases bound.symm.trans bound'
      obtain ⟨m, distance⟩ := (computeBindingDistance_some near).1 b member
      exact (accepted_iff distance).mpr fun misfit => condition.fits callee leads ⟨bindings, bound, b, member, misfit⟩

end Choice

theorem five_fits : 5 < ScalarPrim.int32.span := by decide

def five : TypedExpr := { type := some (.scalar .int32), expr := .literal (.scalar ⟨.int32, 5, five_fits⟩) }

def takes (id : Nat) (row : ScalarPrim) : SnFunction := ⟨id, [{ name := [97], type := some (.scalar row) }]⟩

end NLang.Compiler.Overloads
