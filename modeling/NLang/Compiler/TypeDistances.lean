import NLang.Compiler.ImplicitConversions

/-!
# Distances between types

How far a type is from another (`ExprResolverCast.cpp`), which scores the candidates of a call, and the kind of the cast
between them (`CastInfo.cpp`), which the argument of the chosen one meets. Each has a table of its own.
-/

namespace NLang.Compiler.Overloads
open NLang.Vm NLang.Image NLang.Backend.Folded ImplicitConversions

structure SnClassDecl where
  id : Nat
  isObject : Bool := false
  isBuiltinClass : Bool := false
  isContainer : Bool := false
  implementsList : List Nat := []
  deriving DecidableEq

inductive SnField where
  | scalar (row : ScalarPrim)
  | string | type | void
  | enumDecl (id : Nat)
  | structDecl (id : Nat)
  | interfaceDecl (id : Nat)
  | classDecl (decl : SnClassDecl) (supers : List SnClassDecl)
  | funcDecl (id : Nat)
  | arrayToken (elem : SnField) (rank : Nat)
  | arrayInst (elem : SnField)
  deriving DecidableEq

namespace SnField

def intOfEnum : SnField → SnField
  | enumDecl _ => scalar .int32
  | field => field

def isToken : SnField → Bool
  | arrayToken _ _ => true
  | _ => false

def isArray : SnField → Bool
  | arrayToken _ _ | arrayInst _ => true
  | _ => false

def isStruct : SnField → Bool
  | structDecl _ => true
  | _ => false

def isClass : SnField → Bool
  | classDecl _ _ | funcDecl _ | arrayInst _ => true
  | _ => false

def isInterface : SnField → Bool
  | interfaceDecl _ => true
  | _ => false

def isFuncType : SnField → Bool
  | funcDecl _ => true
  | _ => false

def isObject : SnField → Bool
  | classDecl decl _ => decl.isObject
  | _ => false

def isPrimitive : SnField → Bool
  | scalar _ | string => true
  | _ => false

end SnField

def sameArrayType (left right : SnField) : Bool :=
  left = right || match left, right with
    | .arrayToken elem rank, .arrayToken elem' rank' => rank = rank' && sameArrayType elem elem'
    | .arrayToken elem _, .arrayInst elem' | .arrayInst elem, .arrayToken elem' _ | .arrayInst elem, .arrayInst elem' =>
      sameArrayType elem elem'
    | _, _ => false

inductive TypeCastKind where
  | none | same | auto | box | unbox | explicit | downcast
  deriving DecidableEq

def ofCastKind : CastKind → TypeCastKind
  | .none => .none
  | .same => .same
  | .auto => .auto
  | .box => .box
  | .explicit => .explicit

def primitiveVerdict : SnField → SnField → TypeCastKind
  | .scalar source, .scalar target => ofCastKind (deriveScalarCast source target)
  | .scalar _, .string => .auto
  | .string, .string | .void, .void | .type, .type => .same
  | _, _ => .none

def isAbove (target : SnField) : List SnClassDecl → Bool
  | [] => false
  | parent :: above => SnField.classDecl parent above = target || isAbove target above

def isBelow (source target : SnField) : Bool :=
  match source with
  | .classDecl _ supers => isAbove target supers
  | _ => false

def implements (source : SnField) (interface : Nat) : Bool :=
  match source with
  | .classDecl decl supers => (decl :: supers).any (interface ∈ ·.implementsList)
  | _ => false

def tokenCastKind (source target : SnField) : TypeCastKind :=
  if source.isToken && target.isToken then if source = target then .same else .none
  else if source.isToken && target = .string then .auto
  else if source = .scalar .int32 && target.isToken then .auto
  else if sameArrayType source target then .same
  else if source.isToken && target.isObject then .same
  else if source.isObject && target.isToken then .downcast
  else .none

def classCastKind (source target : SnField) : TypeCastKind :=
  if source = target then .same
  else if source.isFuncType || target.isFuncType then .none
  else if target.isObject then .same
  else if isBelow source target then .same
  else if isBelow target source then .downcast
  else if source.isObject then .downcast
  else .none

def referenceCastKind (source target : SnField) : TypeCastKind :=
  match target with
  | .interfaceDecl id =>
    if source.isClass then if implements source id then .same else .none
    else if source = .scalar .int32 then .auto
    else if source = target then .same
    else .none
  | _ =>
    if source.isPrimitive && target.isObject then .box
    else if source = .scalar .int32 && target.isClass then .auto
    else if source.isObject && target.isPrimitive then .unbox
    else if source.isClass && target = .string then .auto
    else .none

def calcCastKind (source target : SnField) : TypeCastKind :=
  if source.isToken || target.isToken then tokenCastKind source target
  else if source.isStruct || target.isStruct then if source = target then .same else .none
  else if source.isClass && target.isClass then classCastKind source target
  else if source.isClass || target.isClass || target.isInterface then
    referenceCastKind source.intOfEnum target.intOfEnum
  else primitiveVerdict source.intOfEnum target.intOfEnum

def kDistToFloat : Nat := 4
def kDistToString : Nat := 5

def scalarRung (source target : ScalarPrim) : Nat :=
  if source.category ≠ .float ∧ target.category = .float then kDistToFloat
  else (rank source - rank target) + (rank target - rank source)

def primitiveDistance (source target : SnField) : Option Nat :=
  match primitiveVerdict source target, source, target with
  | .none, _, _ | .explicit, _, _ => none
  | .same, _, _ => some 0
  | _, _, .string => some kDistToString
  | _, .scalar s, .scalar t => some (scalarRung s t)
  | _, _, _ => some kDistToFloat

def inheritanceDepth (target : SnField) : List SnClassDecl → Nat → Option Nat
  | [], _ => none
  | parent :: above, depth =>
    if SnField.classDecl parent above = target then some depth else inheritanceDepth target above (depth + 1)

def interfaceDepth (target : Nat) : List SnClassDecl → Nat → Option Nat
  | [], _ => none
  | cur :: above, depth =>
    if target ∈ cur.implementsList then some (depth + 1) else interfaceDepth target above (depth + 1)

def classFamilyDistance : SnField → SnField → Option Nat
  | .classDecl decl supers, target =>
    match target with
    | .interfaceDecl id => interfaceDepth id (decl :: supers) 0
    | _ => if target.isClass then inheritanceDepth target supers 1 else none
  | .interfaceDecl id, .interfaceDecl id' => if id = id' then some 0 else none
  | _, _ => none

def calcTypeDistance (source target : SnField) : Option Nat :=
  if source = target then some 0
  else if source.isStruct || target.isStruct then none
  else if sameArrayType source target then some 0
  else if target.isObject && source.isArray then some 1
  else if source.isClass || source.isInterface || target.isClass || target.isInterface then
    classFamilyDistance source target
  else if source.isToken && target = .string then some kDistToString
  else if source.intOfEnum.isPrimitive && target.intOfEnum.isPrimitive then
    primitiveDistance source.intOfEnum target.intOfEnum
  else none

def Respelled (source target : SnField) : Prop :=
  source ≠ target ∧ sameArrayType source target = true ∧ source.isToken = target.isToken

def Plain (target : SnField) : Prop := target.isClass = false ∧ target.isInterface = false ∧ target.isToken = false

section Tables
variable {source target : SnField} {n : Nat}

theorem sameArrayType_isArray (same : sameArrayType source target = true) (differ : source ≠ target) :
    source.isArray = true ∧ target.isArray = true := by
  unfold sameArrayType at same
  rw [decide_eq_false differ, Bool.false_or] at same
  split at same
  all_goals first | exact ⟨rfl, rfl⟩ | cases same

theorem sameArrayType_self (source : SnField) : sameArrayType source source = true := by
  unfold sameArrayType
  rw [decide_eq_true rfl]
  exact Bool.true_or _

theorem inheritanceDepth_some {supers : List SnClassDecl} {depth : Nat}
    (found : inheritanceDepth target supers depth = some n) : depth ≤ n ∧ isAbove target supers = true := by
  induction supers generalizing depth with
  | nil => cases found
  | cons parent above ih =>
    rw [inheritanceDepth] at found
    rw [isAbove]
    split at found
    · rename_i here
      cases found
      exact ⟨le_rfl, by rw [decide_eq_true here]; rfl⟩
    · obtain ⟨deeper, above⟩ := ih found
      exact ⟨Nat.le_of_succ_le deeper, by rw [above, Bool.or_true]⟩

theorem interfaceDepth_some {id : Nat} {chain : List SnClassDecl} {depth : Nat}
    (found : interfaceDepth id chain depth = some n) :
    depth < n ∧ chain.any (id ∈ ·.implementsList) = true := by
  induction chain generalizing depth with
  | nil => cases found
  | cons cur above ih =>
    rw [interfaceDepth] at found
    rw [List.any_cons]
    split at found
    · rename_i here
      cases found
      exact ⟨Nat.lt_succ_self _, by rw [decide_eq_true here]; rfl⟩
    · obtain ⟨deeper, above⟩ := ih found
      exact ⟨Nat.lt_of_succ_lt deeper, by rw [above, Bool.or_true]⟩

theorem scalarRung_auto : ∀ s ∈ kScalarPrims, ∀ t ∈ kScalarPrims,
    deriveScalarCast s t = .auto → scalarRung s t ≠ 0 := by decide

theorem deriveScalarCast_same : ∀ s ∈ kScalarPrims, ∀ t ∈ kScalarPrims, deriveScalarCast s t = .same ↔ s = t := by
  decide

theorem deriveScalarCast_box : ∀ s ∈ kScalarPrims, ∀ t ∈ kScalarPrims, deriveScalarCast s t ≠ .box := by decide

theorem primitiveDistance_some (found : primitiveDistance source target = some n) :
    (primitiveVerdict source target = .same ∧ source = target ∧ n = 0) ∨
      (primitiveVerdict source target = .auto ∧ n ≠ 0) := by
  cases source with
  | scalar s =>
    cases target with
    | scalar t =>
      have isSame := deriveScalarCast_same s (mem_kScalarPrims s) t (mem_kScalarPrims t)
      have isAuto := scalarRung_auto s (mem_kScalarPrims s) t (mem_kScalarPrims t)
      have noBox := deriveScalarCast_box s (mem_kScalarPrims s) t (mem_kScalarPrims t)
      cases cell : deriveScalarCast s t with
      | box => exact absurd cell noBox
      | none =>
        have verdict : primitiveVerdict (.scalar s) (.scalar t) = .none := congrArg ofCastKind cell
        unfold primitiveDistance at found
        rw [verdict] at found
        cases found
      | explicit =>
        have verdict : primitiveVerdict (.scalar s) (.scalar t) = .explicit := congrArg ofCastKind cell
        unfold primitiveDistance at found
        rw [verdict] at found
        cases found
      | same =>
        have verdict : primitiveVerdict (.scalar s) (.scalar t) = .same := congrArg ofCastKind cell
        unfold primitiveDistance at found
        rw [verdict] at found
        cases found
        exact .inl ⟨verdict, congrArg _ (isSame.mp cell), rfl⟩
      | auto =>
        have verdict : primitiveVerdict (.scalar s) (.scalar t) = .auto := congrArg ofCastKind cell
        unfold primitiveDistance at found
        rw [verdict] at found
        cases found
        exact .inr ⟨verdict, isAuto cell⟩
    | string =>
      cases found
      exact .inr ⟨rfl, nofun⟩
    | _ => cases found
  | string =>
    cases target with
    | string =>
      cases found
      exact .inl ⟨rfl, rfl, rfl⟩
    | _ => cases found
  | type =>
    cases target with
    | type =>
      cases found
      exact .inl ⟨rfl, rfl, rfl⟩
    | _ => cases found
  | void =>
    cases target with
    | void =>
      cases found
      exact .inl ⟨rfl, rfl, rfl⟩
    | _ => cases found
  | _ => cases found

theorem isArray_cases (isArray : source.isArray = true) :
    (∃ elem rank, source = .arrayToken elem rank) ∨ ∃ elem, source = .arrayInst elem := by
  cases source with
  | arrayToken elem rank => exact .inl ⟨elem, rank, rfl⟩
  | arrayInst elem => exact .inr ⟨elem, rfl⟩
  | _ => cases isArray

theorem calcCastKind_self (source : SnField) : calcCastKind source source = .same := by
  cases source with
  | scalar row =>
    have isSame := deriveScalarCast_same row (mem_kScalarPrims row) row (mem_kScalarPrims row)
    exact congrArg ofCastKind (isSame.mpr rfl)
  | structDecl id => exact if_pos rfl
  | classDecl decl supers => exact if_pos rfl
  | funcDecl id => exact if_pos rfl
  | arrayInst elem => exact if_pos rfl
  | arrayToken elem rank => exact if_pos (show SnField.arrayToken elem rank = .arrayToken elem rank from rfl)
  | interfaceDecl id => exact if_pos rfl
  | _ => rfl

theorem calcCastKind_spelled (same : sameArrayType source target = true) (apart : source.isToken ≠ target.isToken) :
    calcCastKind source target = .same := by
  have differ : source ≠ target := fun equal => apart (congrArg _ equal)
  obtain ⟨isArray, isArray'⟩ := sameArrayType_isArray same differ
  rcases isArray_cases isArray with ⟨elem, rank, rfl⟩ | ⟨elem, rfl⟩
  · rcases isArray_cases isArray' with ⟨elem', rank', rfl⟩ | ⟨elem', rfl⟩
    · exact absurd rfl apart
    · exact if_pos same
  · rcases isArray_cases isArray' with ⟨elem', rank', rfl⟩ | ⟨elem', rfl⟩
    · exact if_pos same
    · exact absurd rfl apart

theorem calcCastKind_respelled (respelled : Respelled source target) : calcCastKind source target = .none := by
  obtain ⟨differ, same, alike⟩ := respelled
  obtain ⟨isArray, isArray'⟩ := sameArrayType_isArray same differ
  rcases isArray_cases isArray with ⟨elem, rank, rfl⟩ | ⟨elem, rfl⟩
  · rcases isArray_cases isArray' with ⟨elem', rank', rfl⟩ | ⟨elem', rfl⟩
    · exact if_neg differ
    · cases alike
  · rcases isArray_cases isArray' with ⟨elem', rank', rfl⟩ | ⟨elem', rfl⟩
    · cases alike
    · exact if_neg differ

theorem isAbove_class {supers : List SnClassDecl} (above : isAbove target supers = true) :
    ∃ decl supers', target = .classDecl decl supers' := by
  induction supers with
  | nil => cases above
  | cons parent supers ih =>
    rw [isAbove, Bool.or_eq_true, decide_eq_true_iff] at above
    rcases above with rfl | above
    · exact ⟨parent, supers, rfl⟩
    · exact ih above

theorem classCastKind_above {decl : SnClassDecl} {supers : List SnClassDecl} (above : isAbove target supers = true) :
    classCastKind (.classDecl decl supers) target = .same := by
  obtain ⟨decl', supers', rfl⟩ := isAbove_class above
  have unfolded : classCastKind (.classDecl decl supers) (.classDecl decl' supers') =
      if SnField.classDecl decl supers = .classDecl decl' supers' then .same
      else if decl'.isObject then .same
      else if isAbove (.classDecl decl' supers') supers then .same
      else if isAbove (.classDecl decl supers) supers' then .downcast
      else if decl.isObject then .downcast else .none := rfl
  rw [unfolded, if_pos above]
  split
  · rfl
  · split <;> rfl

theorem classFamilyDistance_some (found : classFamilyDistance source target = some n) (differ : source ≠ target) :
    calcCastKind source target = .same ∧ n ≠ 0 := by
  cases source with
  | classDecl decl supers =>
    have below (isClass : target.isClass = true) (deep : inheritanceDepth target supers 1 = some n) :
        calcCastKind (.classDecl decl supers) target = .same ∧ n ≠ 0 := by
      obtain ⟨positive, above⟩ := inheritanceDepth_some deep
      obtain ⟨decl', supers', rfl⟩ := isAbove_class above
      exact ⟨classCastKind_above above, Nat.ne_of_gt positive⟩
    cases target with
    | interfaceDecl id =>
      obtain ⟨deep, above⟩ := interfaceDepth_some found
      exact ⟨if_pos above, Nat.ne_of_gt deep⟩
    | classDecl _ _ | funcDecl _ | arrayInst _ => exact below rfl found
    | _ => cases found
  | interfaceDecl id =>
    cases target with
    | interfaceDecl id' =>
      rw [classFamilyDistance, if_neg fun equal => differ (congrArg _ equal)] at found
      cases found
    | _ => cases found
  | _ => cases found

theorem calcCastKind_object (isObject : target.isObject = true) (isArray : source.isArray = true) :
    calcCastKind source target = .same := by
  cases target with
  | classDecl decl supers =>
    change decl.isObject = true at isObject
    rcases isArray_cases isArray with ⟨elem, rank, rfl⟩ | ⟨elem, rfl⟩
    · have unfolded : calcCastKind (.arrayToken elem rank) (.classDecl decl supers) =
          if sameArrayType (.arrayToken elem rank) (.classDecl decl supers) then .same
          else if decl.isObject then .same else .none := rfl
      rw [unfolded, if_pos isObject]
      split <;> rfl
    · have unfolded : calcCastKind (.arrayInst elem) (.classDecl decl supers) =
          if decl.isObject then .same
          else if isAbove (.arrayInst elem) supers then .downcast else .none := rfl
      rw [unfolded, if_pos isObject]
  | _ => cases isObject

theorem isPrimitive_cases (isPrimitive : source.intOfEnum.isPrimitive = true) :
    (∃ row, source = .scalar row) ∨ source = .string ∨ ∃ id, source = .enumDecl id := by
  cases source with
  | scalar row => exact .inl ⟨row, rfl⟩
  | string => exact .inr (.inl rfl)
  | enumDecl id => exact .inr (.inr ⟨id, rfl⟩)
  | _ => cases isPrimitive

theorem calcCastKind_primitive (isPrimitive : source.intOfEnum.isPrimitive = true)
    (isPrimitive' : target.intOfEnum.isPrimitive = true) :
    calcCastKind source target = primitiveVerdict source.intOfEnum target.intOfEnum ∧ Plain target := by
  rcases isPrimitive_cases isPrimitive with ⟨row, rfl⟩ | rfl | ⟨id, rfl⟩ <;>
    rcases isPrimitive_cases isPrimitive' with ⟨row', rfl⟩ | rfl | ⟨id', rfl⟩ <;>
    exact ⟨rfl, rfl, rfl, rfl⟩

theorem intOfEnum_eq (same : source.intOfEnum = target.intOfEnum) (differ : source ≠ target) :
    source.intOfEnum = .scalar .int32 := by
  cases source with
  | enumDecl id => rfl
  | _ =>
    cases target with
    | enumDecl id => exact same
    | _ => exact absurd same differ

theorem calcTypeDistance_some (found : calcTypeDistance source target = some n) :
    (source = target ∧ n = 0) ∨ (source ≠ target ∧ sameArrayType source target = true ∧ n = 0) ∨
      (calcCastKind source target = .same ∧ source.intOfEnum = .scalar .int32 ∧ target.intOfEnum = .scalar .int32 ∧
        n = 0) ∨
      (calcCastKind source target = .same ∧ n ≠ 0) ∨ (calcCastKind source target = .auto ∧ Plain target ∧ n ≠ 0) := by
  unfold calcTypeDistance at found
  split at found
  · rename_i equal
    cases found
    exact .inl ⟨equal, rfl⟩
  rename_i differ
  split at found
  · cases found
  rename_i noStruct
  split at found
  · rename_i same
    cases found
    exact .inr (.inl ⟨differ, same, rfl⟩)
  split at found
  · rename_i toObject
    cases found
    obtain ⟨isObject, isArray⟩ := (Bool.and_eq_true _ _).mp toObject
    exact .inr (.inr (.inr (.inl ⟨calcCastKind_object isObject isArray, nofun⟩)))
  split at found
  · exact .inr (.inr (.inr (.inl (classFamilyDistance_some found differ))))
  rename_i plain
  split at found
  · rename_i toText
    cases found
    obtain ⟨isToken, isText⟩ := (Bool.and_eq_true _ _).mp toText
    cases of_decide_eq_true isText
    cases source with
    | arrayToken elem rank => exact .inr (.inr (.inr (.inr ⟨rfl, ⟨rfl, rfl, rfl⟩, nofun⟩)))
    | _ => cases isToken
  split at found
  · rename_i primitives
    obtain ⟨isPrimitive, isPrimitive'⟩ := (Bool.and_eq_true _ _).mp primitives
    obtain ⟨isVerdict, isPlain⟩ := calcCastKind_primitive isPrimitive isPrimitive'
    rcases primitiveDistance_some found with ⟨verdict, equal, rfl⟩ | ⟨verdict, far⟩
    · have isInt := intOfEnum_eq equal differ
      exact .inr (.inr (.inl ⟨isVerdict.trans verdict, isInt, equal ▸ isInt, rfl⟩))
    · exact .inr (.inr (.inr (.inr ⟨isVerdict.trans verdict, isPlain, far⟩)))
  · cases found

theorem calcTypeDistance_sameArray (same : sameArrayType source target = true) :
    calcTypeDistance source target = some 0 := by
  by_cases equal : source = target
  · rw [calcTypeDistance, if_pos equal]
  · obtain ⟨isArray, isArray'⟩ := sameArrayType_isArray same equal
    have noStruct : ¬ (source.isStruct || target.isStruct) = true := by
      rcases isArray_cases isArray with ⟨elem, rank, rfl⟩ | ⟨elem, rfl⟩ <;>
        rcases isArray_cases isArray' with ⟨elem', rank', rfl⟩ | ⟨elem', rfl⟩ <;> exact Bool.false_ne_true
    rw [calcTypeDistance, if_neg equal, if_neg noStruct, if_pos same]

theorem intOfEnum_cases (isInt : source.intOfEnum = .scalar .int32) :
    source = .scalar .int32 ∨ ∃ id, source = .enumDecl id := by
  cases source with
  | enumDecl id => exact .inr ⟨id, rfl⟩
  | _ => exact .inl isInt

theorem calcTypeDistance_int (isInt : source.intOfEnum = .scalar .int32) (isInt' : target.intOfEnum = .scalar .int32) :
    calcTypeDistance source target = some 0 := by
  unfold calcTypeDistance
  split
  · rfl
  · rename_i differ
    rcases intOfEnum_cases isInt with rfl | ⟨id, rfl⟩ <;> rcases intOfEnum_cases isInt' with rfl | ⟨id', rfl⟩
    · rfl
    · rfl
    · rfl
    · have apart : sameArrayType (.enumDecl id) (.enumDecl id') = false := by
        unfold sameArrayType
        rw [decide_eq_false differ]
        rfl
      rw [apart]
      rfl

end Tables

end NLang.Compiler.Overloads
