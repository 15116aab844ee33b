import NLang.Compiler.Declarations

/-!
# Values of enum members

`AssignEnumMemberValues` (`StatementResolverDeclEnum.cpp`), the name table of `RegisterEnums`, the records of the image
and `CreateEnumStub`. Integers of the compiler are `Int`; `int32_t` counts wrap around.
-/

namespace NLang.Compiler
open NLang.Image

inductive ValueKind where
  | int32 | long | ulong | other
  deriving DecidableEq

structure ConstLiteral where
  kind : ValueKind
  value : Int
  fits : kind = .int32 → 0 ≤ value ∧ value < 2 ^ 31 := by decide

inductive ValueExpr where
  | literal (lit : ConstLiteral)
  | neg (lit : ConstLiteral)
  /-- Any other expression, with the integer that it denotes if it is an integer constant. -/
  | other (kind : ValueKind) (constant : Option Int)

namespace ValueExpr

def evalKind : ValueExpr → ValueKind
  | .literal lit => lit.kind
  | .neg lit => if lit.kind = .ulong then .long else lit.kind
  | .other kind _ => kind

def denotes : ValueExpr → Option Int
  | .literal lit => if lit.kind = .other then none else some lit.value
  | .neg lit => if lit.kind = .other then none else some (-lit.value)
  | .other _ constant => constant

def tryGetConstantLiteral : ValueExpr → Option (ValueKind × Int)
  | .literal lit => some (lit.kind, lit.value)
  | .neg lit =>
    if lit.kind = .ulong then if lit.value = 2 ^ 63 then some (.long, -2 ^ 63) else none
    else some (lit.kind, -lit.value)
  | .other _ _ => none

def folds : ValueExpr → Bool
  | .literal lit | .neg lit => lit.kind = .int32
  | .other _ _ => false

end ValueExpr

structure SnEnumMember where
  name : Identifier
  valueExpr : Option ValueExpr := none

structure SnEnumDecl where
  members : List SnEnumMember
  distinct : (members.map (·.name.text)).Nodup

def wrapInt32 (value : Int) : Int := value.bmod (2 ^ 32)

def tryAssignExplicitEnumValue (expr : ValueExpr) (nextValue : Int) : Option (Int × Int) :=
  if expr.evalKind ≠ .int32 then some (0, nextValue)
  else
    match expr.tryGetConstantLiteral with
    | some (.int32, value) => if value < 0 then none else some (value, wrapInt32 (value + 1))
    | _ => some (0, nextValue)

def assignEnumMemberValues : Int → List SnEnumMember → Option (List Int)
  | _, [] => some []
  | nextValue, member :: members =>
    match member.valueExpr with
    | none => do return nextValue :: (← assignEnumMemberValues (wrapInt32 (nextValue + 1)) members)
    | some expr => do
        let (value, nextValue) ← tryAssignExplicitEnumValue expr nextValue
        return value :: (← assignEnumMemberValues nextValue members)

def SnEnumDecl.Accepted (decl : SnEnumDecl) (values : List Int) : Prop :=
  assignEnumMemberValues 0 decl.members = some values

def definedValues : Int → List SnEnumMember → Option (List Int)
  | _, [] => some []
  | next, member :: members => do
      let value ← match member.valueExpr with
        | none => some next
        | some expr => expr.denotes
      return value :: (← definedValues (value + 1) members)

def putName (names : List Text) (value : Int) (name : Text) : List Text :=
  if value < 0 then names
  else (names ++ List.replicate (value.toNat + 1 - names.length) []).set value.toNat name

def SnEnumDecl.pairs (decl : SnEnumDecl) (values : List Int) : List (Text × Int) :=
  (decl.members.map (·.name.text)).zip values

def registerEnum (pairs : List (Text × Int)) : List Text :=
  pairs.foldl (fun names pair => putName names pair.2 pair.1) []

def recordBound : Nat := 2 ^ 24

def recordLength (name : Text) : Nat := name.length % 2 ^ 32

def loadEnumNames (names : List Text) : Option (List Text) :=
  if names.length ≤ recordBound ∧ ∀ name ∈ names, recordLength name ≤ recordBound then
    some (names.map fun name => name.take (recordLength name))
  else none

def createEnumStub (valueNames : List Text) : List (Text × Int) :=
  valueNames.zipIdx.filterMap fun (name, index) => if name = [] then none else some (name, (index : Int))

structure SnEnumDecl.Agrees (decl : SnEnumDecl) (values : List Int) : Prop where
  defined : definedValues 0 decl.members = some values
  table : ∀ value ∈ values, ∃ k : Nat, value = k ∧
    ∃ name, (registerEnum (decl.pairs values))[k]? = some name ∧ (name, value) ∈ decl.pairs values
  stub : ∃ names, loadEnumNames (registerEnum (decl.pairs values)) = some names ∧
    ∀ pair, pair ∈ createEnumStub names ↔ pair ∈ decl.pairs values

def SkipsHarmless : List SnEnumMember → Prop
  | [] => True
  | member :: members =>
    (∀ expr, member.valueExpr = some expr → expr.folds = false →
      expr.denotes = some 0 ∧ ∀ next ∈ members.head?, next.valueExpr ≠ none) ∧ SkipsHarmless members

structure SnEnumDecl.Plain (decl : SnEnumDecl) : Prop where
  skips : SkipsHarmless decl.members
  names : ∀ member ∈ decl.members, member.name.text.length ≤ recordBound
  values : ∃ values, definedValues 0 decl.members = some values ∧ values.Nodup ∧
    ∀ value ∈ values, value < 2 ^ 24

theorem wrapInt32_succ {value : Int} (nonneg : 0 ≤ value) (small : value < 2 ^ 24) :
    wrapInt32 (value + 1) = value + 1 := by
  unfold wrapInt32
  rw [Int.bmod_eq_of_le] <;> omega

theorem takeConstant {value taken next : Int}
    (done : (if value < 0 then none else some (value, wrapInt32 (value + 1))) = some (taken, next)) :
    taken = value ∧ 0 ≤ value ∧ next = wrapInt32 (value + 1) := by
  split at done
  · cases done
  · cases done
    exact ⟨rfl, by omega, rfl⟩

theorem tryAssign_cases {expr : ValueExpr} {nextValue value next : Int}
    (done : tryAssignExplicitEnumValue expr nextValue = some (value, next)) :
    expr.folds = true ∧ expr.denotes = some value ∧ 0 ≤ value ∧ next = wrapInt32 (value + 1) ∨
      expr.folds = false ∧ value = 0 ∧ next = nextValue := by
  cases expr with
  | literal lit =>
    obtain ⟨kind, constant, fits⟩ := lit
    cases kind with
    | int32 =>
      obtain ⟨rfl, nonneg, rfl⟩ := takeConstant done
      exact .inl ⟨rfl, rfl, nonneg, rfl⟩
    | long | ulong | other =>
      cases done
      exact .inr ⟨rfl, rfl, rfl⟩
  | neg lit =>
    obtain ⟨kind, constant, fits⟩ := lit
    cases kind with
    | int32 =>
      obtain ⟨rfl, nonneg, rfl⟩ := takeConstant done
      exact .inl ⟨rfl, rfl, nonneg, rfl⟩
    | long | ulong | other =>
      cases done
      exact .inr ⟨rfl, rfl, rfl⟩
  | other kind constant =>
    refine .inr ⟨rfl, ?_⟩
    unfold tryAssignExplicitEnumValue at done
    split at done <;> cases done <;> exact ⟨rfl, rfl⟩

section Assign
variable {nextValue k : Int} {member : SnEnumMember} {members : List SnEnumMember} {values defined : List Int}

theorem assign_implicit (implicit : member.valueExpr = none) :
    assignEnumMemberValues nextValue (member :: members) = some values ↔
      ∃ rest, assignEnumMemberValues (wrapInt32 (nextValue + 1)) members = some rest ∧
        nextValue :: rest = values := by
  rw [assignEnumMemberValues, implicit]
  simp only [Option.bind_eq_bind, Option.bind_eq_some_iff, Option.pure_def, Option.some_inj]

theorem assign_explicit {expr : ValueExpr} (explicit : member.valueExpr = some expr) :
    assignEnumMemberValues nextValue (member :: members) = some values ↔
      ∃ value next, tryAssignExplicitEnumValue expr nextValue = some (value, next) ∧
        ∃ rest, assignEnumMemberValues next members = some rest ∧ value :: rest = values := by
  rw [assignEnumMemberValues, explicit]
  simp only [Option.bind_eq_bind, Option.bind_eq_some_iff, Option.pure_def, Option.some_inj, Prod.exists]

theorem defined_cons : definedValues k (member :: members) = some defined ↔
    ∃ value, (member.valueExpr = none ∧ value = k ∨
        ∃ expr, member.valueExpr = some expr ∧ expr.denotes = some value) ∧
      ∃ rest, definedValues (value + 1) members = some rest ∧ value :: rest = defined := by
  rw [definedValues]
  cases member.valueExpr with
  | none =>
    simp only [Option.bind_eq_bind, Option.pure_def, Option.bind_some, Option.bind_eq_some_iff, Option.some_inj,
      reduceCtorEq, false_and, exists_false, or_false, true_and, exists_eq_left]
  | some expr =>
    simp only [Option.bind_eq_bind, Option.pure_def, Option.bind_eq_some_iff, Option.some_inj, reduceCtorEq,
      false_and, false_or, exists_eq_left']

theorem defined_length (done : definedValues k members = some defined) : defined.length = members.length := by
  induction members generalizing k defined with
  | nil =>
    cases done
    rfl
  | cons member members ih =>
    obtain ⟨value, -, rest, others, rfl⟩ := defined_cons.mp done
    rw [List.length_cons, List.length_cons, ih others]

def InStep (nextValue k : Int) (members : List SnEnumMember) : Prop :=
  nextValue = k ∨ ∀ member ∈ members.head?, member.valueExpr ≠ none

theorem assigned_eq_defined (done : assignEnumMemberValues nextValue members = some values)
    (language : definedValues k members = some defined) (skips : SkipsHarmless members)
    (small : ∀ value ∈ defined, value < 2 ^ 24) (nonneg : 0 ≤ k) (inStep : InStep nextValue k members) :
    values = defined ∧ ∀ value ∈ values, 0 ≤ value := by
  induction members generalizing nextValue k values defined with
  | nil =>
    cases done
    cases language
    exact ⟨rfl, nofun⟩
  | cons member members ih =>
    obtain ⟨value, source, rest', later, rfl⟩ := defined_cons.mp language
    obtain ⟨bound, smallLater⟩ := List.forall_mem_cons.mp small
    rcases source with ⟨implicit, rfl⟩ | ⟨expr, explicit, denotes⟩
    · obtain rfl : nextValue = value := inStep.elim id fun isExplicit => absurd implicit (isExplicit member rfl)
      obtain ⟨rest, doneLater, rfl⟩ := (assign_implicit implicit).mp done
      obtain ⟨rfl, nonneg'⟩ := ih doneLater later skips.2 smallLater (by omega)
        (.inl (wrapInt32_succ nonneg bound))
      exact ⟨rfl, List.forall_mem_cons.mpr ⟨nonneg, nonneg'⟩⟩
    · obtain ⟨taken, next, taking, rest, doneLater, rfl⟩ := (assign_explicit explicit).mp done
      rcases tryAssign_cases taking with ⟨-, same, nonneg, rfl⟩ | ⟨skipped, rfl, rfl⟩
      · obtain rfl := Option.some.inj (denotes.symm.trans same)
        obtain ⟨rfl, nonneg'⟩ := ih doneLater later skips.2 smallLater (by omega)
          (.inl (wrapInt32_succ nonneg bound))
        exact ⟨rfl, List.forall_mem_cons.mpr ⟨nonneg, nonneg'⟩⟩
      · obtain ⟨zero, isExplicit⟩ := skips.1 expr explicit skipped
        obtain rfl := Option.some.inj (denotes.symm.trans zero)
        obtain ⟨rfl, nonneg'⟩ := ih doneLater later skips.2 smallLater (by omega) (.inr isExplicit)
        exact ⟨rfl, List.forall_mem_cons.mpr ⟨Int.le_refl 0, nonneg'⟩⟩

theorem skipsHarmless_of_defined {earlier : List Int} (done : assignEnumMemberValues nextValue members = some values)
    (language : definedValues k members = some values) (small : ∀ value ∈ values, 0 ≤ value ∧ value < 2 ^ 24)
    (nodup : (earlier ++ values).Nodup) (counted : nextValue = 0 ∨ ∃ value ∈ earlier, nextValue = value + 1) :
    SkipsHarmless members := by
  induction members generalizing nextValue k values earlier with
  | nil => trivial
  | cons member members ih =>
    obtain ⟨value, source, rest, later, rfl⟩ := defined_cons.mp language
    obtain ⟨⟨nonneg, bound⟩, smallLater⟩ := List.forall_mem_cons.mp small
    have nodup' : ((earlier ++ [value]) ++ rest).Nodup := by rwa [List.append_assoc]
    have last : value ∈ earlier ++ [value] := List.mem_append_right _ List.mem_cons_self
    cases explicit : member.valueExpr with
    | none =>
      obtain ⟨rest', doneLater, same⟩ := (assign_implicit explicit).mp done
      obtain ⟨rfl, rfl⟩ := List.cons.inj same
      refine ⟨fun expr isExpr => (nomatch explicit.symm.trans isExpr), ?_⟩
      exact ih doneLater later smallLater nodup' (.inr ⟨_, last, wrapInt32_succ nonneg bound⟩)
    | some expr =>
      obtain ⟨taken, next, taking, rest', doneLater, same⟩ := (assign_explicit explicit).mp done
      obtain ⟨rfl, rfl⟩ := List.cons.inj same
      rcases tryAssign_cases taking with ⟨folds, -, -, rfl⟩ | ⟨-, rfl, rfl⟩
      · refine ⟨fun other isExpr skipped => ?_, ih doneLater later smallLater nodup'
          (.inr ⟨_, last, wrapInt32_succ nonneg bound⟩)⟩
        obtain rfl := Option.some.inj (explicit.symm.trans isExpr)
        rw [folds] at skipped
        cases skipped
      · have harmless := ih doneLater later smallLater nodup' (counted.imp id fun ⟨other, member, same⟩ =>
          ⟨other, List.mem_append_left _ member, same⟩)
        refine ⟨fun other isExpr _ => ⟨?_, ?_⟩, harmless⟩
        · rcases source with ⟨implicit, -⟩ | ⟨_, isExpr', denotes⟩
          · exact nomatch implicit.symm.trans isExpr
          · obtain rfl := Option.some.inj (isExpr'.symm.trans isExpr)
            exact denotes
        · -- an implicit member would be counted from an earlier 0
          intro after first implicit
          obtain ⟨members', rfl⟩ : ∃ members', members = after :: members' := List.head?_eq_some_iff.mp first
          obtain ⟨_, -, same⟩ := (assign_implicit implicit).mp doneLater
          obtain ⟨_, source', _, -, same'⟩ := defined_cons.mp later
          rcases source' with ⟨-, rfl⟩ | ⟨_, isExpr, -⟩
          · cases same
            have one := (List.cons.inj same').1
            rcases counted with zero | ⟨other, inside, count⟩
            · omega
            · obtain rfl : other = 0 := by omega
              exact (List.nodup_append.mp nodup).2.2 0 inside 0 List.mem_cons_self rfl
          · exact nomatch implicit.symm.trans isExpr

end Assign

section Table
variable {pairs : List (Text × Int)} {names : List Text} {name other : Text} {value : Int} {k : Nat}

theorem putName_neg (negative : value < 0) : putName names value name = names := if_pos negative

theorem putName_length (nonneg : 0 ≤ value) :
    (putName names value name).length = max names.length (value.toNat + 1) := by
  rw [putName, if_neg (Int.not_lt.mpr nonneg), List.length_set, List.length_append, List.length_replicate]
  omega

theorem putName_getElem? (nonneg : 0 ≤ value) (nonempty : other ≠ []) :
    (putName names value name)[k]? = some other ↔
      if k = value.toNat then name = other else names[k]? = some other := by
  have inside : value.toNat < (names ++ List.replicate (value.toNat + 1 - names.length) []).length := by
    rw [List.length_append, List.length_replicate]
    omega
  rw [putName, if_neg (Int.not_lt.mpr nonneg), List.getElem?_set]
  by_cases here : k = value.toNat
  · rw [if_pos here, if_pos here.symm, if_pos inside, Option.some_inj]
  · rw [if_neg here, if_neg (Ne.symm here)]
    by_cases old : k < names.length
    · rw [List.getElem?_append_left old]
    · rw [List.getElem?_append_right (Nat.le_of_not_lt old), List.getElem?_eq_none (Nat.le_of_not_lt old)]
      refine ⟨fun gap => ?_, nofun⟩
      exact absurd (List.eq_of_mem_replicate (List.mem_of_getElem? gap)) nonempty

theorem registerEnum_concat (pair : Text × Int) :
    registerEnum (pairs ++ [pair]) = putName (registerEnum pairs) pair.2 pair.1 :=
  List.foldl_concat ..

theorem mem_of_registered (nonempty : name ≠ []) (found : (registerEnum pairs)[k]? = some name) :
    (name, (k : Int)) ∈ pairs := by
  induction pairs using List.reverseRecOn with
  | nil => cases found
  | append_singleton pairs pair ih =>
    obtain ⟨last, value⟩ := pair
    rw [registerEnum_concat] at found
    by_cases negative : value < 0
    · rw [putName_neg negative] at found
      exact List.mem_append_left _ (ih found)
    · rw [putName_getElem? (Int.not_lt.mp negative) nonempty] at found
      split at found
      · rename_i here
        have same : value = (k : Int) := by omega
        rw [← found, ← same]
        exact List.mem_append_right _ List.mem_cons_self
      · exact List.mem_append_left _ (ih found)

theorem registered_of_mem (nonempty : ∀ pair ∈ pairs, pair.1 ≠ []) (member : (name, (k : Int)) ∈ pairs) :
    ∃ other, (registerEnum pairs)[k]? = some other ∧ (other, (k : Int)) ∈ pairs := by
  induction pairs using List.reverseRecOn with
  | nil => cases member
  | append_singleton pairs pair ih =>
    obtain ⟨last, value⟩ := pair
    rw [registerEnum_concat]
    obtain ⟨nonempty, lastNonempty⟩ := List.forall_mem_append.mp nonempty
    by_cases here : value = (k : Int)
    · refine ⟨last, ?_, List.mem_append_right _ (here ▸ List.mem_cons_self)⟩
      rw [putName_getElem? (by omega) (lastNonempty _ List.mem_cons_self), if_pos (by omega)]
    · have before : (name, (k : Int)) ∈ pairs := by
        rcases List.mem_append.mp member with before | isLast
        · exact before
        · exact absurd (Prod.mk.inj (List.mem_singleton.mp isLast)).2.symm here
      obtain ⟨other, found, member⟩ := ih nonempty before
      refine ⟨other, ?_, List.mem_append_left _ member⟩
      by_cases negative : value < 0
      · rw [putName_neg negative, found]
      · rw [putName_getElem? (Int.not_lt.mp negative) (nonempty _ member), if_neg (by omega)]
        exact found

theorem registerEnum_length_le (bound : Nat) (nonneg : ∀ pair ∈ pairs, 0 ≤ pair.2) :
    (registerEnum pairs).length ≤ bound ↔ ∀ pair ∈ pairs, pair.2 < bound := by
  induction pairs using List.reverseRecOn with
  | nil => exact ⟨fun _ => nofun, fun _ => Nat.zero_le _⟩
  | append_singleton pairs pair ih =>
    obtain ⟨nonneg, last⟩ := List.forall_mem_append.mp nonneg
    have last := last pair List.mem_cons_self
    rw [registerEnum_concat, putName_length last, Nat.max_le, ih nonneg, List.forall_mem_append,
      List.forall_mem_singleton]
    exact and_congr_right fun _ => by omega

theorem mem_createEnumStub : (name, value) ∈ createEnumStub names ↔
    name ≠ [] ∧ ∃ k : Nat, value = k ∧ names[k]? = some name := by
  simp only [createEnumStub, List.mem_filterMap, Prod.exists, List.mem_zipIdx_iff_getElem?,
    Option.ite_none_left_eq_some, Option.some_inj, Prod.mk.injEq]
  constructor
  · rintro ⟨other, index, found, nonempty, rfl, rfl⟩
    exact ⟨nonempty, index, rfl, found⟩
  · rintro ⟨nonempty, index, rfl, found⟩
    exact ⟨name, index, found, nonempty, rfl, rfl⟩

end Table

namespace SnEnumDecl
variable {decl : SnEnumDecl} {values : List Int}

theorem map_fst_pairs (same : values.length = decl.members.length) :
    (decl.pairs values).map Prod.fst = decl.members.map (·.name.text) :=
  List.map_fst_zip (by rw [List.length_map, same])

theorem map_snd_pairs (same : values.length = decl.members.length) : (decl.pairs values).map Prod.snd = values :=
  List.map_snd_zip (by rw [List.length_map, same])

theorem pairs_nodup (same : values.length = decl.members.length) : (decl.pairs values).Nodup :=
  List.Nodup.of_map Prod.fst (by rw [map_fst_pairs same]; exact decl.distinct)

theorem exists_member {pair : Text × Int} (inside : pair ∈ decl.pairs values) :
    ∃ member ∈ decl.members, member.name.text = pair.1 :=
  List.mem_map.mp (List.of_mem_zip inside).1

theorem pairs_nonempty : ∀ pair ∈ decl.pairs values, pair.1 ≠ [] := by
  intro pair inside
  obtain ⟨member, -, name⟩ := exists_member inside
  exact name ▸ member.name.nonempty

theorem nonneg_of_mem (nonneg : ∀ value ∈ values, 0 ≤ value) : ∀ pair ∈ decl.pairs values, 0 ≤ pair.2 :=
  fun _ inside => nonneg _ (List.of_mem_zip inside).2

theorem loadEnumNames_eq_some {names loaded : List Text} : loadEnumNames names = some loaded ↔
    (names.length ≤ recordBound ∧ ∀ name ∈ names, recordLength name ≤ recordBound) ∧
      names.map (fun name => name.take (recordLength name)) = loaded := by
  rw [loadEnumNames, Option.ite_none_right_eq_some, Option.some_inj]

theorem Agrees.registered (agrees : decl.Agrees values) {name : Text} {value : Int}
    (inside : (name, value) ∈ decl.pairs values) : ∃ k : Nat, value = k ∧ ∃ full,
      (registerEnum (decl.pairs values))[k]? = some full ∧ recordLength full ≤ recordBound ∧
        name = full.take (recordLength full) ∧ (full, value) ∈ decl.pairs values := by
  obtain ⟨names, loaded, stub⟩ := agrees.stub
  obtain ⟨⟨-, lengths⟩, rfl⟩ := loadEnumNames_eq_some.mp loaded
  obtain ⟨nonempty, k, rfl, found⟩ := mem_createEnumStub.mp ((stub _).mpr inside)
  rw [List.getElem?_map, Option.map_eq_some_iff] at found
  obtain ⟨full, found, rfl⟩ := found
  refine ⟨k, rfl, full, found, lengths full (List.mem_of_getElem? found), rfl, mem_of_registered ?_ found⟩
  rintro rfl
  exact nonempty List.take_nil

theorem Agrees.inj (agrees : decl.Agrees values) : ∀ pair ∈ decl.pairs values, ∀ other ∈ decl.pairs values,
    pair.2 = other.2 → pair = other := by
  rintro ⟨name, value⟩ inside ⟨other, -⟩ inside' rfl
  obtain ⟨k, rfl, full, found, -, rfl, -⟩ := agrees.registered inside
  obtain ⟨k', same, full', found', -, rfl, -⟩ := agrees.registered inside'
  obtain rfl := Int.ofNat.inj same
  obtain rfl := Option.some.inj (found.symm.trans found')
  rfl

theorem Agrees.plain (agrees : decl.Agrees values) (accepted : decl.Accepted values) : decl.Plain := by
  have same := defined_length agrees.defined
  have nonneg : ∀ value ∈ values, 0 ≤ value := by
    intro value inside
    obtain ⟨k, rfl, -⟩ := agrees.table value inside
    exact Int.natCast_nonneg k
  have nodup : values.Nodup := by
    rw [← map_snd_pairs same]
    exact List.Nodup.map_on agrees.inj (pairs_nodup same)
  have small : ∀ value ∈ values, value < 2 ^ 24 := by
    obtain ⟨names, loaded, -⟩ := agrees.stub
    have bounded := (registerEnum_length_le recordBound (nonneg_of_mem nonneg)).mp
      (loadEnumNames_eq_some.mp loaded).1.1
    rw [← map_snd_pairs same]
    exact List.forall_mem_map.mpr bounded
  refine ⟨?_, ?_, values, agrees.defined, nodup, small⟩
  · have apart : (([] : List Int) ++ values).Nodup := nodup
    exact skipsHarmless_of_defined accepted agrees.defined
      (fun value inside => ⟨nonneg value inside, small value inside⟩) apart (.inl rfl)
  · intro member inside
    have named : member.name.text ∈ (decl.pairs values).map Prod.fst := by
      rw [map_fst_pairs same]
      exact List.mem_map_of_mem inside
    obtain ⟨⟨name, value⟩, inside, named⟩ := List.mem_map.mp named
    have named : name = member.name.text := named
    obtain ⟨k, -, full, -, bound, cut, inside'⟩ := agrees.registered inside
    obtain ⟨rfl, -⟩ := Prod.mk.inj (agrees.inj _ inside _ inside' rfl)
    have whole : name.length ≤ recordLength name := by
      have := congrArg List.length cut
      rw [List.length_take] at this
      omega
    exact named ▸ whole.trans bound

theorem Plain.agrees (plain : decl.Plain) (accepted : decl.Accepted values) : decl.Agrees values := by
  obtain ⟨defined, language, nodup, small⟩ := plain.values
  obtain ⟨rfl, nonneg⟩ := assigned_eq_defined accepted language plain.skips small (Int.le_refl 0) (.inl rfl)
  have same := defined_length language
  have nodup : ((decl.pairs values).map Prod.snd).Nodup := by rwa [map_snd_pairs same]
  have lengths : ∀ name ∈ registerEnum (decl.pairs values), name.length ≤ recordBound := by
    intro name inside
    obtain ⟨k, found⟩ := List.mem_iff_getElem?.mp inside
    by_cases empty : name = []
    · exact empty ▸ Nat.zero_le _
    · obtain ⟨member, inside, named⟩ := exists_member (mem_of_registered empty found)
      have named : member.name.text = name := named
      exact named ▸ plain.names member inside
  have whole : ∀ name ∈ registerEnum (decl.pairs values), recordLength name = name.length :=
    fun name inside => Nat.mod_eq_of_lt (Nat.lt_of_le_of_lt (lengths name inside) (by decide))
  refine ⟨language, ?_, registerEnum (decl.pairs values), loadEnumNames_eq_some.mpr ⟨⟨?_, ?_⟩, ?_⟩, ?_⟩
  · intro value inside
    obtain ⟨k, rfl⟩ := Int.eq_ofNat_of_zero_le (nonneg value inside)
    rw [← map_snd_pairs same] at inside
    obtain ⟨⟨name, -⟩, inside, rfl⟩ := List.mem_map.mp inside
    exact ⟨k, rfl, registered_of_mem pairs_nonempty inside⟩
  · exact (registerEnum_length_le recordBound (nonneg_of_mem nonneg)).mpr
      fun pair inside => small _ (List.of_mem_zip inside).2
  · intro name inside
    rw [whole name inside]
    exact lengths name inside
  · refine (List.map_congr_left fun name inside => ?_).trans (List.map_id _)
    rw [whole name inside, List.take_length, id]
  · rintro ⟨name, value⟩
    rw [mem_createEnumStub]
    constructor
    · rintro ⟨nonempty, k, rfl, found⟩
      exact mem_of_registered nonempty found
    · intro inside
      obtain ⟨k, rfl⟩ := Int.eq_ofNat_of_zero_le (nonneg value (List.of_mem_zip inside).2)
      obtain ⟨other, found, inside'⟩ := registered_of_mem pairs_nonempty inside
      obtain ⟨rfl, -⟩ := Prod.mk.inj (List.inj_on_of_nodup_map nodup inside' inside rfl)
      exact ⟨pairs_nonempty _ inside, k, rfl, found⟩

end SnEnumDecl

/-- Enum values agree everywhere for the declarations whose values are small, different and got from `int` literals,
and for no others. -/
theorem enumValues_agree_iff (decl : SnEnumDecl) (values : List Int) (accepted : decl.Accepted values) :
    decl.Agrees values ↔ decl.Plain :=
  ⟨fun agrees => agrees.plain accepted, fun plain => plain.agrees accepted⟩

def direction : SnEnumDecl where
  members := [{ name := { text := [78] } },
    { name := { text := [69] }, valueExpr := some (.literal { kind := .int32, value := 90 }) },
    { name := identifierS }]
  distinct := by decide

theorem direction_agrees : direction.Agrees [0, 90, 91] := by
  refine (enumValues_agree_iff direction [0, 90, 91] rfl).mpr
    ⟨?_, by decide, [0, 90, 91], rfl, by decide, by decide⟩
  refine ⟨nofun, ?_, nofun, trivial⟩
  rintro expr ⟨⟩ ⟨⟩

def computedEnum : SnEnumDecl where
  members := [{ name := identifierA, valueExpr := some (.other .int32 (some 3)) }, { name := { text := [66] } }]
  distinct := by decide

theorem computedEnum_disagrees : computedEnum.Accepted [0, 0] ∧ ¬ computedEnum.Agrees [0, 0] :=
  ⟨rfl, fun agrees => nomatch agrees.defined⟩

end NLang.Compiler
