import NLang.Compiler.Declarations

/-!
# Class stubs

What `BuildFromCompiledModule` puts into the tree of a consumer for the classes of an image, as far as references to
their members read it.
-/

namespace NLang.Compiler
open NLang.Library.Words NLang.Image

def leafIdentifier (key : Text) : Option Identifier :=
  if nonempty : leafNameOfKey key ≠ [] then some ⟨leafNameOfKey key, dot_notMem_leafNameOfKey key, nonempty⟩ else none

def createFunctionStub (cf : CompiledFunction) (access : UInt8) (isVirtual : Bool) : Option SnFunction :=
  (leafIdentifier cf.name).map fun name =>
    { name, params := cf.paramCount.toNat, access, isStatic := cf.isStatic, isVirtual, hasBody := false }

def createMethodStub (cf : CompiledFunction) (access : UInt8) (isVirtual : Bool) : Option SnFunction :=
  if cf.paramCount < 1 then none
  else (leafIdentifier cf.name).map fun name =>
    { name, params := cf.paramCount.toNat - 1, access, isStatic := cf.isStatic, isVirtual, hasBody := false }

section Stub
variable (cm : CompiledModule) (cc : CompiledClass)

def accessAt (access : List UInt8) (entry : Nat) : UInt8 := access.getD entry accessPublic

def stubOfMethod (entry : UInt16 × Nat) : Option SnFunction :=
  (cm.functions[entry.1.toNat]?).bind fun cf =>
    (if cf.isStatic then createFunctionStub else createMethodStub) cf (accessAt cc.methodAccess entry.2)
      (cc.methodVirtual.getD entry.2 0 ≠ 0)

def stubOfConstructor (entry : UInt16 × Nat) : Option SnFunction :=
  (cm.functions[entry.1.toNat]?).bind fun cf => createMethodStub cf (accessAt cc.constructorAccess entry.2) false

def stubMethods : List (UInt16 × Nat) :=
  cc.methodIndices.zipIdx.filter fun entry =>
    decide (entry.1 ∉ cc.constructorIndices) && decide (entry.1.toNat < cm.functions.length)

def stubConstructors : List (UInt16 × Nat) :=
  cc.constructorIndices.zipIdx.filter fun entry => entry.1.toNat < cm.functions.length

def stubFields : Nat := min cc.fieldCount.toNat cc.fieldNames.length

def stubStaticInit : Option (List SnFunction) :=
  if cc.staticInitFuncIdx = noIndex then some []
  else
    match cm.functions[cc.staticInitFuncIdx.toNat]? with
    | none => some []
    | some cf => (createFunctionStub cf accessPublic false).map fun fn => [fn]

def createClassStub : Option SnClassDecl := do
  let name ← leafIdentifier cc.name
  let methods ← (stubMethods cm cc).mapM (stubOfMethod cm cc)
  let constructors ← (stubConstructors cm cc).mapM (stubOfConstructor cm cc)
  let staticInit ← stubStaticInit cm cc
  some
    { name
      members := List.replicate (stubFields cc) .classField ++ (methods ++ constructors).map .function ++
        (List.replicate cc.staticFields.length .classField ++ staticInit.map .function) }

def mintedRows : List Text → List CompiledClass → List CompiledClass
  | _, [] => []
  | rootNames, cc :: rest =>
    if leafNameOfKey cc.name ∈ rootNames then mintedRows rootNames rest
    else cc :: mintedRows (leafNameOfKey cc.name :: rootNames) rest

end Stub

theorem leaf_notMem_of_minted {cc : CompiledClass} {rootNames : List Text} {rows : List CompiledClass}
    (minted : cc ∈ mintedRows rootNames rows) : leafNameOfKey cc.name ∉ rootNames := by
  induction rows generalizing rootNames with
  | nil => cases minted
  | cons row rows ih =>
    unfold mintedRows at minted
    split at minted
    · exact ih minted
    · rename_i fresh
      rcases List.mem_cons.mp minted with rfl | later
      · exact fresh
      · intro present
        exact ih later (List.mem_cons_of_mem _ present)

theorem find?_of_minted {cc : CompiledClass} {rootNames : List Text} {rows : List CompiledClass}
    (minted : cc ∈ mintedRows rootNames rows) : rows.find? (·.name = cc.name) = some cc := by
  induction rows generalizing rootNames with
  | nil => cases minted
  | cons row rows ih =>
    unfold mintedRows at minted
    split at minted
    · rename_i taken
      have apart : row.name ≠ cc.name := by
        intro same
        rw [same] at taken
        exact leaf_notMem_of_minted minted taken
      rw [List.find?_cons_of_neg (by simpa using apart)]
      exact ih minted
    · rcases List.mem_cons.mp minted with rfl | later
      · exact List.find?_cons_of_pos (decide_eq_true rfl)
      · have apart : row.name ≠ cc.name := by
          intro same
          apply leaf_notMem_of_minted later
          rw [same]
          exact List.mem_cons_self
        rw [List.find?_cons_of_neg (by simpa using apart)]
        exact ih later

theorem filterMap_functionAt_fields (count start : Nat) :
    ((List.replicate count SnMember.classField).zipIdx start).filterMap functionAt = [] := by
  rw [List.filterMap_eq_nil_iff]
  rintro ⟨member, position⟩ inside
  obtain rfl := List.eq_of_mem_replicate (List.fst_mem_of_mem_zipIdx inside)
  rfl

theorem filterMap_functionAt_functions (fns : List SnFunction) (start : Nat) :
    ((fns.map SnMember.function).zipIdx start).filterMap functionAt = (fns.zipIdx start).map Prod.swap := by
  rw [List.zipIdx_map, List.filterMap_map, ← List.filterMap_eq_map]
  rfl

theorem functions_createClassStub {cm : CompiledModule} {cc : CompiledClass} {stub : SnClassDecl}
    (created : createClassStub cm cc = some stub) :
    ∃ name methods constructors, leafIdentifier cc.name = some name ∧
      (stubMethods cm cc).mapM (stubOfMethod cm cc) = some methods ∧
      (stubConstructors cm cc).mapM (stubOfConstructor cm cc) = some constructors ∧
      stub.name = name ∧
      ((methods ++ constructors).zipIdx (stubFields cc)).map Prod.swap <+:
        stub.functions := by
  unfold createClassStub at created
  simp only [Option.bind_eq_bind, Option.bind_eq_some_iff, Option.some.injEq] at created
  obtain ⟨name, named, methods, methodStubs, constructors, constructorStubs, staticInit, -, rfl⟩ := created
  refine ⟨name, methods, constructors, named, methodStubs, constructorStubs, rfl, ?_⟩
  show _ <+: memberFunctions (_ ++ _ ++ _)
  generalize methods ++ constructors = fns
  unfold memberFunctions
  rw [List.zipIdx_append, List.zipIdx_append, List.filterMap_append, List.filterMap_append, filterMap_functionAt_fields,
    filterMap_functionAt_functions, List.nil_append, List.length_replicate, Nat.zero_add]
  exact List.prefix_append _ _

end NLang.Compiler
