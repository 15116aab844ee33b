import NLang.Compiler.ClassStubs
import NLang.Linker.MemberOrdinals

/-!
# Ordinals of stub members

A consumer of an image counts over the stubs that it made of the tables. As long as the tables hold the indices of
their functions, these are the members of the class, the methods first.
-/

namespace NLang.Linker
open NLang.Library.Words NLang.Library.Keyed NLang.Image NLang.Compiler NLang.Backend

theorem map_of_mapM {α β γ : Type} {f : α → Option β} {g : β → γ} {h : α → γ} {as : List α} {bs : List β}
    (made : as.mapM f = some bs) (each : ∀ a ∈ as, ∀ b, f a = some b → g b = h a) : bs.map g = as.map h := by
  induction as generalizing bs with
  | nil =>
    cases made
    rfl
  | cons a as ih =>
    simp only [List.mapM_cons, Option.bind_eq_bind, Option.bind_eq_some_iff, Option.pure_def,
      Option.some.injEq] at made
    obtain ⟨b, here, rest, there, rfl⟩ := made
    obtain ⟨atHead, atTail⟩ := List.forall_mem_cons.mp each
    rw [List.map_cons, List.map_cons, atHead b here, ih there atTail]

theorem findIdx?_positions (fns : List SnFunction) (start k : Nat) (inside : k < fns.length) :
    ((fns.zipIdx start).map Prod.swap).findIdx? (·.1 = start + k) = some k := by
  rw [List.findIdx?_eq_some_iff_getElem]
  refine ⟨by simpa using inside, ?_, ?_⟩
  · simp
  · intro earlier before
    simpa using Nat.ne_of_lt before

def shapeOf (fn : SnFunction) : Text × Bool := (fn.name.text, fn.isStatic)

theorem shapeOf_stub {cf : CompiledFunction} {access : UInt8} {isVirtual : Bool} {fn : SnFunction}
    (made : createMethodStub cf access isVirtual = some fn ∨ createFunctionStub cf access isVirtual = some fn) :
    shapeOf fn = (leafNameOfKey cf.name, cf.isStatic) := by
  have named : ∀ name, leafIdentifier cf.name = some name → name.text = leafNameOfKey cf.name := by
    intro name found
    unfold leafIdentifier at found
    split at found
    · cases found
      rfl
    · cases found
  rcases made with method | function
  · unfold createMethodStub at method
    split at method
    · cases method
    · obtain ⟨name, found, rfl⟩ := Option.map_eq_some_iff.mp method
      rw [← named name found]
      rfl
  · obtain ⟨name, found, rfl⟩ := Option.map_eq_some_iff.mp function
    rw [← named name found]
    rfl

section Row
variable {build : Build} {unit : Nat} {image : CompiledModule} {last : ClassEntry} {base : Nat} {cc : CompiledClass}

def Fits (base : Nat) (cls : SnClassDecl) : Prop := ∀ member ∈ implemented cls, base + placeIn cls member < 2 ^ 16

def shapeAt (image : CompiledModule) (mi : UInt16) : Option (Text × Bool) :=
  (image.functions[mi.toNat]?).map fun cf => (leafNameOfKey cf.name, cf.isStatic)

theorem shapeAt_entryOf (loaded : LoadedImageOf build unit image) (placed : BaseOf build unit last base)
    (registers : Registers build unit last) (fits : Fits base last.cls) {member : Nat × SnFunction}
    (inside : member ∈ implemented last.cls) :
    shapeAt image (entryOf base last.cls member) = some (shapeOf member.2) := by
  have index : (entryOf base last.cls member).toNat = base + placeIn last.cls member := by
    unfold entryOf
    rw [UInt16.toNat_ofNat']
    exact Nat.mod_eq_of_lt (fits member inside)
  have entry := placed.entryAt _ member (implemented_placeIn inside)
  have signatures := congrArg (·[base + placeIn last.cls member]?) loaded.functions
  simp only [List.getElem?_map, entry, Option.map_some] at signatures
  obtain ⟨cf, own, signature⟩ := Option.map_eq_some_iff.mp signatures
  have found : image.functions[base + placeIn last.cls member]? = some cf := by
    obtain ⟨bound, -⟩ := List.getElem?_eq_some_iff.mp own
    unfold CompiledModule.ownFunctions at own bound
    rw [List.length_take] at bound
    rw [List.getElem?_take_of_lt (by omega)] at own
    exact own
  have name : cf.name = member.2.name.text := by
    refine (congrArg FunctionSignature.name signature).trans ?_
    show build.functionKey last.decl member.2 = _
    unfold Build.functionKey
    rw [registers.isClass]
  have static : cf.isStatic = member.2.isStatic := congrArg FunctionSignature.isStatic signature
  unfold shapeAt shapeOf
  rw [index, found, Option.map_some, name, static, leafNameOfKey_of_no_dot member.2.name.noDot]

theorem shapes_of_table (loaded : LoadedImageOf build unit image) (placed : BaseOf build unit last base)
    (registers : Registers build unit last) (fits : Fits base last.cls) {entries : List (UInt16 × Nat)}
    {members : List (Nat × SnFunction)} (table : entries.map Prod.fst = members.map (entryOf base last.cls))
    (inside : ∀ member ∈ members, member ∈ implemented last.cls) {stubOf : UInt16 × Nat → Option SnFunction}
    (shaped : ∀ entry fn, stubOf entry = some fn → shapeAt image entry.1 = some (shapeOf fn)) {fns : List SnFunction}
    (made : entries.mapM stubOf = some fns) : fns.map shapeOf = members.map (shapeOf ·.2) := by
  have some_shapes : fns.map (some ∘ shapeOf) = entries.map (shapeAt image ∘ Prod.fst) :=
    map_of_mapM made fun entry _ fn stub => (shaped entry fn stub).symm
  have shapes : entries.map (shapeAt image ∘ Prod.fst) = members.map (some ∘ fun member => shapeOf member.2) := by
    rw [← List.map_map, table, List.map_map]
    apply List.map_congr_left
    intro member here
    exact shapeAt_entryOf loaded placed registers fits (inside member here)
  rw [shapes, ← List.map_map, ← List.map_map] at some_shapes
  exact List.map_injective_iff.mpr (Option.some_injective _) some_shapes

theorem shapeAt_stubOfMethod {entry : UInt16 × Nat} {fn : SnFunction} (stub : stubOfMethod image cc entry = some fn) :
    shapeAt image entry.1 = some (shapeOf fn) := by
  obtain ⟨cf, found, made⟩ := Option.bind_eq_some_iff.mp stub
  have shape : shapeOf fn = (leafNameOfKey cf.name, cf.isStatic) := by
    cases static : cf.isStatic with
    | true =>
      rw [← static]
      simp only [static, if_true] at made
      exact shapeOf_stub (.inr made)
    | false =>
      rw [← static]
      simp only [static, Bool.false_eq_true, if_false] at made
      exact shapeOf_stub (.inl made)
  rw [shapeAt, found, shape]
  rfl

theorem shapeAt_stubOfConstructor {entry : UInt16 × Nat} {fn : SnFunction}
    (stub : stubOfConstructor image cc entry = some fn) : shapeAt image entry.1 = some (shapeOf fn) := by
  obtain ⟨cf, found, made⟩ := Option.bind_eq_some_iff.mp stub
  rw [shapeAt, found, shapeOf_stub (.inl made)]
  rfl

theorem inFunctions (row : RowOf image base last.cls cc) {member : Nat × SnFunction}
    (inside : member ∈ implemented last.cls) :
    (entryOf base last.cls member).toNat < image.functions.length := by
  refine Nat.lt_of_lt_of_le (row.entryOf_lt inside) ?_
  unfold CompiledModule.ownFunctions
  rw [List.length_take]
  exact Nat.min_le_right _ _

theorem stubMethods_fst (row : RowOf image base last.cls cc) :
    (stubMethods image cc).map Prod.fst = (siblings last.cls false).map (entryOf base last.cls) := by
  have filtered : (stubMethods image cc).map Prod.fst = cc.methodIndices.filter fun mi =>
      decide (mi ∉ cc.constructorIndices) && decide (mi.toNat < image.functions.length) := by
    unfold stubMethods
    conv_rhs => rw [← List.zipIdx_map_fst 0 cc.methodIndices, List.filter_map]
    rfl
  rw [filtered, ← row.filter_methodEntry, row.methods]
  apply List.filter_congr
  intro mi present
  obtain ⟨member, inside, rfl⟩ := List.mem_map.mp present
  have registered := listed_implemented inside
  unfold methodEntry isCtorMethodEntry
  rw [decide_eq_true (inFunctions row registered), decide_eq_true (row.entryOf_lt registered), Bool.and_true,
    Bool.true_and]
  exact decide_not

theorem stubConstructors_fst (row : RowOf image base last.cls cc) :
    (stubConstructors image cc).map Prod.fst = (siblings last.cls true).map (entryOf base last.cls) := by
  have filtered : (stubConstructors image cc).map Prod.fst = cc.constructorIndices.filter fun mi =>
      mi.toNat < image.functions.length := by
    unfold stubConstructors
    conv_rhs => rw [← List.zipIdx_map_fst 0 cc.constructorIndices, List.filter_map]
    rfl
  rw [filtered, List.filter_eq_self.mpr ?_, row.constructors]
  intro mi present
  rw [row.constructors] at present
  obtain ⟨member, inside, rfl⟩ := List.mem_map.mp present
  exact decide_eq_true (inFunctions row (listed_implemented (mem_siblings.mp inside).1))

theorem isCtor_congr {first second : SnClassDecl} {fn member : SnFunction} (named : first.name.text = second.name.text)
    (shape : shapeOf fn = shapeOf member) : first.isCtor fn = second.isCtor member := by
  obtain ⟨name, static⟩ := Prod.mk.inj shape
  unfold SnClassDecl.isCtor
  simp only [Identifier.ext_iff, named, name, static]

theorem counted_stub {stub : SnClassDecl} (named : stub.name.text = last.cls.name.text) {fns : List SnFunction}
    {list : Bool} (shapes : fns.map shapeOf = (siblings last.cls list).map (shapeOf ·.2)) (ctors : Bool)
    {position : Nat} {fn : SnFunction} (inside : fn ∈ fns) :
    counted true stub ctors (position, fn) = decide (list = ctors) := by
  obtain ⟨member, listedMember, shape⟩ : ∃ member ∈ siblings last.cls list, shapeOf member.2 = shapeOf fn := by
    rw [← List.mem_map, ← shapes]
    exact List.mem_map_of_mem inside
  obtain ⟨present, ctor⟩ := mem_siblings.mp listedMember
  have ordinary : fn.isStaticInit = false := by
    have bindable := (List.mem_filter.mp present).2
    rw [Bool.not_eq_true'] at bindable
    rw [← bindable]
    unfold SnFunction.isStaticInit
    rw [(Prod.mk.inj shape).1]
  unfold counted
  simp only
  rw [ordinary, isCtor_congr named shape.symm, ctor]
  rfl

theorem filter_counted_stub {stub : SnClassDecl} (named : stub.name.text = last.cls.name.text) {fns : List SnFunction}
    {list : Bool} (shapes : fns.map shapeOf = (siblings last.cls list).map (shapeOf ·.2)) (ctors : Bool)
    (start : Nat) :
    ((fns.zipIdx start).map Prod.swap).filter (counted true stub ctors) =
      if list = ctors then (fns.zipIdx start).map Prod.swap else [] := by
  have each : ∀ member ∈ (fns.zipIdx start).map Prod.swap,
      counted true stub ctors member = decide (list = ctors) := by
    intro member inside
    obtain ⟨⟨fn, position⟩, pair, rfl⟩ := List.mem_map.mp inside
    exact counted_stub named shapes ctors (List.fst_mem_of_mem_zipIdx pair)
  split
  · rename_i same
    rw [List.filter_eq_self]
    intro member inside
    rw [each member inside]
    exact decide_eq_true same
  · rename_i apart
    rw [List.filter_eq_nil_iff]
    intro member inside
    rw [each member inside, decide_eq_false apart]
    exact Bool.false_ne_true

structure StubLists (cls : SnClassDecl) (start : Nat) (stub : SnClassDecl) : Prop where
  named : stub.name.text = cls.name.text
  lists : ∃ methods constructors : List SnFunction, methods.map shapeOf = (siblings cls false).map (shapeOf ·.2) ∧
    constructors.map shapeOf = (siblings cls true).map (shapeOf ·.2) ∧
    ((methods ++ constructors).zipIdx start).map Prod.swap <+: stub.functions

def stubPosition (cls : SnClassDecl) (start : Nat) (ctors : Bool) (place : Nat) : Nat :=
  start + (if ctors then (siblings cls false).length else 0) + place

namespace StubLists
variable {cls : SnClassDecl} {start : Nat} {stub : SnClassDecl}

theorem memberOrdinal_stub (stubs : StubLists last.cls start stub) {ctors : Bool} {place : Nat}
    (inside : place < (siblings last.cls ctors).length) :
    memberOrdinal true stub (stubPosition last.cls start ctors place) ctors stub.functions 0 = UInt16.ofNat place := by
  obtain ⟨methods, constructors, methodShapes, constructorShapes, rest, functions⟩ := stubs.lists
  have methodCount : methods.length = (siblings last.cls false).length := by
    simpa using congrArg List.length methodShapes
  have constructorCount : constructors.length = (siblings last.cls true).length := by
    simpa using congrArg List.length constructorShapes
  rw [memberOrdinal_eq, ← functions, List.filter_append, List.zipIdx_append, List.map_append, List.filter_append,
    filter_counted_stub stubs.named methodShapes, filter_counted_stub stubs.named constructorShapes]
  unfold stubPosition
  cases ctors with
  | false =>
    simp only [Bool.true_eq_false, if_true, if_false, List.append_nil, Bool.false_eq_true, Nat.add_zero]
    rw [List.findIdx?_append, findIdx?_positions methods start place (by omega)]
    exact UInt16.zero_add _
  | true =>
    simp only [Bool.false_eq_true, if_true, if_false, List.nil_append]
    rw [List.findIdx?_append, ← methodCount,
      findIdx?_positions constructors (start + methods.length) place (by omega)]
    exact UInt16.zero_add _

theorem shape_at (stubs : StubLists cls start stub) {ctors : Bool} {place : Nat} {fn : SnFunction}
    {member : Nat × SnFunction} (there : (siblings cls ctors)[place]? = some member)
    (isMember : (stubPosition cls start ctors place, fn) ∈ stub.functions) : shapeOf fn = shapeOf member.2 := by
  obtain ⟨methods, constructors, methodShapes, constructorShapes, rest, functions⟩ := stubs.lists
  have methodCount : methods.length = (siblings cls false).length := by
    simpa using congrArg List.length methodShapes
  obtain ⟨other, found, shape⟩ : ∃ other, (methods ++ constructors)[
      (if ctors then (siblings cls false).length else 0) + place]? = some other ∧ shapeOf other = shapeOf member.2 := by
    cases ctors with
    | false =>
      have shapes := congrArg (·[place]?) methodShapes
      simp only [List.getElem?_map, there, Option.map_some] at shapes
      obtain ⟨other, found, shape⟩ := Option.map_eq_some_iff.mp shapes
      refine ⟨other, ?_, shape⟩
      simp only [Bool.false_eq_true, if_false, Nat.zero_add]
      rw [List.getElem?_append_left (List.getElem?_eq_some_iff.mp found).1]
      exact found
    | true =>
      have shapes := congrArg (·[place]?) constructorShapes
      simp only [List.getElem?_map, there, Option.map_some] at shapes
      obtain ⟨other, found, shape⟩ := Option.map_eq_some_iff.mp shapes
      refine ⟨other, ?_, shape⟩
      simp only [if_true]
      rw [← methodCount, List.getElem?_append_right (Nat.le_add_right _ _), Nat.add_sub_cancel_left]
      exact found
  have present : (stubPosition cls start ctors place, other) ∈ stub.functions := by
    rw [← functions]
    apply List.mem_append_left
    refine List.mem_map.mpr ⟨(other, stubPosition cls start ctors place), ?_, rfl⟩
    unfold stubPosition
    rw [Nat.add_assoc, List.mk_add_mem_zipIdx_iff_getElem?]
    exact found
  cases memberFunctions_unique isMember present rfl
  exact shape

end StubLists

theorem stubLists_of_created {stub : SnClassDecl} (loaded : LoadedImageOf build unit image)
    (placed : BaseOf build unit last base) (registers : Registers build unit last)
    (keyed : build.keyOf last.decl = cc.name) (fits : Fits base last.cls) (row : RowOf image base last.cls cc)
    (created : createClassStub image cc = some stub) : StubLists last.cls (stubFields cc) stub := by
  obtain ⟨name, methods, constructors, named, methodStubs, constructorStubs, stubName, functions⟩ :=
    functions_createClassStub created
  have inside : ∀ ctors, ∀ member ∈ siblings last.cls ctors, member ∈ implemented last.cls :=
    fun ctors member here => listed_implemented (mem_siblings.mp here).1
  refine ⟨?_, methods, constructors, ?_, ?_, functions⟩
  · have leaf : name.text = leafNameOfKey cc.name := by
      unfold leafIdentifier at named
      split at named
      · cases named
        rfl
      · cases named
    rw [stubName, leaf, ← keyed, build.leafNameOfKey_keyOf, registers.isClass]
    rfl
  · exact shapes_of_table loaded placed registers fits (stubMethods_fst row) (inside false)
      (fun _ _ => shapeAt_stubOfMethod) methodStubs
  · exact shapes_of_table loaded placed registers fits (stubConstructors_fst row) (inside true)
      (fun _ _ => shapeAt_stubOfConstructor) constructorStubs

end Row

section Origin
variable {build : Build} {unit : Nat} {image : CompiledModule}

structure StubOf {consumer : Build} (unit : Nat) (image : CompiledModule) (cc : CompiledClass)
    (member : MemberRef consumer) (origin : MemberRef build) : Prop where
  minted : ∃ rootNames, cc ∈ mintedRows rootNames image.ownClasses
  created : createClassStub image cc = some member.cls
  isImported : member.decl.isImported = true
  path : consumer.modulePathOf member.decl.owner = image.modulePath
  row : holder build unit cc.name = some origin.toClassEntry
  implements : isImplemented origin = true
  position : member.position = stubPosition origin.cls (stubFields cc) (origin.cls.isCtor origin.fn)
    (siblingPlace origin.cls (origin.position, origin.fn))

def IndicesFit (build : Build) (unit : Nat) (entry : ClassEntry) : Prop :=
  ∀ member ∈ implemented entry.cls, ∀ index, funcIndex build unit (entry.declIdx, member.1) = some index → index < 2 ^ 16

theorem refers_stub {consumer : Build} {member : MemberRef consumer} {origin : MemberRef build} {cc : CompiledClass}
    (loaded : LoadedImageOf build unit image) (stubOf : StubOf unit image cc member origin)
    (keyed : consumer.keyOf member.decl = cc.name) (fits : IndicesFit build unit origin.toClassEntry) :
    Refers origin (memberImport consumer member.decl member.cls member.position member.fn) := by
  obtain ⟨registers, key⟩ := holder_registers stubOf.row
  obtain ⟨rootNames, minted⟩ := stubOf.minted
  obtain ⟨base, row, placed, found, rowOf⟩ := exists_rowOf loaded stubOf.row
  cases Option.some.inj ((find?_of_minted minted).symm.trans found)
  have baseFits : Fits base origin.cls := by
    intro other inside
    exact fits other inside _ (funcIndex_member placed inside)
  have stubs : StubLists origin.cls (stubFields cc) member.cls :=
    stubLists_of_created loaded placed registers key baseFits rowOf stubOf.created
  have there : (siblings origin.cls (origin.cls.isCtor origin.fn))[
      siblingPlace origin.cls (origin.position, origin.fn)]? = some (origin.position, origin.fn) :=
    siblings_siblingPlace (mem_listed stubOf.implements)
  have ctor : member.cls.isCtor member.fn = origin.cls.isCtor origin.fn := by
    apply isCtor_congr stubs.named
    apply stubs.shape_at there
    rw [← stubOf.position]
    exact member.isMember
  refine ⟨?_, rfl, ?_, ?_⟩
  · exact keyed.trans key.symm
  · rw [importsMethod_memberImport, ctor]
  · rw [stubOf.implements, if_pos rfl]
    show memberOrdinal member.decl.isImported member.cls member.position (member.cls.isCtor member.fn)
      member.cls.functions 0 = _
    rw [stubOf.isImported, ctor, stubOf.position]
    exact stubs.memberOrdinal_stub (List.getElem?_eq_some_iff.mp there).1

theorem replays_stub {consumer : Build} {consumerUnit : Nat} {callee : Callee consumer} {origin : MemberRef build}
    {cc : CompiledClass} {units : List CompiledModule} {owner : Nat} {imp : SymbolImport}
    (loaded : LoadedImageOf build unit image) (distinct : (units.map (·.modulePath)).Nodup)
    (isUnit : units[owner]? = some image) (stubOf : StubOf unit image cc callee.recordOwner origin)
    (slot : functionSlotFor consumer consumerUnit callee = .imported imp)
    (keyed : consumer.keyOf callee.recordOwner.decl = cc.name) (fits : IndicesFit build unit origin.toClassEntry) :
    Replays units owner image (funcIndex build unit (origin.declIdx, origin.position)) imp := by
  have recorded : memberImport consumer callee.recordOwner.decl callee.recordOwner.cls callee.recordOwner.position
      callee.recordOwner.fn = imp := by
    unfold functionSlotFor at slot
    simp only at slot
    split at slot
    · cases slot
    · exact FunctionSlot.imported.inj slot
  have refers := refers_stub loaded stubOf keyed fits
  rw [recorded] at refers
  obtain ⟨registers, key⟩ := holder_registers stubOf.row
  have holds : holder build unit (build.keyOf origin.decl) = some origin.toClassEntry := by
    rw [← stubOf.row]
    exact congrArg _ key
  have provides : Provides units owner image imp := by
    refine ⟨distinct, isUnit, ?_⟩
    rw [← stubOf.path, ← recorded]
    rfl
  have indexed := funcIndex_origin origin registers
  rw [stubOf.implements] at indexed
  obtain ⟨index, found⟩ := Option.isSome_iff_exists.mp indexed
  have small : index < 2 ^ 16 :=
    fits (origin.position, origin.fn) (listed_implemented (mem_listed stubOf.implements)) index found
  rw [found, replays_some_iff loaded provides refers holds stubOf.implements]
  exact (records_own_iff loaded holds stubOf.implements found).mpr small

end Origin

/-- Every reference to a member of a class of another unit. Through the tree the ordinal selects the function of the
member in exactly the recorded cases, through an image wherever the row has the key of the stub and the tables hold the
indices of the class. -/
theorem member_ordinals_replay {build : Build} {unit : Nat} {image : CompiledModule} {units : List CompiledModule}
    {owner : Nat} (loaded : LoadedImageOf build unit image) (distinct : (units.map (·.modulePath)).Nodup)
    (isUnit : units[owner]? = some image) :
    (∀ (consumer : Build) (consumerUnit : Nat) (callee : Callee consumer) (origin : MemberRef build)
        (imp : SymbolImport), origin.decl.owner = some unit → SameMember callee.recordOwner origin →
      functionSlotFor consumer consumerUnit callee = .imported imp →
      (Replays units owner image (funcIndex build unit (origin.declIdx, origin.position)) imp ↔
        RecordsMember build unit origin)) ∧
    ∀ (consumer : Build) (consumerUnit : Nat) (callee : Callee consumer) (origin : MemberRef build)
        (cc : CompiledClass) (imp : SymbolImport), StubOf unit image cc callee.recordOwner origin →
      functionSlotFor consumer consumerUnit callee = .imported imp →
      consumer.keyOf callee.recordOwner.decl = cc.name → IndicesFit build unit origin.toClassEntry →
      Replays units owner image (funcIndex build unit (origin.declIdx, origin.position)) imp := by
  constructor
  · intro consumer consumerUnit callee origin imp owned same slot
    exact replays_iff_recordsMember loaded distinct isUnit owned same slot
  · intro consumer consumerUnit callee origin cc imp stubOf slot keyed fits
    exact replays_stub loaded distinct isUnit stubOf slot keyed fits

/-! ## Two overloads, one without a body

`class A { public static int f(int x); public static int f(string s) { ... } }` in `lib`, and a consumer `main`. -/

def declaredOverload : SnFunction := { name := identifierF, params := 1, access := 3, isStatic := true, hasBody := false }

def implementedOverload : SnFunction := { name := identifierF, params := 1, access := 3, isStatic := true }

def classA : SnClassDecl :=
  { name := identifierA, members := [.function declaredOverload, .function implementedOverload] }

def declA : Decl := { owner := some 0, node := .classDecl classA }

def libPath : Text := [108, 105, 98]

def mainPath : Text := [109, 97, 105, 110]

def overloads : Build where
  root := [declA]
  modules := [libPath, mainPath]
  attached := by
    intro decl inside cls node
    cases List.mem_singleton.mp inside
    cases node
    exact Genericity.noConfusion
  oneStaticInit := by
    intro decl inside cls node
    cases List.mem_singleton.mp inside
    cases node
    decide

def overloadAt (position : Nat) (fn : SnFunction) (isMember : (position, fn) ∈ classA.functions)
    (isBindable : fn.isStaticInit = false) : MemberRef overloads :=
  { declIdx := 0, decl := declA, cls := classA, position, fn, declared := rfl, isClass := rfl, isMember, isBindable }

def rowA : CompiledClass :=
  { name := [108, 105, 98, 46, 65], methodIndices := [0], methodAccess := [3], methodVirtual := [0] }

def libImage : CompiledModule :=
  { modulePath := libPath, functions := [{ name := [102], paramCount := 1, isStatic := true }], classes := [rowA] }

theorem libImage_loaded : LoadedImageOf overloads 0 libImage where
  modulePath := rfl
  functions := by decide +kernel
  classes := by decide +kernel
  methodCap := by decide

def closureA : List CompiledModule := [libImage, { modulePath := mainPath }]

def calleeWithoutBody : MemberRef overloads := overloadAt 0 declaredOverload (by decide) (by decide)

def calleeWithBody : MemberRef overloads := overloadAt 1 implementedOverload (by decide) (by decide)

theorem sameMember_self {build : Build} (member : MemberRef build) (parsed : member.decl.isImported = false) :
    SameMember member member := ⟨rfl, rfl, rfl, rfl, rfl, parsed, parsed⟩

theorem member_without_body_binds_other :
    LoadedImageOf overloads 0 libImage ∧ (closureA.map (·.modulePath)).Nodup ∧ closureA[0]? = some libImage ∧
      SameMember (Callee.declared calleeWithoutBody).recordOwner calleeWithoutBody ∧
      ∃ imp, functionSlotFor overloads 1 (.declared calleeWithoutBody) = .imported imp ∧
        resolveFunctionImport closureA imp = .ok (0, 0) ∧ funcIndex overloads 0 (0, 1) = some 0 ∧
        ¬ Replays closureA 0 libImage (funcIndex overloads 0 (calleeWithoutBody.declIdx, calleeWithoutBody.position))
          imp := by
  refine ⟨libImage_loaded, by decide, rfl, sameMember_self _ rfl, _, rfl, rfl, rfl, ?_⟩
  intro replays
  obtain ⟨index, indexed, -⟩ := replays.binds (0, 0) rfl
  have missing : funcIndex overloads 0 (0, 0) = none := rfl
  cases missing.symm.trans indexed

def stubA : SnClassDecl :=
  { name := identifierA, members := [.function { implementedOverload with hasBody := false }] }

def consumerOfImage : Build where
  root := [{ owner := some 0, isImported := true, node := .classDecl stubA }]
  modules := [libPath, mainPath]
  attached := by
    intro decl inside cls node
    cases List.mem_singleton.mp inside
    cases node
    exact Genericity.noConfusion
  oneStaticInit := by
    intro decl inside cls node
    cases List.mem_singleton.mp inside
    cases node
    decide

def calleeInStub : MemberRef consumerOfImage :=
  { declIdx := 0
    decl := { owner := some 0, isImported := true, node := .classDecl stubA }
    cls := stubA
    position := 0
    fn := { implementedOverload with hasBody := false }
    declared := rfl
    isClass := rfl
    isMember := by decide
    isBindable := by decide }

theorem calleeInStub_stubOf : StubOf 0 libImage rowA calleeInStub calleeWithBody where
  minted := ⟨[], List.mem_cons_self⟩
  created := rfl
  isImported := rfl
  path := rfl
  row := rfl
  implements := rfl
  position := rfl

theorem member_ordinals_replay_overloads :
    (∃ imp, functionSlotFor overloads 1 (.declared calleeWithBody) = .imported imp ∧
      (Replays closureA 0 libImage (some 0) imp ↔ RecordsMember overloads 0 calleeWithBody)) ∧
    ∃ imp, functionSlotFor consumerOfImage 1 (.declared calleeInStub) = .imported imp ∧
      Replays closureA 0 libImage (some 0) imp := by
  have replays := @member_ordinals_replay overloads 0 libImage closureA 0 libImage_loaded (by decide) rfl
  refine ⟨⟨_, rfl, ?_⟩, _, rfl, ?_⟩
  · exact replays.1 overloads 1 (.declared calleeWithBody) calleeWithBody _ rfl (sameMember_self _ rfl) rfl
  · refine replays.2 consumerOfImage 1 (.declared calleeInStub) calleeWithBody rowA _ calleeInStub_stubOf rfl rfl ?_
    intro member inside index indexed
    have only : (functionTable overloads 0).length = 1 := rfl
    have bound : index < (functionTable overloads 0).length := by
      unfold funcIndex at indexed
      rw [List.findIdx?_eq_some_iff_getElem] at indexed
      exact indexed.1
    omega

end NLang.Linker
