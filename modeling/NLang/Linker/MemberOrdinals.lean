import NLang.Backend.MemberIndices
import NLang.Linker.FunctionSlots

/-!
# Ordinals of members

The consumer of a class counts its members over declarations, the linker over the record of the producer. Both count
the constructors and the methods of the class, each in declaration order.
-/

namespace NLang.Linker
open NLang.Library.Words NLang.Library.Keyed NLang.Image NLang.Compiler NLang.Backend

def counted (isImported : Bool) (cls : SnClassDecl) (ctors : Bool) (member : Nat × SnFunction) : Bool :=
  !member.2.isStaticInit && member.2.hasImplementation isImported cls && cls.isCtor member.2 = ctors

theorem memberOrdinal_eq (isImported : Bool) (cls : SnClassDecl) (callee : Nat) (ctors : Bool)
    (members : List (Nat × SnFunction)) (start : UInt16) :
    memberOrdinal isImported cls callee ctors members start =
      match (members.filter (counted isImported cls ctors)).findIdx? (·.1 = callee) with
      | some k => start + UInt16.ofNat k
      | none => noIndex := by
  induction members generalizing start with
  | nil => rfl
  | cons member members ih =>
    have skipped : (member.2.isStaticInit || !member.2.hasImplementation isImported cls ||
        cls.isCtor member.2 ≠ ctors) = !counted isImported cls ctors member := by
      unfold counted
      cases member.2.isStaticInit <;> cases member.2.hasImplementation isImported cls <;>
        cases cls.isCtor member.2 <;> cases ctors <;> rfl
    rw [memberOrdinal, skipped]
    cases counts : counted isImported cls ctors member with
    | false =>
      rw [List.filter_cons_of_neg (by rw [counts]; exact Bool.false_ne_true)]
      exact ih start
    | true =>
      rw [List.filter_cons_of_pos counts, List.findIdx?_cons]
      by_cases here : member.1 = callee
      · simp [here]
      · simp only [here, decide_false, Bool.false_eq_true, if_false, Bool.not_true]
        rw [ih (start + 1)]
        cases (members.filter (counted isImported cls ctors)).findIdx? (·.1 = callee) with
        | none => rfl
        | some k =>
          show start + 1 + UInt16.ofNat k = start + UInt16.ofNat (k + 1)
          rw [UInt16.ofNat_add, UInt16.add_assoc, UInt16.add_comm 1]
          rfl

def siblings (cls : SnClassDecl) (ctors : Bool) : List (Nat × SnFunction) :=
  (listed cls).filter fun member => cls.isCtor member.2 = ctors

def siblingPlace (cls : SnClassDecl) (member : Nat × SnFunction) : Nat :=
  (siblings cls (cls.isCtor member.2)).findIdx (·.1 = member.1)

theorem filter_counted {cls : SnClassDecl} (attached : cls.genericity ≠ .instantiation) (ctors : Bool) :
    cls.functions.filter (counted false cls ctors) = siblings cls ctors := by
  unfold siblings listed implemented
  rw [List.filter_filter, List.filter_filter]
  apply List.filter_congr
  intro member _
  unfold counted SnFunction.hasImplementation
  rw [decide_eq_false attached]
  cases member.2.isStaticInit <;> cases member.2.hasBody <;> cases member.2.isNative <;>
    cases cls.isCtor member.2 <;> cases ctors <;> rfl

theorem mem_siblings {cls : SnClassDecl} {ctors : Bool} {member : Nat × SnFunction} :
    member ∈ siblings cls ctors ↔ member ∈ listed cls ∧ cls.isCtor member.2 = ctors := by
  unfold siblings
  rw [List.mem_filter, decide_eq_true_iff]

theorem listed_implemented {cls : SnClassDecl} {member : Nat × SnFunction} (inside : member ∈ listed cls) :
    member ∈ implemented cls := (List.mem_filter.mp inside).1

theorem implemented_declared {cls : SnClassDecl} {member : Nat × SnFunction} (inside : member ∈ implemented cls) :
    member ∈ cls.functions := (List.mem_filter.mp inside).1

def methodEntry (tgt : CompiledModule) (cc : CompiledClass) (mi : UInt16) : Bool :=
  decide (mi.toNat < tgt.ownFunctions.length) && !isCtorMethodEntry cc mi

theorem methodAt_eq {tgt : CompiledModule} {imp : SymbolImport} {cc : CompiledClass} (entries : List UInt16)
    (start : UInt16) (k : Nat) (ordinal : imp.ownerOrdinal.toNat = start.toNat + k) :
    methodAt tgt imp cc entries start =
      (entries.filter (methodEntry tgt cc))[k]? := by
  induction entries generalizing start k with
  | nil => rfl
  | cons mi entries ih =>
    rw [methodAt]
    by_cases visible : methodEntry tgt cc mi = true
    · have taken : ¬ (decide (tgt.ownFunctions.length ≤ mi.toNat) || isCtorMethodEntry cc mi) = true := by
        rw [methodEntry, Bool.and_eq_true, decide_eq_true_iff, Bool.not_eq_true'] at visible
        rw [Bool.or_eq_true, decide_eq_true_iff, not_or]
        exact ⟨Nat.not_le.mpr visible.1, ne_true_of_eq_false visible.2⟩
      rw [if_neg taken, List.filter_cons_of_pos visible]
      cases k with
      | zero =>
        have here : start = imp.ownerOrdinal := UInt16.toNat_inj.mp ordinal.symm
        rw [if_neg (fun apart => apart here)]
        rfl
      | succ k =>
        have apart : start ≠ imp.ownerOrdinal := by
          intro here
          rw [here] at ordinal
          omega
        have bound := imp.ownerOrdinal.toNat_lt
        have next : (start + 1).toNat = start.toNat + 1 := by
          rw [UInt16.toNat_add]
          show (start.toNat + 1) % 2 ^ 16 = start.toNat + 1
          exact Nat.mod_eq_of_lt (by omega)
        rw [if_pos apart, ih (start + 1) k (by omega), List.getElem?_cons_succ]
    · have skipped : (decide (tgt.ownFunctions.length ≤ mi.toNat) || isCtorMethodEntry cc mi) = true := by
        rw [methodEntry, Bool.and_eq_true, decide_eq_true_iff, Bool.not_eq_true', not_and_or, Nat.not_lt,
          Bool.not_eq_false] at visible
        rw [Bool.or_eq_true, decide_eq_true_iff]
        exact visible
      rw [if_pos skipped, List.filter_cons_of_neg visible, ih start k ordinal]

structure LoadedImageOf (build : Build) (unit : Nat) (image : CompiledModule) : Prop extends
    ImageOf build unit image where
  methodCap : ∀ cc ∈ image.ownClasses, cc.methodIndices.length ≤ 2 ^ 12

def entryOf (base : Nat) (cls : SnClassDecl) (member : Nat × SnFunction) : UInt16 :=
  UInt16.ofNat (base + placeIn cls member)

structure RowOf (image : CompiledModule) (base : Nat) (cls : SnClassDecl) (cc : CompiledClass) : Prop where
  methods : cc.methodIndices = (listed cls).map (entryOf base cls)
  constructors : cc.constructorIndices = (siblings cls true).map (entryOf base cls)
  few : (implemented cls).length < 2 ^ 16
  inTable : ∀ member ∈ implemented cls, base + placeIn cls member < image.ownFunctions.length

theorem exists_rowOf {build : Build} {unit : Nat} {image : CompiledModule} {key : Text} {last : ClassEntry}
    (loaded : LoadedImageOf build unit image) (holds : holder build unit key = some last) :
    ∃ base cc, BaseOf build unit last base ∧ image.ownClasses.find? (·.name = key) = some cc ∧
      RowOf image base last.cls cc := by
  obtain ⟨registers, keyed⟩ := holder_registers holds
  obtain ⟨base, placed⟩ := exists_baseOf registers
  obtain ⟨row, found, methods, constructors⟩ := memberRows_holder holds
  obtain ⟨cc, ccFound, rfl⟩ : ∃ cc, image.ownClasses.find? (·.name = key) = some cc ∧ memberTablesOf cc = row := by
    rw [← loaded.classes, lookup, List.find?_map] at found
    obtain ⟨cc, ccFound, same⟩ := Option.map_eq_some_iff.mp found
    exact ⟨cc, ccFound, same⟩
  have listedMethods : cc.methodIndices = (listed last.cls).map (entryOf base last.cls) :=
    methods.trans (methodEntries_eq placed)
  have listedConstructors : cc.constructorIndices = (siblings last.cls true).map (entryOf base last.cls) := by
    refine constructors.trans ((constructorEntries_eq placed).trans ?_)
    unfold siblings
    simp only [Bool.decide_eq_true]
    rfl
  refine ⟨base, cc, placed, ccFound, listedMethods, listedConstructors, ?_, ?_⟩
  · have cap := loaded.methodCap cc (List.mem_of_find?_eq_some ccFound)
    rw [listedMethods, List.length_map] at cap
    have once := build.oneStaticInit last.decl (List.mem_of_getElem? registers.declared) last.cls registers.isClass
    have most := implemented_length_le once
    omega
  · intro member inside
    have present := placed.entryAt _ member (implemented_placeIn inside)
    have bound := (List.getElem?_eq_some_iff.mp present).1
    have sizes := congrArg List.length loaded.functions
    rw [List.length_map, List.length_map] at sizes
    omega

namespace RowOf
variable {image : CompiledModule} {base : Nat} {cls : SnClassDecl} {cc : CompiledClass}

theorem placeIn_lt {member : Nat × SnFunction} (inside : member ∈ implemented cls) :
    placeIn cls member < (implemented cls).length :=
  (List.getElem?_eq_some_iff.mp (implemented_placeIn inside)).1

theorem entryOf_inj (row : RowOf image base cls cc) {first second : Nat × SnFunction}
    (firstInside : first ∈ implemented cls) (secondInside : second ∈ implemented cls)
    (same : entryOf base cls first = entryOf base cls second) : first = second := by
  have few := row.few
  have firstPlace := placeIn_lt firstInside
  have secondPlace := placeIn_lt secondInside
  have congruent := congrArg UInt16.toNat same
  simp only [entryOf, UInt16.toNat_ofNat'] at congruent
  have places : placeIn cls first = placeIn cls second := by omega
  have firstFound := implemented_placeIn firstInside
  rw [places, implemented_placeIn secondInside] at firstFound
  exact (Option.some.inj firstFound).symm

theorem isCtorMethodEntry_entryOf (row : RowOf image base cls cc) {member : Nat × SnFunction}
    (inside : member ∈ listed cls) : isCtorMethodEntry cc (entryOf base cls member) = cls.isCtor member.2 := by
  unfold isCtorMethodEntry
  rw [row.constructors]
  cases ctor : cls.isCtor member.2 with
  | true => exact decide_eq_true (List.mem_map_of_mem (mem_siblings.mpr ⟨inside, ctor⟩))
  | false =>
    apply decide_eq_false
    intro present
    obtain ⟨other, otherInside, same⟩ := List.mem_map.mp present
    obtain ⟨otherListed, otherCtor⟩ := mem_siblings.mp otherInside
    cases row.entryOf_inj (listed_implemented otherListed) (listed_implemented inside) same
    rw [ctor] at otherCtor
    exact Bool.false_ne_true otherCtor

theorem entryOf_lt (row : RowOf image base cls cc) {member : Nat × SnFunction} (inside : member ∈ implemented cls) :
    (entryOf base cls member).toNat < image.ownFunctions.length := by
  unfold entryOf
  rw [UInt16.toNat_ofNat']
  exact Nat.lt_of_le_of_lt (Nat.mod_le _ _) (row.inTable member inside)

theorem filter_methodEntry (row : RowOf image base cls cc) :
    cc.methodIndices.filter (methodEntry image cc) = (siblings cls false).map (entryOf base cls) := by
  rw [row.methods, List.filter_map]
  unfold siblings
  congr 1
  apply List.filter_congr
  intro member inside
  rw [Function.comp_apply, methodEntry, row.isCtorMethodEntry_entryOf inside,
    decide_eq_true (row.entryOf_lt (listed_implemented inside))]
  cases cls.isCtor member.2 <;> rfl

end RowOf

def selectedEntry (tgt : CompiledModule) (imp : SymbolImport) : Option UInt16 :=
  match findOwnerType tgt imp with
  | none => none
  | some (.struct cs) => if importsMethod imp then none else constructorAt imp cs.constructorIndices
  | some (.cls cc) =>
    if importsMethod imp then
      if imp.ownerOrdinal ≠ noIndex then methodAt tgt imp cc cc.methodIndices 0 else none
    else constructorAt imp cc.constructorIndices

structure Replays (units : List CompiledModule) (owner : Nat) (tgt : CompiledModule) (index : Option Nat)
    (imp : SymbolImport) : Prop where
  selects : ∀ n, index = some n → (selectedEntry tgt imp).map (·.toNat) = some n
  binds : ∀ bound, resolveFunctionImport units imp = .ok bound → ∃ n, index = some n ∧ bound = (owner, n)

theorem resolveConstructor_hit {tgt : CompiledModule} {imp : SymbolImport} {ctors : List UInt16} {hit : Nat}
    (bound : (resolveConstructor tgt imp ctors).hit = some hit) :
    (constructorAt imp ctors).map (·.toNat) = some hit := by
  unfold resolveConstructor at bound
  split at bound
  · cases bound
  · rename_i ci selected
    split at bound
    · split at bound
      · rw [selected]
        exact bound
      · cases bound
    · cases bound

theorem selectedEntry_of_hit {tgt : CompiledModule} {imp : SymbolImport} (keyed : imp.ownerClassKey ≠ [])
    (counts : importsMethod imp = false ∨ imp.ownerOrdinal ≠ noIndex) {hit : Nat}
    (bound : (functionSlotHit tgt imp).hit = some hit) : (selectedEntry tgt imp).map (·.toNat) = some hit := by
  rw [functionSlotHit, if_neg keyed, resolveOwnerKeyedFunction] at bound
  rw [selectedEntry]
  cases found : findOwnerType tgt imp with
  | none =>
    simp only [found] at bound
    cases bound
  | some owner =>
    cases owner with
    | struct cs =>
      simp only [found] at bound
      cases method : importsMethod imp with
      | true =>
        simp only [method, if_true] at bound
        cases bound
      | false =>
        simp only [method, Bool.false_eq_true, if_false] at bound
        exact resolveConstructor_hit bound
    | cls cc =>
      simp only [found] at bound
      cases method : importsMethod imp with
      | true =>
        have ordinal : imp.ownerOrdinal ≠ noIndex := by
          rcases counts with ctor | ordinal
          · exact absurd (method.symm.trans ctor) Bool.noConfusion
          · exact ordinal
        simp only [method, if_true, resolveMethodRecord, if_pos ordinal] at bound
        simp only [if_true, if_pos ordinal]
        cases selected : methodAt tgt imp cc cc.methodIndices 0 with
        | none =>
          simp only [selected] at bound
          cases bound
        | some mi =>
          simp only [selected] at bound
          split at bound
          · exact bound
          · cases bound
      | false =>
        simp only [method, Bool.false_eq_true, if_false] at bound
        exact resolveConstructor_hit bound

theorem resolveFunctionImport_ok {units : List CompiledModule} {imp : SymbolImport} {bound : Nat × Nat}
    (resolved : resolveFunctionImport units imp = .ok bound) :
    units.findIdx? (·.modulePath = imp.modulePath) = some bound.1 ∧
      (functionSlotHit (units.getD bound.1 {}) imp).hits = 1 ∧
      (functionSlotHit (units.getD bound.1 {}) imp).hit = some bound.2 := by
  unfold resolveFunctionImport at resolved
  split at resolved
  · cases resolved
  · rename_i owner found
    simp only at resolved
    split at resolved
    · cases resolved
    · rename_i hit hits here
      cases resolved
      exact ⟨found, hits, here⟩
    · cases resolved

structure Provides (units : List CompiledModule) (owner : Nat) (tgt : CompiledModule) (imp : SymbolImport) : Prop where
  distinct : (units.map (·.modulePath)).Nodup
  isUnit : units[owner]? = some tgt
  path : tgt.modulePath = imp.modulePath

namespace Provides
variable {units : List CompiledModule} {owner : Nat} {tgt : CompiledModule} {imp : SymbolImport}

theorem findIdx?_modulePath (provides : Provides units owner tgt imp) :
    units.findIdx? (·.modulePath = imp.modulePath) = some owner := by
  obtain ⟨bound, found⟩ := List.getElem?_eq_some_iff.mp provides.isUnit
  rw [List.findIdx?_eq_some_iff_getElem]
  refine ⟨bound, by simpa [found] using provides.path, ?_⟩
  intro earlier before same
  have paths : (units.map (·.modulePath))[earlier]? = (units.map (·.modulePath))[owner]? := by
    have earlierPath : units[earlier].modulePath = imp.modulePath := by simpa using same
    rw [List.getElem?_map, List.getElem?_map, provides.isUnit, List.getElem?_eq_getElem (Nat.lt_trans before bound)]
    exact congrArg some (earlierPath.trans provides.path.symm)
  have inside : earlier < (units.map (·.modulePath)).length := by
    rw [List.length_map]
    exact Nat.lt_trans before bound
  exact Nat.ne_of_lt before ((List.getElem?_inj inside provides.distinct).mp paths)

theorem hit_of_ok (provides : Provides units owner tgt imp) {bound : Nat × Nat}
    (resolved : resolveFunctionImport units imp = .ok bound) :
    bound.1 = owner ∧ (functionSlotHit tgt imp).hits = 1 ∧ (functionSlotHit tgt imp).hit = some bound.2 := by
  obtain ⟨found, hits, hit⟩ := resolveFunctionImport_ok resolved
  rw [provides.findIdx?_modulePath] at found
  have same : owner = bound.1 := Option.some.inj found
  rw [← same, List.getD_eq_getElem?_getD, provides.isUnit] at hits hit
  exact ⟨same.symm, hits, hit⟩

theorem replays_iff_selects (provides : Provides units owner tgt imp) (keyed : imp.ownerClassKey ≠ [])
    (counts : importsMethod imp = false ∨ imp.ownerOrdinal ≠ noIndex) (n : Nat) :
    Replays units owner tgt (some n) imp ↔ (selectedEntry tgt imp).map (·.toNat) = some n := by
  constructor
  · intro replays
    exact replays.selects n rfl
  · intro selected
    refine ⟨?_, ?_⟩
    · intro m same
      rw [← same]
      exact selected
    · intro bound resolved
      obtain ⟨unit, -, hit⟩ := provides.hit_of_ok resolved
      have entry := selectedEntry_of_hit keyed counts hit
      rw [selected] at entry
      exact ⟨n, rfl, Prod.ext unit (Option.some.inj entry).symm⟩

end Provides

theorem selectedEntry_row {image : CompiledModule} {base : Nat} {cls : SnClassDecl} {cc : CompiledClass}
    {imp : SymbolImport} (row : RowOf image base cls cc) (kind : imp.ownerKind = 1)
    (found : image.ownClasses.find? (·.name = imp.ownerClassKey) = some cc) {ctors : Bool}
    (list : importsMethod imp = !ctors) :
    selectedEntry image imp =
      if imp.ownerOrdinal = noIndex then none
      else ((siblings cls ctors)[imp.ownerOrdinal.toNat]?).map (entryOf base cls) := by
  have owner : findOwnerType image imp = some (.cls cc) := by
    unfold findOwnerType
    rw [kind, if_neg (by decide), found]
    rfl
  unfold selectedEntry
  rw [owner]
  simp only [list]
  by_cases absent : imp.ownerOrdinal = noIndex
  · simp [absent, constructorAt]
  · cases ctors with
    | false =>
      simp only [Bool.not_false, if_true, ne_eq, absent, not_false_eq_true, if_false]
      have ordinal : imp.ownerOrdinal.toNat = (0 : UInt16).toNat + imp.ownerOrdinal.toNat := (Nat.zero_add _).symm
      rw [methodAt_eq _ _ _ ordinal, row.filter_methodEntry, List.getElem?_map]
    | true =>
      simp only [Bool.not_true, Bool.false_eq_true, if_false, if_neg absent]
      rw [constructorAt, if_pos absent, row.constructors, List.getElem?_map]

structure SameMember {consumer producer : Build} (member : MemberRef consumer) (origin : MemberRef producer) : Prop where
  cls : member.cls = origin.cls
  position : member.position = origin.position
  fn : member.fn = origin.fn
  key : consumer.keyOf member.decl = producer.keyOf origin.decl
  path : consumer.modulePathOf member.decl.owner = producer.modulePathOf origin.decl.owner
  parsed : member.decl.isImported = false ∧ origin.decl.isImported = false

theorem importsMethod_memberImport {build : Build} (member : MemberRef build) :
    importsMethod (memberImport build member.decl member.cls member.position member.fn) =
      !member.cls.isCtor member.fn := by
  have named : member.decl.node.name = member.cls.name := by
    rw [member.isClass]
    rfl
  have functionKey : build.functionKey member.decl member.fn = member.fn.name.text := by
    unfold Build.functionKey
    rw [member.isClass]
  unfold importsMethod memberImport SnClassDecl.isCtor
  simp only
  rw [build.leafNameOfKey_keyOf, named, functionKey]
  simp only [Identifier.ext_iff, ne_eq, decide_not]
  cases member.fn.isStatic <;> cases decide (member.fn.name.text = member.cls.name.text) <;> rfl

theorem find_siblings {cls : SnClassDecl} {member : Nat × SnFunction} (inside : member ∈ listed cls) :
    (siblings cls (cls.isCtor member.2)).findIdx? (·.1 = member.1) = some (siblingPlace cls member) := by
  rw [List.findIdx?_eq_some_iff_findIdx_eq]
  refine ⟨List.findIdx_lt_length_of_exists ⟨member, mem_siblings.mpr ⟨inside, rfl⟩, ?_⟩, rfl⟩
  exact decide_eq_true rfl

theorem siblings_siblingPlace {cls : SnClassDecl} {member : Nat × SnFunction} (inside : member ∈ listed cls) :
    (siblings cls (cls.isCtor member.2))[siblingPlace cls member]? = some member := by
  have found := find_siblings inside
  rw [List.findIdx?_eq_some_iff_getElem] at found
  obtain ⟨bound, position, -⟩ := found
  obtain ⟨there, -⟩ := mem_siblings.mp (List.getElem_mem bound)
  rw [List.getElem?_eq_getElem bound]
  congr 1
  exact memberFunctions_unique (implemented_declared (listed_implemented there))
    (implemented_declared (listed_implemented inside)) (of_decide_eq_true position)

section Tree
variable {build : Build} (member : MemberRef build)

def isImplemented : Bool := member.fn.hasBody || member.fn.isNative

variable {member}

theorem mem_listed (registered : isImplemented member = true) :
    (member.position, member.fn) ∈ listed member.cls := by
  unfold listed implemented
  rw [List.mem_filter, List.mem_filter]
  refine ⟨⟨member.isMember, registered⟩, ?_⟩
  rw [member.isBindable]
  rfl

theorem ownerOrdinal_memberImport (parsed : member.decl.isImported = false) :
    (memberImport build member.decl member.cls member.position member.fn).ownerOrdinal =
      if isImplemented member then UInt16.ofNat (siblingPlace member.cls (member.position, member.fn))
      else noIndex := by
  have attached := build.attached member.decl (List.mem_of_getElem? member.declared) member.cls member.isClass
  unfold memberImport
  simp only
  rw [parsed, memberOrdinal_eq, filter_counted attached]
  cases registered : isImplemented member with
  | true =>
    have found : (siblings member.cls (member.cls.isCtor member.fn)).findIdx? (·.1 = member.position) =
        some (siblingPlace member.cls (member.position, member.fn)) := find_siblings (mem_listed registered)
    rw [found, if_pos rfl]
    exact UInt16.zero_add _
  | false =>
    have missing : (siblings member.cls (member.cls.isCtor member.fn)).findIdx? (·.1 = member.position) = none := by
      rw [List.findIdx?_eq_none_iff]
      intro other inside
      obtain ⟨there, -⟩ := mem_siblings.mp inside
      apply decide_eq_false
      intro position
      have present := listed_implemented there
      cases memberFunctions_unique (implemented_declared present) member.isMember position
      have implements := (List.mem_filter.mp present).2
      unfold isImplemented at registered
      rw [registered] at implements
      exact Bool.false_ne_true implements
    rw [missing]
    rfl

end Tree

section Producer
variable {build : Build} {unit : Nat} {image : CompiledModule}

def sharesSignature (sig : FunctionSignature) (fn : SnFunction) : Bool :=
  sig.name = fn.name.text && sig.paramCount.toNat = (UInt32.ofNat (fn.params + if fn.isStatic then 0 else 1)).toNat &&
    sig.isStatic = fn.isStatic

def candidates (build : Build) (unit : Nat) (entry : ClassEntry) (fn : SnFunction) : List UInt16 :=
  (methodEntries build unit entry).filter fun mi =>
    ((functionTable build unit)[mi.toNat]?).any fun func => sharesSignature (entrySignature build func) fn

def RecordsMember (build : Build) (unit : Nat) (origin : MemberRef build) : Prop :=
  ∃ last, holder build unit (build.keyOf origin.decl) = some last ∧
    match funcIndex build unit (origin.declIdx, origin.position) with
    | some index =>
      if last = origin.toClassEntry then index < 2 ^ 16
      else
        let ordinal := siblingPlace origin.cls (origin.position, origin.fn) % 2 ^ 16
        ordinal ≠ 2 ^ 16 - 1 ∧ ∃ other otherIndex,
          (siblings last.cls (origin.cls.isCtor origin.fn))[ordinal]? = some other ∧
            funcIndex build unit (last.declIdx, other.1) = some otherIndex ∧ otherIndex % 2 ^ 16 = index
    | none => origin.cls.isCtor origin.fn = true ∨ (candidates build unit last origin.fn).length ≠ 1

theorem funcIndex_member {entry : ClassEntry} {base : Nat} (placed : BaseOf build unit entry base)
    {member : Nat × SnFunction} (inside : member ∈ implemented entry.cls) :
    funcIndex build unit (entry.declIdx, member.1) = some (base + placeIn entry.cls member) := by
  obtain ⟨declared, registered⟩ := List.mem_filter.mp inside
  rw [placed.index, findIdx?_implemented declared, if_pos registered]
  rfl

theorem funcIndex_origin (origin : MemberRef build) (registers : Registers build unit origin.toClassEntry) :
    (funcIndex build unit (origin.declIdx, origin.position)).isSome = isImplemented origin := by
  obtain ⟨base, placed⟩ := exists_baseOf registers
  have index : funcIndex build unit (origin.declIdx, origin.position) =
      ((implemented origin.cls).findIdx? (·.1 = origin.position)).map (base + ·) := placed.index origin.position
  have found : (implemented origin.cls).findIdx? (·.1 = origin.position) =
      if origin.fn.hasBody || origin.fn.isNative then some (placeIn origin.cls (origin.position, origin.fn)) else none :=
    findIdx?_implemented origin.isMember
  rw [index, found]
  unfold isImplemented
  cases origin.fn.hasBody || origin.fn.isNative <;> rfl

structure Refers (origin : MemberRef build) (imp : SymbolImport) : Prop where
  key : imp.ownerClassKey = build.keyOf origin.decl
  kind : imp.ownerKind = 1
  list : importsMethod imp = !origin.cls.isCtor origin.fn
  ordinal : imp.ownerOrdinal =
    if isImplemented origin then UInt16.ofNat (siblingPlace origin.cls (origin.position, origin.fn)) else noIndex

structure RefersBySignature (origin : MemberRef build) (imp : SymbolImport) : Prop extends Refers origin imp where
  name : imp.name = origin.fn.name.text
  paramCount : imp.paramCount = UInt32.ofNat (origin.fn.params + if origin.fn.isStatic then 0 else 1)
  isStatic : imp.isStatic = origin.fn.isStatic

theorem refers_memberImport {consumer : Build} {member : MemberRef consumer} {origin : MemberRef build}
    (same : SameMember member origin) :
    RefersBySignature origin (memberImport consumer member.decl member.cls member.position member.fn) := by
  have implements : isImplemented member = isImplemented origin := by
    unfold isImplemented
    rw [same.fn]
  refine ⟨⟨same.key, rfl, ?_, ?_⟩, ?_, ?_, ?_⟩
  · rw [importsMethod_memberImport, same.cls, same.fn]
  · rw [ownerOrdinal_memberImport same.parsed.1, implements, same.cls, same.position, same.fn]
  · show consumer.functionKey member.decl member.fn = _
    unfold Build.functionKey
    rw [member.isClass, ← same.fn]
  · show UInt32.ofNat (member.fn.params + if member.decl.node.hasThisReceiver member.fn then 1 else 0) = _
    rw [member.isClass, ← same.fn]
    show UInt32.ofNat (member.fn.params + if (!member.fn.isStatic) = true then 1 else 0) = _
    cases member.fn.isStatic <;> rfl
  · show member.fn.isStatic = _
    rw [same.fn]

section Refers
variable {origin : MemberRef build} {imp : SymbolImport} {units : List CompiledModule} {owner : Nat} {last : ClassEntry}

theorem Refers.keyed (refers : Refers origin imp) : imp.ownerClassKey ≠ [] := by
  rw [refers.key]
  exact build.keyOf_nonempty origin.decl

theorem entryMatches_eq (loaded : LoadedImageOf build unit image) (refers : RefersBySignature origin imp) (mi : UInt16) :
    entryMatches image imp mi = ((functionTable build unit)[mi.toNat]?).any fun func =>
      sharesSignature (entrySignature build func) origin.fn := by
  have signatures : (image.ownFunctions[mi.toNat]?).map signatureOf =
      ((functionTable build unit)[mi.toNat]?).map (entrySignature build) := by
    rw [← List.getElem?_map, ← List.getElem?_map, loaded.functions]
  unfold entryMatches
  cases func : image.ownFunctions[mi.toNat]? with
  | none =>
    rw [func] at signatures
    rw [Option.map_eq_none_iff.mp signatures.symm]
    rfl
  | some func' =>
    rw [func] at signatures
    obtain ⟨entry, found, signature⟩ := Option.map_eq_some_iff.mp signatures.symm
    rw [found]
    show matchesImport imp func' = sharesSignature (entrySignature build entry) origin.fn
    rw [signature]
    unfold matchesImport sharesSignature signatureOf
    rw [refers.name, refers.paramCount, refers.isStatic]

theorem replays_none_iff (loaded : LoadedImageOf build unit image) (provides : Provides units owner image imp)
    (refers : RefersBySignature origin imp) (holds : holder build unit (build.keyOf origin.decl) = some last)
    (missing : isImplemented origin = false) :
    Replays units owner image none imp ↔
      origin.cls.isCtor origin.fn = true ∨ (candidates build unit last origin.fn).length ≠ 1 := by
  obtain ⟨base, cc, placed, found, row⟩ := exists_rowOf loaded holds
  rw [← refers.key] at found
  have absent : imp.ownerOrdinal = noIndex := by
    rw [refers.ordinal, missing]
    rfl
  have ownerType : findOwnerType image imp = some (.cls cc) := by
    unfold findOwnerType
    rw [refers.kind, if_neg (by decide), found]
    rfl
  have slotHit : functionSlotHit image imp =
      if importsMethod imp then
        scanHit ((candidates build unit last origin.fn).map (·.toNat)) true
      else { ownerClassFound := true } := by
    have scanned : cc.methodIndices.filter (entryMatches image imp) = candidates build unit last origin.fn := by
      have entries : cc.methodIndices = methodEntries build unit last := row.methods.trans (methodEntries_eq placed).symm
      rw [entries]
      apply List.filter_congr
      intro mi _
      exact entryMatches_eq loaded refers mi
    rw [functionSlotHit, if_neg refers.toRefers.keyed]
    unfold resolveOwnerKeyedFunction
    rw [ownerType]
    simp only [resolveMethodRecord, resolveConstructor, constructorAt, absent, ne_eq, not_true_eq_false, if_false,
      scanned, scanHit]
  have nothing : (∀ n, (none : Option Nat) = some n → (selectedEntry image imp).map (·.toNat) = some n) := by
    intro n absurdIndex
    cases absurdIndex
  cases ctor : origin.cls.isCtor origin.fn with
  | true =>
    rw [refers.list, ctor] at slotHit
    refine ⟨fun _ => .inl rfl, fun _ => ⟨nothing, ?_⟩⟩
    intro bound resolved
    obtain ⟨-, hits, -⟩ := provides.hit_of_ok resolved
    rw [slotHit] at hits
    cases hits
  | false =>
    rw [refers.list, ctor] at slotHit
    simp only [Bool.not_false, if_true] at slotHit
    constructor
    · intro replays
      refine .inr fun single => ?_
      obtain ⟨mi, only⟩ := List.length_eq_one_iff.mp single
      have resolved : resolveFunctionImport units imp = .ok (owner, mi.toNat) := by
        unfold resolveFunctionImport
        rw [provides.findIdx?_modulePath]
        simp only
        rw [List.getD_eq_getElem?_getD, provides.isUnit, Option.getD_some, slotHit, only]
        rfl
      obtain ⟨n, absurdIndex, -⟩ := replays.binds _ resolved
      cases absurdIndex
    · rintro (absurdCtor | several)
      · exact absurd absurdCtor Bool.false_ne_true
      · refine ⟨nothing, ?_⟩
        intro bound resolved
        obtain ⟨-, hits, -⟩ := provides.hit_of_ok resolved
        rw [slotHit, scanHit, List.length_map] at hits
        exact absurd hits several

theorem replays_some_iff (loaded : LoadedImageOf build unit image) (provides : Provides units owner image imp)
    (refers : Refers origin imp) (holds : holder build unit (build.keyOf origin.decl) = some last)
    (implements : isImplemented origin = true) (index : Nat) :
    Replays units owner image (some index) imp ↔
      siblingPlace origin.cls (origin.position, origin.fn) % 2 ^ 16 ≠ 2 ^ 16 - 1 ∧ ∃ other otherIndex,
        (siblings last.cls (origin.cls.isCtor origin.fn))[
            siblingPlace origin.cls (origin.position, origin.fn) % 2 ^ 16]? = some other ∧
          funcIndex build unit (last.declIdx, other.1) = some otherIndex ∧ otherIndex % 2 ^ 16 = index := by
  obtain ⟨base, cc, placed, found, row⟩ := exists_rowOf loaded holds
  rw [← refers.key] at found
  have ordinal := refers.ordinal
  rw [implements, if_pos rfl] at ordinal
  have place : imp.ownerOrdinal.toNat = siblingPlace origin.cls (origin.position, origin.fn) % 2 ^ 16 := by
    rw [ordinal, UInt16.toNat_ofNat']
  have absent : imp.ownerOrdinal = noIndex ↔
      siblingPlace origin.cls (origin.position, origin.fn) % 2 ^ 16 = 2 ^ 16 - 1 := by
    rw [← place, ← UInt16.toNat_inj]
    rfl
  have selected := selectedEntry_row row refers.kind found refers.list
  rw [place] at selected
  by_cases none : imp.ownerOrdinal = noIndex
  · rw [if_pos none] at selected
    constructor
    · intro replays
      have entry := replays.selects index rfl
      rw [selected] at entry
      cases entry
    · rintro ⟨apart, -⟩
      exact absurd (absent.mp none) apart
  · rw [provides.replays_iff_selects refers.keyed (.inr none), selected, if_neg none]
    constructor
    · intro entry
      refine ⟨fun same => none (absent.mpr same), ?_⟩
      rw [Option.map_map] at entry
      obtain ⟨other, there, truncated⟩ := Option.map_eq_some_iff.mp entry
      have inside := listed_implemented (mem_siblings.mp (List.mem_of_getElem? there)).1
      refine ⟨other, _, there, funcIndex_member placed inside, ?_⟩
      rw [← truncated, Function.comp_apply, entryOf, UInt16.toNat_ofNat']
    · rintro ⟨-, other, otherIndex, there, position, truncated⟩
      have inside := listed_implemented (mem_siblings.mp (List.mem_of_getElem? there)).1
      rw [funcIndex_member placed inside] at position
      rw [there]
      show some (entryOf base last.cls other).toNat = some index
      rw [entryOf, UInt16.toNat_ofNat', ← truncated, ← Option.some.inj position]

theorem records_own_iff (loaded : LoadedImageOf build unit image)
    (holds : holder build unit (build.keyOf origin.decl) = some origin.toClassEntry)
    (implements : isImplemented origin = true) {index : Nat}
    (indexed : funcIndex build unit (origin.declIdx, origin.position) = some index) :
    (siblingPlace origin.cls (origin.position, origin.fn) % 2 ^ 16 ≠ 2 ^ 16 - 1 ∧ ∃ other otherIndex,
        (siblings origin.cls (origin.cls.isCtor origin.fn))[
            siblingPlace origin.cls (origin.position, origin.fn) % 2 ^ 16]? = some other ∧
          funcIndex build unit (origin.declIdx, other.1) = some otherIndex ∧ otherIndex % 2 ^ 16 = index) ↔
      index < 2 ^ 16 := by
  obtain ⟨_, _, _, _, row⟩ := exists_rowOf loaded holds
  have few : (implemented origin.cls).length < 2 ^ 16 := row.few
  have there : (siblings origin.cls (origin.cls.isCtor origin.fn))[
      siblingPlace origin.cls (origin.position, origin.fn)]? = some (origin.position, origin.fn) :=
    siblings_siblingPlace (mem_listed implements)
  have bound : siblingPlace origin.cls (origin.position, origin.fn) < (implemented origin.cls).length := by
    have inside := (List.getElem?_eq_some_iff.mp there).1
    exact Nat.lt_of_lt_of_le inside (Nat.le_trans (List.length_filter_le _ _) (List.length_filter_le _ _))
  have whole : siblingPlace origin.cls (origin.position, origin.fn) % 2 ^ 16 =
      siblingPlace origin.cls (origin.position, origin.fn) := Nat.mod_eq_of_lt (Nat.lt_trans bound few)
  rw [whole, there]
  constructor
  · rintro ⟨-, other, otherIndex, same, position, truncated⟩
    rw [← truncated]
    exact Nat.mod_lt _ (Nat.two_pow_pos 16)
  · intro fits
    exact ⟨by omega, _, index, rfl, indexed, Nat.mod_eq_of_lt fits⟩

end Refers

theorem exists_holder {origin : MemberRef build} (parsed : origin.decl.isImported = false)
    (owned : origin.decl.owner = some unit) (project : build.isPreludeModule origin.decl.owner = false) :
    Registers build unit origin.toClassEntry ∧ ∃ last, holder build unit (build.keyOf origin.decl) = some last := by
  have own : isOwnUnit build unit origin.decl = true := by
    unfold isOwnUnit
    rw [parsed, owned]
    simp
  have unshadowed : isShadowedPreludeDecl build origin.decl = false := by
    unfold isShadowedPreludeDecl
    rw [project, Bool.and_false]
  refine ⟨⟨origin.declared, origin.isClass, own⟩, ?_⟩
  have visited : origin.toClassEntry ∈ registeredClasses build unit := by
    unfold registeredClasses
    rw [List.mem_filter, own, unshadowed]
    refine ⟨List.mem_filterMap.mpr ⟨(origin.decl, origin.declIdx), ?_, ?_⟩, rfl⟩
    · exact List.mem_zipIdx_iff_getElem?.mpr origin.declared
    · simp only [classEntryOf, origin.isClass]
  have keyed : origin.toClassEntry ∈ (registeredClasses build unit).filter
      (build.keyOf ·.decl = build.keyOf origin.decl) := List.mem_filter.mpr ⟨visited, decide_eq_true rfl⟩
  exact Option.isSome_iff_exists.mp (List.getLast?_isSome.mpr (List.ne_nil_of_mem keyed))

theorem isPreludeModule_eq (build : Build) (owner : Option Nat) :
    build.isPreludeModule owner = decide (build.modulePathOf owner ∈ Build.preludePackages) := by
  unfold Build.isPreludeModule Build.modulePathOf
  cases owner.bind (build.modules[·]?) with
  | none => rfl
  | some path => rfl

theorem replays_iff_recordsMember {consumer : Build} {consumerUnit : Nat} {callee : Callee consumer}
    {origin : MemberRef build} {units : List CompiledModule} {owner : Nat} {imp : SymbolImport}
    (loaded : LoadedImageOf build unit image) (distinct : (units.map (·.modulePath)).Nodup)
    (isUnit : units[owner]? = some image) (owned : origin.decl.owner = some unit)
    (same : SameMember callee.recordOwner origin) (slot : functionSlotFor consumer consumerUnit callee = .imported imp) :
    Replays units owner image (funcIndex build unit (origin.declIdx, origin.position)) imp ↔
      RecordsMember build unit origin := by
  have foreign : isOwnUnit consumer consumerUnit callee.recordOwner.decl = false ∧
      memberImport consumer callee.recordOwner.decl callee.recordOwner.cls callee.recordOwner.position
        callee.recordOwner.fn = imp := by
    unfold functionSlotFor at slot
    simp only at slot
    split at slot
    · cases slot
    · rename_i apart
      exact ⟨Bool.eq_false_iff.mpr apart, FunctionSlot.imported.inj slot⟩
  have project : build.isPreludeModule origin.decl.owner = false := by
    rw [isPreludeModule_eq, ← same.path, ← isPreludeModule_eq]
    have apart := foreign.1
    unfold isOwnUnit at apart
    rw [same.parsed.1] at apart
    simp only [Bool.not_false, Bool.true_and, Bool.or_eq_false_iff] at apart
    exact apart.2
  obtain ⟨registers, last, holds⟩ := exists_holder same.parsed.2 owned project
  have refers : RefersBySignature origin imp := by
    rw [← foreign.2]
    exact refers_memberImport same
  have provides : Provides units owner image imp := by
    refine ⟨distinct, isUnit, ?_⟩
    rw [loaded.modulePath, ← owned, ← same.path, ← foreign.2]
    rfl
  have indexed := funcIndex_origin origin registers
  unfold RecordsMember
  cases index : funcIndex build unit (origin.declIdx, origin.position) with
  | none =>
    rw [index] at indexed
    rw [replays_none_iff loaded provides refers holds indexed.symm]
    constructor
    · intro rest
      exact ⟨last, holds, rest⟩
    · rintro ⟨last', holds', rest⟩
      cases Option.some.inj (holds.symm.trans holds')
      exact rest
  | some index =>
    rw [index] at indexed
    rw [replays_some_iff loaded provides refers.toRefers holds indexed.symm]
    by_cases itself : last = origin.toClassEntry
    · subst itself
      rw [records_own_iff loaded holds indexed.symm index]
      constructor
      · intro fits
        exact ⟨_, holds, (if_pos rfl).mpr fits⟩
      · rintro ⟨last', holds', rest⟩
        cases Option.some.inj (holds.symm.trans holds')
        exact (if_pos rfl).mp rest
    · constructor
      · intro picks
        exact ⟨last, holds, (if_neg itself).mpr picks⟩
      · rintro ⟨last', holds', rest⟩
        cases Option.some.inj (holds.symm.trans holds')
        exact (if_neg itself).mp rest

end Producer

end NLang.Linker
