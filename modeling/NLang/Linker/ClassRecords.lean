import NLang.Compiler.ClassTree
import NLang.Linker.ClassLayouts

/-!
# Records of declared classes

The classes that a unit is compiled against, and the records that stand for them in the linked module.
-/

namespace NLang.Linker
open NLang.Library NLang.Library.KeyedMerge NLang.Library.ParentChains NLang.Image NLang.Vm NLang.Vm.VmClassLayout
open NLang.Compiler NLang.Compiler.ClassNode

structure Consumer where
  sources : ClassTree
  images : List (ClassOwner × CompiledModule)

def Consumer.tree (consumer : Consumer) : ClassTree := consumer.images.foldl ClassTree.loadModule consumer.sources

def classSlotFor (u : CompiledModule) (key : Text) : Option Nat :=
  match u.ownClasses.findIdx? (·.name = key) with
  | some own => some own
  | none => (u.classImports.findIdx? (·.name = key)).map (u.ownClasses.length + ·)

def superClassSlot (u : CompiledModule) (tree : ClassTree) (i : Nat) : Option Int16 :=
  match tree.superOf i with
  | none => some (-1)
  | some super => ((tree.keyAt super).bind (classSlotFor u)).map Int16.ofNat

structure InClosure (units : List CompiledModule) (consumer : Consumer) : Prop where
  declared : ∀ node ∈ consumer.sources.classes, node.isImported = false
  registered : ∀ (i : Nat) (node : ClassNode), consumer.sources.classes[i]? = some node → ∃ unit u row,
    units[unit]? = some u ∧ supplier units node.key = some (unit, row) ∧
      row.fieldNames = node.registerClassDecl.fieldNames ∧ row.fieldCount = node.registerClassDecl.fieldCount ∧
      superClassSlot u consumer.tree i = some row.superClassIdx
  loaded : ∀ image ∈ consumer.images, ∀ row ∈ image.2.ownClasses, row.fieldNames.length = row.fieldCount.toNat ∧
    ∃ unit row', supplier units row.name = some (unit, row') ∧ row'.fieldNames = row.fieldNames ∧
      row'.fieldCount = row.fieldCount

inductive ClassOrigin (consumer : Consumer) (i : Nat) (node : ClassNode) : Prop where
  | source (row : consumer.sources.classes[i]? = some node)
  | stub (image : ClassOwner × CompiledModule) (loaded : image ∈ consumer.images) (cc : CompiledClass)
      (isOwn : cc ∈ image.2.ownClasses) (stubOf : ClassTree.IsStubOf image.1 cc node)

theorem classOrigin {consumer : Consumer} {i : Nat} {node : ClassNode} (row : consumer.tree.classes[i]? = some node) :
    ClassOrigin consumer i node := by
  obtain ⟨sources, images⟩ := consumer
  have along (done rest : List (ClassOwner × CompiledModule)) (tree : ClassTree) (all : images = done ++ rest)
      (start : ∀ (j : Nat) (node : ClassNode), tree.classes[j]? = some node → ClassOrigin ⟨sources, images⟩ j node) :
      ∀ (j : Nat) (node : ClassNode), (rest.foldl ClassTree.loadModule tree).classes[j]? = some node →
        ClassOrigin ⟨sources, images⟩ j node := by
    induction rest generalizing done tree with
    | nil => exact start
    | cons image rest ih =>
      refine ih (done ++ [image]) _ (by rw [all, List.append_assoc, List.singleton_append]) fun j node row => ?_
      rcases ClassTree.loadModule_class row with old | ⟨cc, isOwn, stubOf⟩
      · exact start j node old
      · have member : image ∈ images := by rw [all]; exact List.mem_append_right _ (.head _)
        exact .stub image member cc isOwn stubOf
  exact along [] images sources rfl (fun j node row => .source row) i node row

def recordFront (node : ClassNode) : Nat := if node.isImported then 0 else node.handleSlots

def recordNames (node : ClassNode) : List Text :=
  if node.isImported then (instanceFields node.fields).map (·.name) else node.ownFieldNames

theorem recordNames_length (node : ClassNode) :
    (recordNames node).length = recordFront node + (instanceFields node.fields).length := by
  unfold recordNames recordFront ownFieldNames handleSlots
  split
  · simp
  · split <;> simp [Nat.add_comm]

theorem recordNames_at {node : ClassNode} {before rest : List SnClassField} {field : SnClassField}
    (fields : node.fields = before ++ field :: rest) (isInstance : field.isStatic = false) :
    (recordNames node)[recordFront node + (instanceFields before).length]? = some field.name := by
  have declared : instanceFields node.fields = instanceFields before ++ field :: instanceFields rest := by
    simp [instanceFields, fields, isInstance]
  have own : ((instanceFields node.fields).map (·.name))[(instanceFields before).length]? = some field.name := by
    rw [declared, List.getElem?_map, List.getElem?_append_right (Nat.le_refl _), Nat.sub_self]
    rfl
  unfold recordNames recordFront ownFieldNames handleSlots
  split
  · rwa [Nat.zero_add]
  · split
    · rw [List.getElem?_append_right (by simp)]
      simpa using own
    · rwa [List.nil_append, Nat.zero_add]

theorem recordNames_stub {owner : ClassOwner} {cc : CompiledClass} {super : Option Nat}
    (full : cc.fieldNames.length = cc.fieldCount.toNat) :
    recordNames { ClassTree.createClassStub owner cc with superClass := super } = cc.fieldNames := by
  have takes : stubFields cc = cc.fieldNames.length := by simp [stubFields, full]
  simp [recordNames, ClassTree.createClassStub, ClassTree.stubFieldsOf, instanceFields, takes, List.filter_map,
    Function.comp_def]

structure Records (node : ClassNode) (cc : CompiledClass) : Prop where
  name : cc.name = node.key
  fieldNames : cc.fieldNames = recordNames node
  fieldCount : cc.fieldCount = UInt16.ofNat (recordNames node).length

theorem remapClassMetadata_fields {maps : UnitMaps} {cc cc' : CompiledClass}
    (remapped : remapClassMetadata maps cc = .ok cc') :
    cc'.fieldNames = cc.fieldNames ∧ cc'.fieldCount = cc.fieldCount := by
  rw [remapClassMetadata] at remapped
  obtain ⟨_, -, remapped⟩ := except_bind_ok.mp remapped
  obtain ⟨_, -, remapped⟩ := except_bind_ok.mp remapped
  obtain ⟨_, -, remapped⟩ := except_bind_ok.mp remapped
  obtain ⟨_, -, remapped⟩ := except_bind_ok.mp remapped
  obtain ⟨_, -, remapped⟩ := except_bind_ok.mp remapped
  obtain ⟨_, -, remapped⟩ := except_bind_ok.mp remapped
  obtain ⟨_, -, remapped⟩ := except_bind_ok.mp remapped
  obtain ⟨_, -, remapped⟩ := except_bind_ok.mp remapped
  cases remapped
  exact ⟨rfl, rfl⟩

section Linked
variable {units : List CompiledModule} {merged : CompiledModule}

theorem linked_supplier (linked : LinkedParts units merged) {name : Text} {unit : Nat} {row : CompiledClass}
    (supplied : supplier units name = some (unit, row)) : ∃ (c : Nat) (cc : CompiledClass),
      merged.classes[c]? = some cc ∧ cc.name = name ∧ cc.fieldNames = row.fieldNames ∧ cc.fieldCount = row.fieldCount := by
  have named : row.name = name := by simpa using List.find?_some supplied
  obtain ⟨c, cc, at_c, same⟩ :=
    typeRow_covers (merges_classes units) keeps_className linked.classes (List.mem_of_find?_eq_some supplied)
  obtain ⟨unit', _, source, -, -, converted, found⟩ :=
    typeRow_ok (merges_classes units) keeps_className linked.classes at_c
  have again : supplier units cc.name = some (unit', source) := found
  rw [same, named, supplied] at again
  cases again
  obtain ⟨fieldNames, fieldCount⟩ := remapClassMetadata_fields converted
  exact ⟨c, cc, at_c, same.trans named, fieldNames, fieldCount⟩

theorem exists_record {consumer : Consumer} (closure : InClosure units consumer) (linked : LinkedParts units merged)
    {i : Nat} {node : ClassNode} (row : consumer.tree.classes[i]? = some node) :
    ∃ (c : Nat) (cc : CompiledClass), merged.classes[c]? = some cc ∧ Records node cc := by
  cases classOrigin row with
  | source row =>
    obtain ⟨unit, u, record, -, supplied, fieldNames, fieldCount, -⟩ := closure.registered i node row
    obtain ⟨c, cc, at_c, name, sameNames, sameCount⟩ := linked_supplier linked supplied
    have isSource := closure.declared node (List.mem_of_getElem? row)
    have names : recordNames node = node.ownFieldNames := by simp [recordNames, isSource]
    refine ⟨c, cc, at_c, name, ?_, ?_⟩
    · rw [sameNames, fieldNames, names]
      rfl
    · rw [sameCount, fieldCount, names]
      rfl
  | stub image loaded record isOwn stubOf =>
    obtain ⟨super, rfl⟩ := stubOf
    obtain ⟨full, unit, row', supplied, fieldNames, fieldCount⟩ := closure.loaded image loaded record isOwn
    obtain ⟨c, cc, at_c, name, sameNames, sameCount⟩ := linked_supplier linked supplied
    have names : recordNames { ClassTree.createClassStub image.1 record with superClass := super } =
        record.fieldNames := by
      exact recordNames_stub full
    refine ⟨c, cc, at_c, name, ?_, ?_⟩
    · rw [sameNames, fieldNames, names]
    · rw [sameCount, fieldCount, names, full, UInt16.ofNat_toNat]

theorem records_of_key {consumer : Consumer} (closure : InClosure units consumer) (linked : LinkedParts units merged)
    {i : Nat} {node : ClassNode} (row : consumer.tree.classes[i]? = some node) {c : Nat} {cc : CompiledClass}
    (at_c : merged.classes[c]? = some cc) (named : cc.name = node.key) : Records node cc := by
  obtain ⟨d, dd, at_d, records⟩ := exists_record closure linked row
  have here := idxOf_classOrder linked at_c
  have there := idxOf_classOrder linked at_d
  rw [named] at here
  rw [records.name, here] at there
  subst there
  cases at_c.symm.trans at_d
  exact records

inductive LinkMirrored (units : List CompiledModule) (tree : ClassTree) (i : Nat) (node : ClassNode) : Prop where
  | root (top : tree.superOf i = none) (declared : superName units node.key = none)
  | super (s : Nat) (base : ClassNode) (link : tree.superOf i = some s) (row : tree.classes[s]? = some base)
      (declared : superName units node.key = some base.key)

theorem classNameAt_classSlotFor {u : CompiledModule} {key : Text} {slot : Nat} (found : classSlotFor u key = some slot) :
    classNameAt u slot = some key ∧ slot < u.ownClasses.length + u.classImports.length := by
  unfold classSlotFor at found
  split at found
  · rename_i own isOwn
    cases found
    obtain ⟨inside, named, -⟩ := List.findIdx?_eq_some_iff_getElem.mp isOwn
    rw [decide_eq_true_eq] at named
    refine ⟨?_, by omega⟩
    rw [classNameAt, if_pos inside, List.getElem?_eq_getElem inside, Option.map_some, named]
  · rw [Option.map_eq_some_iff] at found
    obtain ⟨j, isImport, rfl⟩ := found
    obtain ⟨inside, named, -⟩ := List.findIdx?_eq_some_iff_getElem.mp isImport
    rw [decide_eq_true_eq] at named
    refine ⟨?_, by omega⟩
    rw [classNameAt, if_neg (by omega), Nat.add_sub_cancel_left, List.getElem?_eq_getElem inside, Option.map_some, named]

theorem source_mirrored {consumer : Consumer} (closure : InClosure units consumer)
    (narrow : ∀ u ∈ units, u.ownClasses.length + u.classImports.length ≤ 2 ^ 15) {i : Nat} {node : ClassNode}
    (row : consumer.tree.classes[i]? = some node) (isSource : node.isImported = false) :
    LinkMirrored units consumer.tree i node := by
  cases classOrigin row with
  | stub image loaded record isOwn stubOf =>
    obtain ⟨super, rfl⟩ := stubOf
    cases isSource
  | source row =>
    obtain ⟨unit, u, record, at_unit, supplied, -, -, slot⟩ := closure.registered i node row
    have isUnit : units.getD unit {} = u := by rw [List.getD_eq_getElem?_getD, at_unit, Option.getD_some]
    have declared : superName units node.key =
        if record.superClassIdx.toInt < 0 then none else classNameAt u record.superClassIdx.toInt.toNat := by
      rw [superName, supplied]
      dsimp only
      rw [isUnit]
    unfold superClassSlot at slot
    split at slot
    · rename_i top
      exact .root top (by rw [declared, ← Option.some.inj slot]; rfl)
    · rename_i s link
      rw [Option.map_eq_some_iff] at slot
      obtain ⟨idx, found, narrowed⟩ := slot
      rw [Option.bind_eq_some_iff] at found
      obtain ⟨key, at_key, found⟩ := found
      rw [ClassTree.keyAt, Option.map_eq_some_iff] at at_key
      obtain ⟨base, at_s, rfl⟩ := at_key
      obtain ⟨named, inside⟩ := classNameAt_classSlotFor found
      have small := narrow u (List.mem_of_getElem? at_unit)
      have same : record.superClassIdx.toInt = idx := by rw [← narrowed, Int16.toInt_ofNat_of_lt (by omega)]
      refine .super s base link at_s ?_
      rw [declared, if_neg (by omega), same, Int.toNat_natCast, named]

def recordPlace (units : List CompiledModule) (tree : ClassTree) (i : Nat) : Nat :=
  (classOrder units).idxOf ((tree.keyAt i).getD [])

theorem recordPlace_eq (linked : LinkedParts units merged) {tree : ClassTree} {i : Nat} {node : ClassNode}
    (row : tree.classes[i]? = some node) {c : Nat} {cc : CompiledClass} (at_c : merged.classes[c]? = some cc)
    (named : cc.name = node.key) : recordPlace units tree i = c := by
  rw [recordPlace, ClassTree.keyAt, row, Option.map_some, Option.getD_some, ← named, idxOf_classOrder linked at_c]

theorem superIdx_recordPlace (sound : SuperclassesSound units)
    (loaded : ∀ u ∈ units, superclassChainsValid u.classes) (linked : LinkedParts units merged) {consumer : Consumer}
    (closure : InClosure units consumer) {i : Nat} {node : ClassNode} (row : consumer.tree.classes[i]? = some node)
    (mirrored : LinkMirrored units consumer.tree i node) :
    superIdx merged.classes (recordPlace units consumer.tree i) =
      (consumer.tree.superOf i).map (recordPlace units consumer.tree) := by
  obtain ⟨c, cc, at_c, records⟩ := exists_record closure linked row
  rw [recordPlace_eq linked row at_c records.name]
  have declared := superLink_sound sound loaded linked at_c
  rw [records.name] at declared
  cases mirrored with
  | root top none =>
    rcases declared with ⟨-, root⟩ | ⟨s, base, super, -, -⟩
    · rw [top, Option.map_none, superIdx_root at_c root]
    · cases none.symm.trans super
  | super s base link at_s super =>
    rcases declared with ⟨none, -⟩ | ⟨d, baseClass, super', at_d, linkIdx⟩
    · cases none.symm.trans super
    · have named : baseClass.name = base.key := Option.some.inj (super'.symm.trans super)
      rw [link, Option.map_some, superIdx_super at_c linkIdx, recordPlace_eq linked at_s at_d named]

theorem superChain_records (sound : SuperclassesSound units)
    (loaded : ∀ u ∈ units, superclassChainsValid u.classes) (linked : LinkedParts units merged) {consumer : Consumer}
    (closure : InClosure units consumer) {i : Nat} {chain : List Nat} (found : consumer.tree.superChain i = some chain)
    (mirrored : ∀ j ∈ chain, ∃ node, consumer.tree.classes[j]? = some node ∧ LinkMirrored units consumer.tree j node) :
    superChain merged.classes merged.classes.length (recordPlace units consumer.tree i) =
      some (chain.map (recordPlace units consumer.tree)) := by
  have inRange := linksInRange sound loaded linked
  have above := chainFrom_map found fun j member => by
    obtain ⟨node, row, link⟩ := mirrored j member
    exact superIdx_recordPlace sound loaded linked closure row link
  have inside : recordPlace units consumer.tree i < merged.classes.length := by
    obtain ⟨rest, rfl⟩ := chainFrom_head found
    obtain ⟨node, row, -⟩ := mirrored i (.head _)
    obtain ⟨c, cc, at_c, records⟩ := exists_record closure linked row
    rw [recordPlace_eq linked row at_c records.name]
    exact (List.getElem?_eq_some_iff.mp at_c).1
  have closed : ∀ a ∈ List.range merged.classes.length, ∀ b, superIdx merged.classes a = some b →
      b ∈ List.range merged.classes.length := fun a _ b up => List.mem_range.mpr (inRange a b up)
  obtain ⟨chain', found'⟩ :=
    chainFrom_total (acyclic_superIdx sound loaded linked) closed (List.mem_range.mpr inside)
  rw [List.length_range] at found'
  rw [superChain_eq inRange _ inside, found', chainFrom_agree found' above]

end Linked

end NLang.Linker
