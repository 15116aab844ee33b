import NLang.Backend.FieldOffsets
import NLang.Linker.ClassRecords

/-!
# Field addresses

The offset that a unit computes for an instance field, against the place of the field in the layout of the linked
module.
-/

namespace NLang.Linker
open NLang.Library NLang.Library.ParentChains NLang.Image NLang.Vm NLang.Vm.VmClassLayout
open NLang.Compiler NLang.Compiler.ClassNode NLang.Backend

structure Access (tree : ClassTree) where
  classDecl : Nat
  owner : Nat
  below : List Nat
  above : List Nat
  node : ClassNode
  before : List SnClassField
  field : SnClassField
  rest : List SnClassField
  chain : tree.superChain classDecl = some (below ++ owner :: above)
  row : tree.classes[owner]? = some node
  fields : node.fields = before ++ field :: rest
  isInstance : field.isStatic = false

namespace Access
variable {tree : ClassTree} (access : Access tree)

def frontSlots : Nat := slotsOf tree access.above + access.node.handleSlots

def recordIndex : Nat := recordFront access.node + (instanceFields access.before).length

theorem inside : access.classDecl < tree.classes.length := by
  by_contra outside
  have top : tree.superOf access.classDecl = none := by
    rw [ClassTree.superOf, List.getElem?_eq_none (by omega)]
  have chain := access.chain
  rw [ClassTree.superChain] at chain
  cases room : tree.classes.length with
  | zero =>
    rw [room] at chain
    cases chain
  | succ room' =>
    rw [room, chainFrom_root top, Option.some.injEq] at chain
    have isOwner : access.owner ∈ [access.classDecl] := by rw [chain]; simp
    rw [List.mem_singleton] at isOwner
    have := (List.getElem?_eq_some_iff.mp access.row).1
    omega

theorem offset_eq (accepted : tree.Accepted) : findClassFieldOffset tree access.classDecl access.field.name =
    some (some (offsetOf (access.frontSlots + (instanceFields access.before).length))) := by
  have inside := (List.getElem?_eq_some_iff.mp access.row).1
  have ownChain : tree.superChain access.owner = some (access.owner :: access.above) := chainFrom_suffix access.chain
  have distinct := accepted access.owner inside
  have fields : tree.fieldsAt access.owner = access.before ++ access.field :: access.rest := by
    rw [ClassTree.fieldsAt, access.row, ← access.fields]
    rfl
  rw [ClassTree.fieldsDistinct, ownChain, Option.map_some, Option.some.injEq, Bool.and_eq_true, decide_eq_true_eq,
    List.tail_cons, List.all_eq_true, fields, List.map_append, List.map_cons] at distinct
  obtain ⟨nodup, unhidden⟩ := distinct
  have first : ∀ other ∈ access.before, other.name ≠ access.field.name := by
    intro other member same
    exact (List.nodup_append.mp nodup).2.2 other.name (List.mem_map_of_mem member) access.field.name (.head _) same
  have hidden : ∀ i ∈ access.above, ∀ other ∈ tree.fieldsAt i, other.name ≠ access.field.name := by
    intro i member other inside same
    have away := List.all_eq_true.mp (unhidden i member) other inside
    rw [decide_eq_true_eq, same] at away
    exact away (List.mem_append_right _ (.head _))
  have hiddenUp : ∀ i ∈ access.above.reverse, ∀ other ∈ tree.fieldsAt i, other.name ≠ access.field.name :=
    fun i member => hidden i (List.mem_reverse.mp member)
  have found := findAlong_found tree access.below.reverse access.row access.fields access.isInstance first hiddenUp
  have slots : slotsOf tree access.above.reverse = slotsOf tree access.above := by
    rw [slotsOf, List.map_reverse, List.sum_reverse]
    rfl
  rw [findClassFieldOffset, access.chain, Option.map_some, List.reverse_append, List.reverse_cons, List.append_assoc,
    List.singleton_append, found, slots]
  rfl

end Access

def fieldCountAt (classes : List CompiledClass) (c : Nat) : Nat := (classes[c]?.map (·.fieldCount.toNat)).getD 0

def inheritedFields (classes : List CompiledClass) (above : List Nat) : Nat := (above.map (fieldCountAt classes)).sum

inductive FieldPosition (classes : List CompiledClass) (layouts : List (List Entry)) (rc rd index : Nat) (field : Text)
    (k : Nat) : Prop where
  | intro (below above : List Nat) (layout : List Entry)
      (chain : superChain classes classes.length rc = some (below ++ rd :: above)) (built : layouts[rc]? = some layout)
      (own : index < fieldCountAt classes rd) (place : k = inheritedFields classes above + index)
      (named : layout[k]?.map (·.name) = some field)

def Addresses {tree : ClassTree} (access : Access tree) (merged : CompiledModule) (layouts : List (List Entry))
    (rc rd : Nat) : Prop :=
  ∃ off k, findClassFieldOffset tree access.classDecl access.field.name = some (some off) ∧
    FieldPosition merged.classes layouts rc rd access.recordIndex access.field.name k ∧ off.toNat = 4 + 8 * k

inductive RecordsAgree {tree : ClassTree} (access : Access tree) (classes : List CompiledClass) (rc rd : Nat) : Prop where
  | intro (below above : List Nat) (chain : superChain classes classes.length rc = some (below ++ rd :: above))
      (own : access.recordIndex < fieldCountAt classes rd)
      (sameFront : access.frontSlots % 2 ^ 13 = (inheritedFields classes above + recordFront access.node) % 2 ^ 13)
      (fits : inheritedFields classes above + access.recordIndex < 2 ^ 13)

theorem fieldsOf_length (classes : List CompiledClass) (c : Nat) :
    (fieldsOf classes c).length = fieldCountAt classes c := by
  unfold fieldsOf fieldCountAt ownEntries
  cases classes[c]? with
  | none => rfl
  | some cc => simp

theorem inheritedFields_eq (classes : List CompiledClass) (above : List Nat) :
    (above.reverse.flatMap (fieldsOf classes)).length = inheritedFields classes above := by
  rw [List.length_flatMap, List.map_reverse, List.sum_reverse]
  simp only [fieldsOf_length]
  rfl

section Access
variable {units : List CompiledModule} {merged : CompiledModule} {consumer : Consumer}

theorem layout_at {classes : List CompiledClass} {rc rd : Nat} {below above : List Nat} {layouts : List (List Entry)}
    (built : build classes = some layouts)
    (chain : superChain classes classes.length rc = some (below ++ rd :: above)) (inside : rc < classes.length)
    {index : Nat} (own : index < fieldCountAt classes rd) : ∃ layout, layouts[rc]? = some layout ∧
      layout[inheritedFields classes above + index]? = (fieldsOf classes rd)[index]? := by
  refine ⟨_, by rw [layout_of_build built inside, layoutOf, chain, Option.map_some], ?_⟩
  rw [List.reverse_append, List.reverse_cons, List.append_assoc, List.flatMap_append, List.singleton_append,
    List.flatMap_cons, List.getElem?_append_right (by rw [inheritedFields_eq]; omega), inheritedFields_eq,
    Nat.add_sub_cancel_left, List.getElem?_append_left (by rw [fieldsOf_length]; exact own)]

theorem record_entry {node : ClassNode} {before rest : List SnClassField} {field : SnClassField}
    (fields : node.fields = before ++ field :: rest) (isInstance : field.isStatic = false) {rd : Nat} {dd : CompiledClass}
    (at_rd : merged.classes[rd]? = some dd) (records : Records node dd)
    (own : recordFront node + (instanceFields before).length < fieldCountAt merged.classes rd) :
    (fieldsOf merged.classes rd)[recordFront node + (instanceFields before).length]?.map (·.name) =
      some field.name := by
  have named := recordNames_at fields isInstance
  rw [← records.fieldNames] at named
  rw [fieldCountAt, at_rd, Option.map_some, Option.getD_some] at own
  rw [fieldsOf, at_rd, Option.map_some, Option.getD_some, ownEntries, List.getElem?_map, List.getElem?_range own,
    Option.map_some, Option.map_some, List.getD_eq_getElem?_getD, named, Option.getD_some]

theorem addresses_iff (accepted : consumer.tree.Accepted) (access : Access consumer.tree) {layouts : List (List Entry)}
    (built : build merged.classes = some layouts) {rc rd : Nat} {dd : CompiledClass} (inside : rc < merged.classes.length)
    (at_rd : merged.classes[rd]? = some dd) (records : Records access.node dd) :
    Addresses access merged layouts rc rd ↔ RecordsAgree access merged.classes rc rd := by
  have computed := access.offset_eq accepted
  have bytes : (offsetOf (access.frontSlots + (instanceFields access.before).length)).toNat =
      (4 + 8 * (access.frontSlots + (instanceFields access.before).length)) % 2 ^ 16 := UInt16.toNat_ofNat'
  constructor
  · rintro ⟨off, k, found, ⟨below, above, layout, chain, -, own, place, -⟩, same⟩
    rw [computed, Option.some.injEq, Option.some.injEq] at found
    rw [← found, bytes, place, Access.recordIndex] at same
    refine .intro below above chain own (by omega) ?_
    rw [Access.recordIndex]
    omega
  · rintro ⟨below, above, chain, own, sameFront, fits⟩
    obtain ⟨layout, at_rc, entry⟩ := layout_at built chain inside own
    refine ⟨_, _, computed, .intro below above layout chain at_rc own rfl ?_, ?_⟩
    · rw [entry]
      exact record_entry access.fields access.isInstance at_rd records own
    · rw [Access.recordIndex] at fits ⊢
      rw [bytes]
      omega

structure StubsRebuilt (units : List CompiledModule) (tree : ClassTree) (chain : List Nat) : Prop where
  mirrored : ∀ i ∈ chain, ∀ node, tree.classes[i]? = some node → node.isImported → LinkMirrored units tree i node
  unhidden : ∀ i ∈ chain, ∀ node, tree.classes[i]? = some node → node.isImported → node.isHandleClassDecl = false

theorem recordFront_eq {chain : List Nat} (rebuilt : StubsRebuilt units consumer.tree chain) {i : Nat} (member : i ∈ chain)
    {node : ClassNode} (row : consumer.tree.classes[i]? = some node) : recordFront node = node.handleSlots := by
  unfold recordFront handleSlots
  split
  · rw [rebuilt.unhidden i member node row ‹_›]
    rfl
  · rfl

section Rebuilt
variable (sound : SuperclassesSound units) (loaded : ∀ u ∈ units, superclassChainsValid u.classes)
variable (narrow : ∀ u ∈ units, u.ownClasses.length + u.classImports.length ≤ 2 ^ 15)
variable (linked : LinkedParts units merged) (closure : InClosure units consumer)

include narrow closure in
theorem chain_mirrored {i : Nat} {chain : List Nat} (found : consumer.tree.superChain i = some chain)
    (inside : i < consumer.tree.classes.length) (rebuilt : StubsRebuilt units consumer.tree chain) :
    ∀ j ∈ chain, ∃ node, consumer.tree.classes[j]? = some node ∧ LinkMirrored units consumer.tree j node := by
  have mirrored (j : Nat) (member : j ∈ chain) (node : ClassNode) (row : consumer.tree.classes[j]? = some node) :
      LinkMirrored units consumer.tree j node := by
    cases isImported : node.isImported with
    | true => exact rebuilt.mirrored j member node row isImported
    | false => exact source_mirrored closure narrow row isImported
  have within := chainFrom_invariant found inside fun b member c insideB up => by
    cases mirrored b member _ (List.getElem?_eq_getElem insideB) with
    | root top _ => cases top.symm.trans up
    | super s base link row _ =>
      cases link.symm.trans up
      exact (List.getElem?_eq_some_iff.mp row).1
  exact fun j member => ⟨_, List.getElem?_eq_getElem (within j member), mirrored j member _ (List.getElem?_eq_getElem _)⟩

include linked closure in
theorem fieldCountAt_recordPlace {chain : List Nat} (rebuilt : StubsRebuilt units consumer.tree chain) {i : Nat}
    (member : i ∈ chain) {node : ClassNode} (row : consumer.tree.classes[i]? = some node)
    (small : node.ownSlots < 2 ^ 16) :
    fieldCountAt merged.classes (recordPlace units consumer.tree i) = node.ownSlots := by
  obtain ⟨c, cc, at_c, records⟩ := exists_record closure linked row
  rw [recordPlace_eq linked row at_c records.name, fieldCountAt, at_c, Option.map_some, Option.getD_some,
    records.fieldCount, recordNames_length, recordFront_eq rebuilt member row]
  exact UInt16.toNat_ofNat_of_lt' small

include sound loaded narrow linked closure in
theorem recordsAgree_of_rebuilt (access : Access consumer.tree)
    (rebuilt : StubsRebuilt units consumer.tree (access.below ++ access.owner :: access.above))
    (small : access.node.ownSlots < 2 ^ 16)
    (fits : access.frontSlots + (instanceFields access.before).length < 2 ^ 13) :
    RecordsAgree access merged.classes (recordPlace units consumer.tree access.classDecl)
      (recordPlace units consumer.tree access.owner) := by
  have isOwner : access.owner ∈ access.below ++ access.owner :: access.above := by simp
  have mirrored := chain_mirrored narrow closure access.chain access.inside rebuilt
  have chain := superChain_records sound loaded linked closure access.chain mirrored
  rw [List.map_append, List.map_cons] at chain
  have ownFront := recordFront_eq rebuilt isOwner access.row
  have slots (i : Nat) (member : i ∈ access.above) :
      fieldCountAt merged.classes (recordPlace units consumer.tree i) = ownSlotsAt consumer.tree i := by
    have onChain : i ∈ access.below ++ access.owner :: access.above := by simp [member]
    obtain ⟨node, row, -⟩ := mirrored i onChain
    have own : ownSlotsAt consumer.tree i = node.ownSlots := by rw [ownSlotsAt, row, Option.map_some, Option.getD_some]
    have part : ownSlotsAt consumer.tree i ≤ slotsOf consumer.tree access.above :=
      List.le_sum_of_mem (List.mem_map_of_mem member)
    rw [Access.frontSlots] at fits
    rw [own]
    exact fieldCountAt_recordPlace linked closure rebuilt onChain row (by omega)
  have total : inheritedFields merged.classes (access.above.map (recordPlace units consumer.tree)) =
      slotsOf consumer.tree access.above := by
    rw [inheritedFields, slotsOf, List.map_map]
    exact congrArg List.sum (List.map_congr_left slots)
  refine .intro _ _ chain ?_ ?_ ?_
  · rw [fieldCountAt_recordPlace linked closure rebuilt isOwner access.row small, Access.recordIndex, ownFront, ownSlots,
      access.fields]
    simp [instanceFields, access.isInstance]
  · rw [total, ownFront]
    rfl
  · rw [total, Access.recordIndex, ownFront]
    rw [Access.frontSlots] at fits
    omega

end Rebuilt

/-- An access is compiled to the offset of its field in the linked layout exactly when the records above the field's
class carry as many fields as the unit's declarations count, within the reach of an offset. That is so where the stubs
on the chain were linked to the declared superclasses. -/
theorem fieldAddresses_iff {entryKey : Text} {layouts : List (List Entry)} (linked : link units entryKey = .ok merged)
    (built : build merged.classes = some layouts) (closure : InClosure units consumer) (accepted : consumer.tree.Accepted)
    (access : Access consumer.tree) (rc rd : Nat) {cc dd : CompiledClass} (at_rc : merged.classes[rc]? = some cc)
    (className : consumer.tree.keyAt access.classDecl = some cc.name) (at_rd : merged.classes[rd]? = some dd)
    (ownerName : access.node.key = dd.name) :
    (Addresses access merged layouts rc rd ↔ RecordsAgree access merged.classes rc rd) ∧
      (SuperclassesSound units → (∀ u ∈ units, superclassChainsValid u.classes) →
        (∀ u ∈ units, u.ownClasses.length + u.classImports.length ≤ 2 ^ 15) →
        StubsRebuilt units consumer.tree (access.below ++ access.owner :: access.above) →
        access.node.ownSlots < 2 ^ 16 → access.frontSlots + (instanceFields access.before).length < 2 ^ 13 →
        RecordsAgree access merged.classes rc rd) := by
  have parts := link_ok linked
  have records := records_of_key closure parts access.row at_rd ownerName.symm
  refine ⟨addresses_iff accepted access built (List.getElem?_eq_some_iff.mp at_rc).1 at_rd records, ?_⟩
  intro sound loaded narrow rebuilt small fits
  have agree := recordsAgree_of_rebuilt sound loaded narrow parts closure access rebuilt small fits
  rw [ClassTree.keyAt, Option.map_eq_some_iff] at className
  obtain ⟨node, row, named⟩ := className
  rwa [recordPlace_eq parts row at_rc named.symm, recordPlace_eq parts access.row at_rd ownerName.symm] at agree

end Access

def baseImage : CompiledModule :=
  { modulePath := [97]
    classes := [{ name := kObjectName }, { name := [97, 46, 66], superClassIdx := 0, fieldNames := [[120]], fieldCount := 1 }] }

def derivedImage : CompiledModule :=
  { modulePath := [98]
    classes := [{ name := kObjectName }, { name := [98, 46, 68], superClassIdx := 2, fieldNames := [[121]], fieldCount := 1 },
      { name := [97, 46, 66] }]
    classImports := [{ modulePath := [97], name := [97, 46, 66] }] }

def mainUnit : CompiledModule :=
  { modulePath := [109]
    classes := [{ name := kObjectName }, { name := [98, 46, 68] }]
    classImports := [{ modulePath := [98], name := [98, 46, 68] }] }

def threeUnits : List CompiledModule := [mainUnit, baseImage, derivedImage]

def preludeTree : ClassTree :=
  { classes := [{ key := kObjectName, name := kObjectName, owner := .preludePackage }], root := [.classDecl 0] }

def onlyDerived : Consumer := { sources := preludeTree, images := [(.other, derivedImage)] }

def bothImages : Consumer := { sources := preludeTree, images := [(.other, baseImage), (.other, derivedImage)] }

def threeMerged : CompiledModule := ((link threeUnits []).toOption).getD {}

theorem threeUnits_linked : link threeUnits [] = .ok threeMerged := rfl

def threeLayouts : List (List Entry) := (build threeMerged.classes).getD []

theorem threeUnits_built : build threeMerged.classes = some threeLayouts := rfl

theorem threeUnits_loaded : ∀ u ∈ threeUnits, superclassChainsValid u.classes := by decide

theorem onlyDerived_accepted : onlyDerived.tree.Accepted := by decide

theorem bothImages_accepted : bothImages.tree.Accepted := by decide

def derivedStub (super : Option Nat) : ClassNode :=
  { key := [98, 46, 68], name := [68], isImported := true, fields := [{ name := [121] }], superClass := super }

def onlyDerivedAccess : Access onlyDerived.tree :=
  { classDecl := 1, owner := 1, below := [], above := [0], node := derivedStub none, before := [],
    field := { name := [121] }, rest := [], chain := by decide, row := by decide, fields := rfl, isInstance := rfl }

def bothImagesAccess : Access bothImages.tree :=
  { classDecl := 2, owner := 2, below := [], above := [1, 0], node := derivedStub (some 1), before := [],
    field := { name := [121] }, rest := [], chain := by decide, row := by decide, fields := rfl, isInstance := rfl }

theorem threeUnits_sources {images : List (ClassOwner × CompiledModule)}
    (loaded : ∀ image ∈ images, image = (.other, baseImage) ∨ image = (.other, derivedImage))
    (root : (Consumer.tree { sources := preludeTree, images }).superOf 0 = none) :
    InClosure threeUnits { sources := preludeTree, images } := by
  refine ⟨fun node member => ?_, fun i node row => ?_, fun image member row isOwn => ?_⟩
  · rw [List.mem_singleton.mp member]
  · cases i with
    | zero =>
      cases row
      exact ⟨0, mainUnit, { name := kObjectName }, rfl, rfl, rfl, rfl, by rw [superClassSlot, root]⟩
    | succ i => cases row
  · rcases loaded image member with rfl | rfl
    · have rows : row = { name := kObjectName } ∨ row = baseImage.classes[1] := List.mem_pair.mp isOwn
      rcases rows with rfl | rfl
      · exact ⟨rfl, 0, _, rfl, rfl, rfl⟩
      · exact ⟨rfl, 1, _, rfl, rfl, rfl⟩
    · have rows : row = { name := kObjectName } ∨ row = derivedImage.classes[1] := List.mem_pair.mp isOwn
      rcases rows with rfl | rfl
      · exact ⟨rfl, 0, _, rfl, rfl, rfl⟩
      · exact ⟨rfl, 2, _, rfl, rfl, rfl⟩

theorem onlyDerived_closure : InClosure threeUnits onlyDerived := by
  refine threeUnits_sources (fun image member => ?_) (by decide)
  exact .inr (List.mem_singleton.mp member)

theorem bothImages_closure : InClosure threeUnits bothImages := by
  refine threeUnits_sources (fun image member => ?_) (by decide)
  exact List.mem_pair.mp member

theorem threeUnits_super {name base : Text} (up : SuperOf threeUnits name base) :
    (name = [97, 46, 66] ∧ base = kObjectName) ∨ (name = [98, 46, 68] ∧ base = [97, 46, 66]) := by
  rw [SuperOf, superName] at up
  split at up
  · cases up
  · rename_i unit cc supplied
    have named : cc.name = name := by simpa using List.find?_some supplied
    have member : (unit, cc) ∈ [(0, { name := kObjectName }), (1, { name := kObjectName }),
        (1, { name := [97, 46, 66], superClassIdx := 0, fieldNames := [[120]], fieldCount := 1 }),
        (2, { name := kObjectName }),
        (2, { name := [98, 46, 68], superClassIdx := 2, fieldNames := [[121]], fieldCount := 1 })] :=
      List.mem_of_find?_eq_some supplied
    simp only [List.mem_cons, Prod.mk.injEq, List.not_mem_nil, or_false] at member
    subst named
    rcases member with ⟨rfl, rfl⟩ | ⟨rfl, rfl⟩ | ⟨rfl, rfl⟩ | ⟨rfl, rfl⟩ | ⟨rfl, rfl⟩
    · cases up
    · cases up
    · cases up
      exact .inl ⟨rfl, rfl⟩
    · cases up
    · cases up
      exact .inr ⟨rfl, rfl⟩

theorem threeUnits_sound : SuperclassesSound threeUnits := by
  constructor
  · intro name cycle
    obtain ⟨base, up, -⟩ := Relation.TransGen.head'_iff.mp cycle
    rcases threeUnits_super up with ⟨rfl, -⟩ | ⟨rfl, -⟩
    · have chain : chainFrom (superName threeUnits) 2 [97, 46, 66] = some [[97, 46, 66], kObjectName] := rfl
      exact not_cyclic_of_chain chain cycle
    · have chain : chainFrom (superName threeUnits) 3 [98, 46, 68] =
          some [[98, 46, 68], [97, 46, 66], kObjectName] := rfl
      exact not_cyclic_of_chain chain cycle
  · intro name base up
    rcases threeUnits_super up with ⟨-, rfl⟩ | ⟨-, rfl⟩
    · decide
    · decide

theorem bothImages_rebuilt : StubsRebuilt threeUnits bothImages.tree [2, 1, 0] := by
  constructor
  · intro i member node row isImported
    simp only [List.mem_cons, List.not_mem_nil, or_false] at member
    rcases member with rfl | rfl | rfl
    · cases row
      exact .super 1 _ rfl rfl rfl
    · cases row
      exact .super 0 _ (by decide) rfl rfl
    · cases row
      cases isImported
  · decide

theorem bothImages_addresses_iff :
    (Addresses bothImagesAccess threeMerged threeLayouts 2 2 ↔ RecordsAgree bothImagesAccess threeMerged.classes 2 2) ∧
      RecordsAgree bothImagesAccess threeMerged.classes 2 2 := by
  have addressed := fieldAddresses_iff threeUnits_linked threeUnits_built bothImages_closure bothImages_accepted
    bothImagesAccess 2 2 rfl rfl rfl rfl
  exact ⟨addressed.1, addressed.2 threeUnits_sound threeUnits_loaded (by decide) bothImages_rebuilt (by decide) (by decide)⟩

theorem onlyDerived_not_addressed : ¬ ∀ (units : List CompiledModule) (consumer : Consumer) (entryKey : Text)
    (merged : CompiledModule) (layouts : List (List Entry)), link units entryKey = .ok merged →
    build merged.classes = some layouts → SuperclassesSound units → InClosure units consumer → consumer.tree.Accepted →
    ∀ (access : Access consumer.tree) (rc rd : Nat) (cc dd : CompiledClass), merged.classes[rc]? = some cc →
      consumer.tree.keyAt access.classDecl = some cc.name → merged.classes[rd]? = some dd →
      access.node.key = dd.name → Addresses access merged layouts rc rd := by
  intro claim
  have addressed := claim threeUnits onlyDerived [] threeMerged threeLayouts threeUnits_linked threeUnits_built
    threeUnits_sound onlyDerived_closure onlyDerived_accepted onlyDerivedAccess 2 2 _ _ rfl rfl rfl rfl
  obtain ⟨off, k, found, ⟨below, above, layout, chain, at_rc, -, place, -⟩, same⟩ := addressed
  have off4 : off = 4 := by
    have computed := onlyDerivedAccess.offset_eq onlyDerived_accepted
    rw [computed, Option.some.injEq, Option.some.injEq] at found
    rw [← found]
    decide
  have links : superChain threeMerged.classes threeMerged.classes.length 2 = some [2, 1, 0] := rfl
  rw [links, Option.some.injEq] at chain
  have behind : k = 1 := by
    rw [place]
    cases below with
    | nil =>
      obtain rfl := (List.cons.inj chain).2
      rfl
    | cons first below =>
      have rest := (List.cons.inj chain).2
      have again : 2 ∈ [1, 0] := by rw [rest]; simp
      simp at again
  rw [off4, behind] at same
  exact absurd same (by decide)

end NLang.Linker
