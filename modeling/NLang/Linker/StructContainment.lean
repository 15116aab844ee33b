import NLang.Compiler.StructCycles
import NLang.Linker.LinkedTables
import NLang.Vm.StructContainment

/-!
# Containment of structs in a linked module

Linking binds the struct indices of each unit by name across units and narrows them to 16 bits. Neither the loader nor
the linker looks at what contains what.
-/

namespace NLang.Linker
open NLang.Compiler NLang.Library NLang.Library.KeyedMerge NLang.Library.DepthFirst NLang.Image NLang.Vm.StructContainment

section Declared
variable (units : List CompiledModule)

def structSupplier (name : Text) : Option (Nat × CompiledStruct) :=
  (tagged (units.map (·.ownStructs))).find? (·.2.name = name)

def structNameAt (u : CompiledModule) (idx : Nat) : Option Text :=
  if idx < u.ownStructs.length then u.ownStructs[idx]?.map (·.name)
  else u.structImports[idx - u.ownStructs.length]?.map (·.name)

def structOrder : List Text := firstSeen ((units.map (·.ownStructs)).flatten.map (·.name))

def narrowedStruct (name : Text) : Option Text :=
  let idx := UInt16.ofNat ((structOrder units).idxOf name)
  if idx = noIndex then none else (structOrder units)[idx.toNat]?

def containedNames (name : Text) : List Text :=
  match structSupplier units name with
  | none => []
  | some (unit, cs) =>
    (nestedFields cs).filterMap fun (_, idx) => (structNameAt (units.getD unit {}) idx).bind (narrowedStruct units)

def ContainmentAcyclic : Prop := Acyclic (containedNames units)

end Declared

section Linked
variable {units : List CompiledModule} {merged : CompiledModule}

theorem structMap_ok (resolved : resolveProblems units = []) {unit : Nat} {u : CompiledModule}
    (at_unit : units[unit]? = some u) {s d : Nat} (mapped : (unitMaps units unit).structs[s]? = some d) :
    ∃ row, structNameAt u s = some row.name ∧ (mergeStructs units).table[d]? = some row := by
  have isUnit : units.getD unit {} = u := by rw [List.getD_eq_getElem?_getD, at_unit, Option.getD_some]
  have clean : (resolveStructSlots units u).1 = [] := by
    have noTypes := (List.append_eq_nil_iff.mp (List.append_eq_nil_iff.mp resolved).1).2
    have ofUnit := List.flatMap_eq_nil_iff.mp noTypes u (List.mem_of_getElem? at_unit)
    exact (List.append_eq_nil_iff.mp (List.append_eq_nil_iff.mp ofUnit).1).2
  rw [unitMaps, isUnit] at mapped
  exact typeSlot_ok (merges_structs units) at_unit clean mapped

theorem remapStructMetadata_ok {maps : UnitMaps} {cs cs' : CompiledStruct} (remapped : remapStructMetadata maps cs = .ok cs') :
    cs'.name = cs.name ∧ cs'.fieldCount = cs.fieldCount ∧ cs'.fieldTypeKinds = cs.fieldTypeKinds ∧
      cs.fieldStructIndices.mapM (remapIndexOrNone maps.structs) = .ok cs'.fieldStructIndices := by
  rw [remapStructMetadata] at remapped
  obtain ⟨indices, indicesOk, remapped⟩ := except_bind_ok.mp remapped
  obtain ⟨_, -, remapped⟩ := except_bind_ok.mp remapped
  obtain ⟨_, -, remapped⟩ := except_bind_ok.mp remapped
  obtain ⟨_, -, remapped⟩ := except_bind_ok.mp remapped
  obtain ⟨_, -, remapped⟩ := except_bind_ok.mp remapped
  cases remapped
  exact ⟨rfl, rfl, rfl, indicesOk⟩

theorem keeps_structName (unit : Nat) (row row' : CompiledStruct)
    (remapped : remapStructMetadata (unitMaps units unit) row = .ok row') : row'.name = row.name :=
  (remapStructMetadata_ok remapped).1

theorem merged_struct_names (linked : LinkedParts units merged) : merged.structs.map (·.name) = structOrder units :=
  typeNames (merges_structs units) keeps_structName linked.structs (mergeUnits_names firstStays_never _)

theorem idxOf_structOrder (linked : LinkedParts units merged) {d : Nat} {row : CompiledStruct}
    (at_d : merged.structs[d]? = some row) : (structOrder units).idxOf row.name = d := by
  rw [← merged_struct_names linked]
  refine idxOf_name ?_ at_d
  rw [merged_struct_names linked]
  exact firstSeen_nodup _

private theorem mapM_getElem? {f : UInt16 → Except LinkError UInt16} {items items' : List UInt16}
    (mapped : items.mapM f = .ok items') (i : Nat) :
    (items[i]? = none ∧ items'[i]? = none) ∨ ∃ item item', items[i]? = some item ∧ items'[i]? = some item' ∧ f item = .ok item' := by
  induction items generalizing items' i with
  | nil =>
    cases mapped
    exact .inl ⟨rfl, rfl⟩
  | cons item items ih =>
    rw [List.mapM_cons] at mapped
    obtain ⟨item', first, mapped⟩ := except_bind_ok.mp mapped
    obtain ⟨others, rest, mapped⟩ := except_bind_ok.mp mapped
    cases mapped
    cases i with
    | zero => exact .inr ⟨item, item', rfl, rfl, first⟩
    | succ i => exact ih rest i

theorem remapIndexOrNone_ne {map : List Nat} {idx idx' : UInt16} (remapped : remapIndexOrNone map idx = .ok idx')
    (present : idx' ≠ noIndex) : idx ≠ noIndex := by
  rintro rfl
  rw [remapIndexOrNone, if_pos rfl] at remapped
  cases remapped
  exact present rfl

theorem fieldStruct_ok (linked : LinkedParts units merged) {unit : Nat} {u : CompiledModule} (at_unit : units[unit]? = some u)
    {idx idx' : UInt16} (remapped : remapIndexOrNone (unitMaps units unit).structs idx = .ok idx') (present : idx ≠ noIndex) :
    idx'.toNat < merged.structs.length ∧
      ∃ target, structNameAt u idx.toNat = some target ∧ idx' = UInt16.ofNat ((structOrder units).idxOf target) := by
  rw [remapIndexOrNone, if_neg present] at remapped
  obtain ⟨d, found, remapped⟩ := except_bind_ok.mp remapped
  cases remapped
  rw [lookup] at found
  split at found
  · rename_i mapped
    cases found
    obtain ⟨row, named, at_d⟩ := structMap_ok linked.resolved at_unit mapped
    obtain ⟨final, at_final, same⟩ := typeRow_final (merges_structs units) keeps_structName linked.structs at_d
    refine ⟨?_, row.name, named, ?_⟩
    · have inside := (List.getElem?_eq_some_iff.mp at_final).1
      have narrower := Nat.mod_le d (2 ^ 16)
      rw [UInt16.toNat_ofNat']
      omega
    · rw [← same, idxOf_structOrder linked at_final]
  · cases found

theorem structOrder_getElem? (linked : LinkedParts units merged) (s : Nat) :
    (structOrder units)[s]? = merged.structs[s]?.map (·.name) := by
  rw [← merged_struct_names linked, List.getElem?_map]

theorem contained_iff (linked : LinkedParts units merged) {s : Nat} {row : CompiledStruct} (at_s : merged.structs[s]? = some row)
    (target : Text) :
    target ∈ containedNames units row.name ↔ ∃ t targetRow, Edge (contained merged.structs) s t ∧
      merged.structs[t]? = some targetRow ∧ targetRow.name = target := by
  obtain ⟨unit, u, source, at_unit, -, converted, supplied⟩ :=
    typeRow_ok (merges_structs units) keeps_structName linked.structs at_s
  have isUnit : units.getD unit {} = u := by rw [List.getD_eq_getElem?_getD, at_unit, Option.getD_some]
  obtain ⟨-, count, kinds, indices⟩ := remapStructMetadata_ok converted
  rw [containedNames, structSupplier, supplied]
  dsimp only
  rw [isUnit, List.mem_filterMap]
  constructor
  · rintro ⟨⟨i, idx⟩, member, found⟩
    obtain ⟨inside, kind, index, at_i, present, rfl⟩ := mem_nestedFields.mp member
    obtain ⟨declared, named, narrowed⟩ := Option.bind_eq_some_iff.mp found
    rcases mapM_getElem? indices i with ⟨absent, -⟩ | ⟨item, item', at_item, at_item', remapped⟩
    · cases absent.symm.trans at_i
    · cases at_item.symm.trans at_i
      obtain ⟨-, declared', named', isPlace⟩ := fieldStruct_ok linked at_unit remapped present
      cases named.symm.trans named'
      rw [narrowedStruct, ← isPlace] at narrowed
      split at narrowed
      · cases narrowed
      · rename_i present'
        rw [structOrder_getElem? linked, Option.map_eq_some_iff] at narrowed
        obtain ⟨targetRow, at_t, same⟩ := narrowed
        refine ⟨item'.toNat, targetRow, (edge_contained at_s).mpr ⟨i, ?_⟩, at_t, same⟩
        exact mem_nestedFields.mpr ⟨count ▸ inside, kinds ▸ kind, item', at_item', present', rfl⟩
  · rintro ⟨t, targetRow, edge, at_t, same⟩
    obtain ⟨i, member⟩ := (edge_contained at_s).mp edge
    obtain ⟨inside, kind, item', at_item', present', rfl⟩ := mem_nestedFields.mp member
    rcases mapM_getElem? indices i with ⟨-, absent⟩ | ⟨item, item'', at_item, at_item'', remapped⟩
    · cases absent.symm.trans at_item'
    · cases at_item''.symm.trans at_item'
      have present := remapIndexOrNone_ne remapped present'
      obtain ⟨-, declared, named, isPlace⟩ := fieldStruct_ok linked at_unit remapped present
      refine ⟨(i, item.toNat), mem_nestedFields.mpr ⟨count ▸ inside, kinds ▸ kind, item, at_item, present, rfl⟩, ?_⟩
      refine Option.bind_eq_some_iff.mpr ⟨declared, named, ?_⟩
      rw [narrowedStruct, ← isPlace, if_neg present', structOrder_getElem? linked, at_t, Option.map_some, same]

theorem edge_inside (linked : LinkedParts units merged) {s t : Nat} (edge : Edge (contained merged.structs) s t) :
    ∃ row targetRow, merged.structs[s]? = some row ∧ merged.structs[t]? = some targetRow := by
  have at_s := List.getElem?_eq_getElem (List.mem_range.mp (inside_of_edge edge))
  obtain ⟨unit, u, source, at_unit, -, converted, -⟩ :=
    typeRow_ok (merges_structs units) keeps_structName linked.structs at_s
  obtain ⟨-, -, -, indices⟩ := remapStructMetadata_ok converted
  obtain ⟨i, member⟩ := (edge_contained at_s).mp edge
  obtain ⟨-, -, idx', at_idx', present, rfl⟩ := mem_nestedFields.mp member
  rcases mapM_getElem? indices i with ⟨-, absent⟩ | ⟨idx, idx'', -, at_idx'', remapped⟩
  · cases absent.symm.trans at_idx'
  · cases at_idx''.symm.trans at_idx'
    obtain ⟨inside, -⟩ := fieldStruct_ok linked at_unit remapped (remapIndexOrNone_ne remapped present)
    exact ⟨_, _, at_s, List.getElem?_eq_getElem inside⟩

theorem contained_acyclic_iff (linked : LinkedParts units merged) :
    Acyclic (contained merged.structs) ↔ ContainmentAcyclic units := by
  constructor
  · refine fun acyclic => acyclic.of_map (structOrder units).idxOf fun name target edge => ?_
    have supplied : ∃ unit cs, structSupplier units name = some (unit, cs) := by
      cases found : structSupplier units name with
      | none =>
        rw [Edge, containedNames, found] at edge
        cases edge
      | some supplier => exact ⟨supplier.1, supplier.2, rfl⟩
    obtain ⟨unit, cs, supplied⟩ := supplied
    have named : cs.name = name := by simpa using List.find?_some supplied
    obtain ⟨s, row, at_s, same⟩ :=
      typeRow_covers (merges_structs units) keeps_structName linked.structs (List.mem_of_find?_eq_some supplied)
    obtain rfl : row.name = name := same.trans named
    obtain ⟨t, targetRow, edge', at_t, rfl⟩ := (contained_iff linked at_s target).mp edge
    rwa [idxOf_structOrder linked at_s, idxOf_structOrder linked at_t]
  · refine fun acyclic => acyclic.of_map (fun s => (structOrder units).getD s []) fun s t edge => ?_
    obtain ⟨row, targetRow, at_s, at_t⟩ := edge_inside linked edge
    have declared : Edge (containedNames units) row.name targetRow.name :=
      (contained_iff linked at_s targetRow.name).mpr ⟨t, targetRow, edge, at_t, rfl⟩
    simpa only [List.getD_eq_getElem?_getD, structOrder_getElem? linked, at_s, at_t, Option.map_some, Option.getD_some]
      using declared

end Linked

/-- The check of the compiler leaves no struct that contains itself. The structs of a linked module contain one another
without a cycle, and the recursions over them end, exactly when the units declare no cycle between them. -/
theorem structs_wellFounded_iff (tree : StructTree) (units : List CompiledModule) (entryKey : Text) (merged : CompiledModule) :
    (tree.checkStructCircularRefs = none → ∀ node, ¬ Relation.TransGen tree.Contains node node) ∧
      (link units entryKey = .ok merged → (WellFounded merged.structs ↔ ContainmentAcyclic units)) :=
  ⟨fun accepted => StructTree.contains_acyclic accepted,
    fun linked => (wellFounded_iff _).trans (contained_acyclic_iff (link_ok linked))⟩

def wrapper (name : Text) (inner : UInt16) : CompiledStruct :=
  { name, fieldCount := 1, fieldNames := [[102]], fieldTypeKinds := [3], fieldStructIndices := [inner], fieldClassIndices := [noIndex],
    fieldTypeDescs := [.structRef inner], fieldDefaults := [{}] }

def wrapperUnit (path own otherPath other : Text) : CompiledModule :=
  { modulePath := path, structs := [wrapper own 1, { name := other }], structImports := [{ modulePath := otherPath, name := other }] }

def crossedWrappers : List CompiledModule := [wrapperUnit [97] [83] [98] [84], wrapperUnit [98] [84] [97] [83]]

theorem crossedWrappers_linked : ∃ merged, link crossedWrappers [] = .ok merged ∧
    Edge (contained merged.structs) 0 1 ∧ Edge (contained merged.structs) 1 0 := by
  refine ⟨_, rfl, ?_, ?_⟩ <;> exact List.mem_singleton.mpr rfl

theorem crossedWrappers_not_wellFounded : ¬ ∀ (units : List CompiledModule) (entryKey : Text) (merged : CompiledModule),
    link units entryKey = .ok merged → WellFounded merged.structs := by
  intro claim
  obtain ⟨merged, linked, down, back⟩ := crossedWrappers_linked
  exact (claim crossedWrappers [] merged linked).acyclic 0 (.tail (.single down) back)

def plainTree : StructTree where
  members := [.structDecl 0]
  decl := fun _ => { name := identifierS, fields := [.other] }

def layeredWrappers : List CompiledModule :=
  [wrapperUnit [97] [83] [98] [84], { modulePath := [98], structs := [{ name := [84] }] }]

theorem layeredWrappers_wellFounded_iff : (∀ node, ¬ Relation.TransGen plainTree.Contains node node) ∧
    ∃ merged, link layeredWrappers [] = .ok merged ∧ (WellFounded merged.structs ↔ ContainmentAcyclic layeredWrappers) := by
  refine ⟨(structs_wellFounded_iff plainTree [] [] {}).1 (by decide), _, rfl, ?_⟩
  exact (structs_wellFounded_iff plainTree layeredWrappers [] _).2 rfl

end NLang.Linker
