import NLang.Linker.LinkedTables

/-!
# Interface rows of a linked module

The unit that declares an interface carries its row; other units may carry placeholders of the same name, so that their
gates have an index to address. In whatever order the units come, the declared row is the one that stays.
-/

namespace NLang.Linker
open NLang.Library NLang.Library.KeyedMerge NLang.Image

structure Declares (units : List CompiledModule) (u : CompiledModule) (real : CompiledInterface) : Prop where
  unit : u ∈ units
  own : real ∈ u.interfaces
  others : ∀ v ∈ units, ∀ row ∈ v.interfaces, row.name = real.name → v ≠ u → isPlaceholderInterfaceRow row

def RowsDistinct (units : List CompiledModule) : Prop := ∀ u ∈ units, (u.interfaces.map (·.name)).Nodup

theorem placeholder_eq {row : CompiledInterface} (placeholder : isPlaceholderInterfaceRow row) :
    row = { name := row.name } := by
  obtain ⟨name, statics, constants, methods, init⟩ := row
  simp only [isPlaceholderInterfaceRow, Bool.and_eq_true, decide_eq_true_eq, List.isEmpty_iff] at placeholder
  obtain ⟨⟨⟨rfl, rfl⟩, rfl⟩, rfl⟩ := placeholder
  rfl

theorem remapInterfaceMetadata_name {maps : UnitMaps} {row row' : CompiledInterface}
    (remapped : remapInterfaceMetadata maps row = .ok row') : row'.name = row.name := by
  rw [remapInterfaceMetadata] at remapped
  obtain ⟨_, -, remapped⟩ := except_bind_ok.mp remapped
  obtain ⟨_, -, remapped⟩ := except_bind_ok.mp remapped
  obtain ⟨_, -, remapped⟩ := except_bind_ok.mp remapped
  obtain ⟨_, -, remapped⟩ := except_bind_ok.mp remapped
  cases remapped
  rfl

theorem remap_placeholder (maps : UnitMaps) {row : CompiledInterface} (placeholder : isPlaceholderInterfaceRow row) :
    remapInterfaceMetadata maps row = .ok row := by
  rw [placeholder_eq placeholder]
  rfl

theorem survivor_placeholder {rows : List (Nat × CompiledInterface)} {best : Nat × CompiledInterface}
    (stays : survivor replacesPlaceholder rows = some best) (placeholder : isPlaceholderInterfaceRow best.2) :
    ∀ row ∈ rows, isPlaceholderInterfaceRow row.2 := by
  induction rows using List.reverseRecOn generalizing best with
  | nil => cases stays
  | append_singleton rows last ih =>
    rw [survivor_append] at stays
    intro row member
    cases before : survivor replacesPlaceholder rows with
    | none =>
      rw [before] at stays
      cases stays
      rw [survivor_eq_none.mp before, List.nil_append, List.mem_singleton] at member
      exact member ▸ placeholder
    | some old =>
      rw [before] at stays
      dsimp only at stays
      split at stays
      · rename_i better
        cases stays
        simp [replacesPlaceholder, placeholder] at better
      · rename_i worse
        cases stays
        rcases List.mem_append.mp member with member | member
        · exact ih before placeholder row member
        · rw [List.mem_singleton.mp member]
          simpa [replacesPlaceholder, placeholder] using worse

section Merge
variable {units : List CompiledModule}

theorem merges_interfaces (distinct : RowsDistinct units) :
    Merges (fun row => some row.name) replacesPlaceholder (units.map (·.interfaces)) (mergeInterfaces units) := by
  refine merges_mergeUnits _ fun rows member => ?_
  obtain ⟨u, inside, rfl⟩ := List.mem_map.mp member
  refine (List.pairwise_map.mp (distinct u inside)).imp fun {old row} apart k keyed same => ?_
  exact absurd (Option.some.inj (keyed.trans same.symm)) apart

theorem mem_tagged_interfaces {unit : Nat} {row : CompiledInterface} :
    (unit, row) ∈ tagged (units.map (·.interfaces)) ↔ ∃ u, units[unit]? = some u ∧ row ∈ u.interfaces := by
  rw [mem_tagged]
  simp only [List.getElem?_map, Option.map_eq_some_iff]
  exact ⟨fun ⟨_, ⟨u, at_unit, same⟩, member⟩ => ⟨u, at_unit, same ▸ member⟩,
    fun ⟨u, at_unit, member⟩ => ⟨_, ⟨u, at_unit, rfl⟩, member⟩⟩

theorem row_unique {u : CompiledModule} (distinct : (u.interfaces.map (·.name)).Nodup) {first second : CompiledInterface}
    (one : first ∈ u.interfaces) (two : second ∈ u.interfaces) (same : first.name = second.name) : first = second :=
  List.inj_on_of_nodup_map distinct one two same

theorem survivor_declared (distinct : RowsDistinct units) {owner : Nat} {u : CompiledModule}
    {real row : CompiledInterface} (declares : Declares units u real)
    (stays : survivor replacesPlaceholder
      (underKey (fun row => some row.name) (tagged (units.map (·.interfaces))) real.name) = some (owner, row)) :
    row = real ∧ (units[owner]? = some u ∨ isPlaceholderInterfaceRow real) := by
  have member := List.mem_filter.mp (survivor_mem stays)
  have named : row.name = real.name := by simpa using member.2
  obtain ⟨v, at_owner, inside⟩ := mem_tagged_interfaces.mp member.1
  by_cases placeholder : isPlaceholderInterfaceRow row
  · obtain ⟨unit, unit_lt, at_unit⟩ := List.getElem_of_mem declares.unit
    have isTagged : (unit, real) ∈ tagged (units.map (·.interfaces)) :=
      mem_tagged_interfaces.mpr ⟨u, List.getElem?_eq_some_iff.mpr ⟨unit_lt, at_unit⟩, declares.own⟩
    have all : isPlaceholderInterfaceRow real :=
      survivor_placeholder stays placeholder (unit, real) (List.mem_filter.mpr ⟨isTagged, by simp⟩)
    refine ⟨?_, .inr all⟩
    rw [placeholder_eq placeholder, placeholder_eq all, named]
  · have same : v = u := by
      by_contra apart
      exact placeholder (declares.others v (List.mem_of_getElem? at_owner) row inside named apart)
    subst same
    exact ⟨row_unique (distinct v declares.unit) inside declares.own named, .inl at_owner⟩

theorem mergeInterfaces_supplied (distinct : RowsDistinct units) {c : Nat}
    {row : CompiledInterface} (at_c : (mergeInterfaces units).table[c]? = some row) :
    ∃ owner, (owner, row) ∈ tagged (units.map (·.interfaces)) ∧ survivor replacesPlaceholder
      (underKey (fun row => some row.name) (tagged (units.map (·.interfaces))) row.name) = some (owner, row) := by
  obtain ⟨owner, -, isPlaced, stays⟩ := (merges_interfaces distinct).placed.supplied c row at_c
  exact ⟨owner, isPlaced, stays row.name rfl⟩

theorem mergeInterfaces_declared (distinct : RowsDistinct units) {u : CompiledModule}
    {real : CompiledInterface} (declares : Declares units u real) :
    ∃ c : Nat, (mergeInterfaces units).table[c]? = some real ∧ ∃ owner, survivor replacesPlaceholder
      (underKey (fun row => some row.name) (tagged (units.map (·.interfaces))) real.name) = some (owner, real) ∧
        (units[owner]? = some u ∨ isPlaceholderInterfaceRow real) := by
  obtain ⟨unit, unit_lt, at_unit⟩ := List.getElem_of_mem declares.unit
  have isTagged : (unit, real) ∈ tagged (units.map (·.interfaces)) :=
    mem_tagged_interfaces.mpr ⟨u, List.getElem?_eq_some_iff.mpr ⟨unit_lt, at_unit⟩, declares.own⟩
  obtain ⟨old, member, same⟩ := (merges_interfaces distinct).placed.covers (unit, real) isTagged real.name rfl
  obtain ⟨c, at_c⟩ := List.getElem?_of_mem member
  obtain ⟨owner, -, stays⟩ := mergeInterfaces_supplied distinct at_c
  rw [Option.some.inj same] at stays
  obtain ⟨rfl, owns⟩ := survivor_declared distinct declares stays
  exact ⟨c, at_c, owner, stays, owns⟩

theorem mergeInterfaces_names (distinct : RowsDistinct units) :
    ((mergeInterfaces units).table.map (·.name)).Nodup := by
  have apart := (merges_interfaces distinct).placed.distinct
  refine List.nodup_iff_getElem?_ne_getElem?.mpr fun i j less inside same => ?_
  rw [List.length_map] at inside
  have at_i := List.getElem?_eq_getElem (Nat.lt_trans less inside)
  have at_j := List.getElem?_eq_getElem inside
  rw [List.getElem?_map, List.getElem?_map, at_i, at_j] at same
  have := apart i j _ _ _ at_i at_j rfl (congrArg some (Option.some.inj same).symm)
  omega

theorem mergeInterfaces_any_order (distinct : RowsDistinct units) {units' : List CompiledModule}
    (perm : units'.Perm units) {u : CompiledModule} {real : CompiledInterface} (declares : Declares units u real) :
    real ∈ (mergeInterfaces units').table := by
  have distinct' : RowsDistinct units' := fun v member => distinct v (perm.mem_iff.mp member)
  have declares' : Declares units' u real := ⟨perm.mem_iff.mpr declares.unit, declares.own,
    fun v member => declares.others v (perm.mem_iff.mp member)⟩
  obtain ⟨c, at_c, -⟩ := mergeInterfaces_declared distinct' declares'
  exact List.mem_of_getElem? at_c

structure MergesTo (units : List CompiledModule) (merged : CompiledModule) (unit : Nat) (real : CompiledInterface)
    (c : Nat) (final : CompiledInterface) : Prop where
  row : merged.interfaces[c]? = some final
  named : final.name = real.name
  converted : remapInterfaceMetadata (unitMaps units unit) real = .ok final
  mapped : ∀ (other : Nat) (v : CompiledModule) (i : Nat) (row : CompiledInterface), units[other]? = some v →
    v.interfaces[i]? = some row → row.name = real.name →
    (unitMaps units other).interfaces[i]? = some c

theorem mergesTo_of_linked {entryKey : Text} {merged : CompiledModule}
    (distinct : RowsDistinct units) (linked : link units entryKey = .ok merged)
    {unit : Nat} {u : CompiledModule} {real : CompiledInterface} (at_unit : units[unit]? = some u)
    (declares : Declares units u real) : ∃ c final, MergesTo units merged unit real c final := by
  have merges := merges_interfaces distinct
  obtain ⟨c, at_c, owner, stays, owns⟩ := mergeInterfaces_declared distinct declares
  obtain ⟨-, rows⟩ := finalizeRows_ok merges (link_ok linked).interfaces
  obtain ⟨supplier, final, -, converted, at_final, again⟩ := rows c real at_c
  cases (again real.name rfl).symm.trans stays
  have converted : remapInterfaceMetadata (unitMaps units unit) real = .ok final := by
    rcases owns with at_owner | placeholder
    · rwa [path_unique (link_ok linked).paths at_unit at_owner rfl]
    · rw [remap_placeholder _ placeholder] at converted ⊢
      exact converted
  refine ⟨c, final, at_final, remapInterfaceMetadata_name converted, converted, ?_⟩
  intro other v i row at_other at_i named
  obtain ⟨indices, at_map, -, points⟩ := merges.mapped other v.interfaces (by rw [List.getElem?_map, at_other]; rfl)
  obtain ⟨d, old, at_i', at_d, same, -⟩ := points i row at_i
  cases merges.placed.distinct d c old real real.name at_d at_c (same.trans (congrArg some named)) rfl
  have own : (unitMaps units other).interfaces = indices := by
    change (mergeInterfaces units).maps.getD other [] = indices
    rw [List.getD_eq_getElem?_getD, at_map, Option.getD_some]
  rw [own]
  exact at_i'

theorem merged_names {entryKey : Text} {merged : CompiledModule} (distinct : RowsDistinct units)
    (linked : link units entryKey = .ok merged) :
    merged.interfaces.map (·.name) = (mergeInterfaces units).table.map (·.name) := by
  obtain ⟨count, rows⟩ := finalizeRows_ok (merges_interfaces distinct) (link_ok linked).interfaces
  refine List.ext_getElem? fun c => ?_
  rw [List.getElem?_map, List.getElem?_map]
  cases at_c : (mergeInterfaces units).table[c]? with
  | none =>
    have ended := List.getElem?_eq_none_iff.mp at_c
    rw [List.getElem?_eq_none (by omega)]
  | some row =>
    obtain ⟨unit, final, -, converted, at_final, -⟩ := rows c row at_c
    rw [at_final, Option.map_some, Option.map_some, remapInterfaceMetadata_name converted]

theorem mem_mergeInterfaces_names (distinct : RowsDistinct units) {name : Text} :
    name ∈ (mergeInterfaces units).table.map (·.name) ↔ ∃ v ∈ units, name ∈ v.interfaces.map (·.name) := by
  constructor
  · intro member
    obtain ⟨row, inside, rfl⟩ := List.mem_map.mp member
    obtain ⟨c, at_c⟩ := List.getElem?_of_mem inside
    obtain ⟨owner, isPlaced, -⟩ := mergeInterfaces_supplied distinct at_c
    obtain ⟨v, at_owner, isOwn⟩ := mem_tagged_interfaces.mp isPlaced
    exact ⟨v, List.mem_of_getElem? at_owner, List.mem_map_of_mem isOwn⟩
  · rintro ⟨v, member, named⟩
    obtain ⟨row, isOwn, rfl⟩ := List.mem_map.mp named
    obtain ⟨unit, unit_lt, at_unit⟩ := List.getElem_of_mem member
    obtain ⟨old, inside, same⟩ := (merges_interfaces distinct).placed.covers (unit, row)
      (mem_tagged_interfaces.mpr ⟨v, List.getElem?_eq_some_iff.mpr ⟨unit_lt, at_unit⟩, isOwn⟩) row.name rfl
    exact List.mem_map.mpr ⟨old, inside, Option.some.inj same⟩

end Merge

def declaredRow : CompiledInterface := { name := [73], constants := [{ name := [120], slotIdx := 0 }] }

def declaringUnit : CompiledModule := { modulePath := [108], interfaces := [declaredRow], staticSlots := [{ name := [120] }] }

def placeholderUnit : CompiledModule :=
  { modulePath := [109], interfaces := [{ name := [73] }], staticSlots := [{ name := [121] }] }

theorem declaringUnit_declares : Declares [placeholderUnit, declaringUnit] declaringUnit declaredRow where
  unit := by simp
  own := .head _
  others := by
    intro v member row inside _ apart
    have only : v = placeholderUnit := by simpa [apart] using member
    subst only
    rw [List.mem_singleton.mp inside]
    rfl

theorem placeholderUnit_distinct : RowsDistinct [placeholderUnit, declaringUnit] := by
  intro u member
  rcases List.mem_cons.mp member with rfl | member
  · exact List.nodup_singleton _
  · rw [List.mem_singleton.mp member]
    exact List.nodup_singleton _

theorem placeholderUnit_linked : ∃ merged, link [placeholderUnit, declaringUnit] [] = .ok merged := ⟨_, rfl⟩

end NLang.Linker
