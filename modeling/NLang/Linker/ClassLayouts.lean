import NLang.Linker.LinkedTables
import NLang.Vm.ClassLayout

/-!
# Class layouts of a linked module

The loader checks the superclass chains of each unit. Linking binds superclasses by name across units and narrows their
indices to `int16_t`, and checks neither.
-/

namespace NLang.Linker
open NLang.Library NLang.Library.KeyedMerge NLang.Library.ParentChains NLang.Image NLang.Vm NLang.Vm.VmClassLayout

section Declared
variable (units : List CompiledModule)

def taggedClasses : List (Nat × CompiledClass) := tagged (units.map (·.ownClasses))

def supplier (name : Text) : Option (Nat × CompiledClass) := (taggedClasses units).find? (·.2.name = name)

def classNameAt (u : CompiledModule) (idx : Nat) : Option Text :=
  if idx < u.ownClasses.length then u.ownClasses[idx]?.map (·.name)
  else u.classImports[idx - u.ownClasses.length]?.map (·.name)

def superName (name : Text) : Option Text :=
  match supplier units name with
  | none => none
  | some (unit, cc) =>
    if cc.superClassIdx.toInt < 0 then none else classNameAt (units.getD unit {}) cc.superClassIdx.toInt.toNat

def classOrder : List Text := firstSeen ((units.map (·.ownClasses)).flatten.map (·.name))

end Declared

theorem classMap_ok {units : List CompiledModule} (resolved : resolveProblems units = []) {unit : Nat} {u : CompiledModule}
    (at_unit : units[unit]? = some u) {s d : Nat} (mapped : (unitMaps units unit).classes[s]? = some d) :
    ∃ row, classNameAt u s = some row.name ∧ (mergeClasses units).table[d]? = some row := by
  have isUnit : units.getD unit {} = u := by rw [List.getD_eq_getElem?_getD, at_unit, Option.getD_some]
  have clean : (resolveClassSlots units u).1 = [] := by
    have noTypes := (List.append_eq_nil_iff.mp (List.append_eq_nil_iff.mp resolved).1).2
    have ofUnit := List.flatMap_eq_nil_iff.mp noTypes u (List.mem_of_getElem? at_unit)
    exact (List.append_eq_nil_iff.mp (List.append_eq_nil_iff.mp ofUnit).1).1
  rw [unitMaps, isUnit] at mapped
  exact typeSlot_ok (merges_classes units) at_unit clean mapped

section Linked
variable {units : List CompiledModule} {merged : CompiledModule}

theorem remapClassMetadata_ok {maps : UnitMaps} {cc cc' : CompiledClass} (remapped : remapClassMetadata maps cc = .ok cc') :
    cc'.name = cc.name ∧ (cc.superClassIdx.toInt < 0 → cc'.superClassIdx = cc.superClassIdx) ∧
      (0 ≤ cc.superClassIdx.toInt →
        ∃ d, maps.classes[cc.superClassIdx.toInt.toNat]? = some d ∧ cc'.superClassIdx = Int16.ofNat d) := by
  rw [remapClassMetadata] at remapped
  obtain ⟨link, linkOk, remapped⟩ := except_bind_ok.mp remapped
  obtain ⟨_, -, remapped⟩ := except_bind_ok.mp remapped
  obtain ⟨_, -, remapped⟩ := except_bind_ok.mp remapped
  obtain ⟨_, -, remapped⟩ := except_bind_ok.mp remapped
  obtain ⟨_, -, remapped⟩ := except_bind_ok.mp remapped
  obtain ⟨_, -, remapped⟩ := except_bind_ok.mp remapped
  obtain ⟨_, -, remapped⟩ := except_bind_ok.mp remapped
  obtain ⟨_, -, remapped⟩ := except_bind_ok.mp remapped
  cases remapped
  refine ⟨rfl, fun negative => ?_, fun nonneg => ?_⟩
  · rw [remapSuperClassIdx, if_neg (by omega)] at linkOk
    cases linkOk
    rfl
  · rw [remapSuperClassIdx, if_pos nonneg] at linkOk
    obtain ⟨d, found, linkOk⟩ := except_bind_ok.mp linkOk
    cases linkOk
    rw [lookup] at found
    split at found
    · cases found
      exact ⟨d, ‹_›, rfl⟩
    · cases found

inductive SuperLink (units : List CompiledModule) (merged : CompiledModule) (cc : CompiledClass) : Prop where
  | none (declared : superName units cc.name = none) (link : cc.superClassIdx.toInt = -1)
  | super (base : Text) (d : Nat) (baseClass : CompiledClass) (declared : superName units cc.name = some base)
      (row : merged.classes[d]? = some baseClass) (named : baseClass.name = base)
      (link : cc.superClassIdx = Int16.ofNat d)

theorem keeps_className (unit : Nat) (row row' : CompiledClass)
    (remapped : remapClassMetadata (unitMaps units unit) row = .ok row') : row'.name = row.name :=
  (remapClassMetadata_ok remapped).1

theorem merged_class_names (linked : LinkedParts units merged) :
    merged.classes.map (·.name) = classOrder units :=
  typeNames (merges_classes units) keeps_className linked.classes (mergeUnits_names firstStays_never _)

theorem superLink (loaded : ∀ u ∈ units, superclassChainsValid u.classes) (linked : LinkedParts units merged) {c : Nat}
    {cc : CompiledClass} (at_c : merged.classes[c]? = some cc) : SuperLink units merged cc := by
  obtain ⟨unit, u, row, at_unit, isOwn, converted, supplied⟩ :=
    typeRow_ok (merges_classes units) keeps_className linked.classes at_c
  have isUnit : units.getD unit {} = u := by rw [List.getD_eq_getElem?_getD, at_unit, Option.getD_some]
  have declared : superName units cc.name =
      if row.superClassIdx.toInt < 0 then none else classNameAt u row.superClassIdx.toInt.toNat := by
    rw [superName, supplier, taggedClasses, supplied]
    dsimp only
    rw [isUnit]
  obtain ⟨-, negative, nonneg⟩ := remapClassMetadata_ok converted
  rcases superclassChainsValid_link (loaded u (List.mem_of_getElem? at_unit)) (List.mem_of_mem_take isOwn) with root | link
  · refine .none ?_ ?_
    · rw [declared, if_pos (by omega)]
    · rw [negative (by omega), root]
  · obtain ⟨d, mapped, narrowed⟩ := nonneg link
    obtain ⟨baseRow, name, at_d⟩ := classMap_ok linked.resolved at_unit mapped
    obtain ⟨final, at_final, named⟩ := typeRow_final (merges_classes units) keeps_className linked.classes at_d
    refine .super baseRow.name d final ?_ at_final named narrowed
    rw [declared, if_neg (by omega), name]

theorem idxOf_classOrder (linked : LinkedParts units merged) {d : Nat} {dd : CompiledClass}
    (at_d : merged.classes[d]? = some dd) : (classOrder units).idxOf dd.name = d := by
  rw [← merged_class_names linked]
  refine idxOf_name ?_ at_d
  rw [merged_class_names linked]
  exact firstSeen_nodup _

end Linked

section Layouts
variable (units : List CompiledModule)

def SuperOf (name base : Text) : Prop := superName units name = some base

structure SuperclassesSound : Prop where
  acyclic : Acyclic (superName units)
  fits : ∀ name base, SuperOf units name base → (classOrder units).idxOf base < 2 ^ 15

inductive JoinsLayout (merged : CompiledModule) (layouts : List (List Entry)) (c : Nat) (cc : CompiledClass) : Prop where
  | root (declared : superName units cc.name = none) (layout : layouts[c]? = some (ownEntries cc))
  | super (base : Text) (s : Nat) (baseClass : CompiledClass) (baseLayout : List Entry)
      (declared : superName units cc.name = some base) (link : cc.superClassIdx.toInt = s)
      (row : merged.classes[s]? = some baseClass) (named : baseClass.name = base)
      (above : layouts[s]? = some baseLayout) (layout : layouts[c]? = some (baseLayout ++ ownEntries cc))

structure LayoutsFollow (merged : CompiledModule) : Prop where
  ends : ∀ c < merged.classes.length, EndsAtNone merged.classes c
  built : ∃ layouts, build merged.classes = some layouts ∧ ∀ c cc, merged.classes[c]? = some cc →
    JoinsLayout units merged layouts c cc

variable {units} {merged : CompiledModule}

theorem exists_of_superOf {name base : Text} (linked : LinkedParts units merged) (up : SuperOf units name base) :
    ∃ (c : Nat) (cc : CompiledClass), merged.classes[c]? = some cc ∧ cc.name = name := by
  rw [SuperOf, superName] at up
  split at up
  · cases up
  · rename_i unit cc supplied
    have named : cc.name = name := by simpa using List.find?_some supplied
    obtain ⟨c, final, at_c, same⟩ :=
      typeRow_covers (merges_classes units) keeps_className linked.classes (List.mem_of_find?_eq_some supplied)
    exact ⟨c, final, at_c, same.trans named⟩

theorem not_cyclic_of_ends {layouts : List (List Entry)}
    (joins : ∀ (c : Nat) (cc : CompiledClass), merged.classes[c]? = some cc → JoinsLayout units merged layouts c cc)
    {c : Nat} (ends : EndsAtNone merged.classes c) {cc : CompiledClass} (at_c : merged.classes[c]? = some cc) :
    ¬ Relation.TransGen (Parent (superName units)) cc.name cc.name := by
  induction ends generalizing cc with
  | @none c row at_row root =>
    cases at_c.symm.trans at_row
    intro cycle
    obtain ⟨base, up, -⟩ := Relation.TransGen.head'_iff.mp cycle
    cases joins c row at_row with
    | root declared _ => cases declared.symm.trans up
    | super _ s _ _ _ link => omega
  | @super c s row at_row link above ih =>
    cases at_c.symm.trans at_row
    intro cycle
    obtain ⟨base, up, back⟩ := Relation.TransGen.head'_iff.mp cycle
    cases joins c row at_row with
    | root declared _ => cases declared.symm.trans up
    | super base' s' baseClass _ declared link' at_s named =>
      cases declared.symm.trans up
      have same : s' = s := by omega
      subst same
      refine ih at_s ?_
      rw [named]
      exact Relation.TransGen.tail' back up

theorem sound_of_follow (linked : LinkedParts units merged) (follow : LayoutsFollow units merged) :
    SuperclassesSound units := by
  obtain ⟨ends, layouts, -, joins⟩ := follow
  constructor
  · intro name cycle
    obtain ⟨base, up, -⟩ := Relation.TransGen.head'_iff.mp cycle
    obtain ⟨c, cc, at_c, rfl⟩ := exists_of_superOf linked up
    exact not_cyclic_of_ends joins (ends c (List.getElem?_eq_some_iff.mp at_c).1) at_c cycle
  · intro name base up
    obtain ⟨c, cc, at_c, rfl⟩ := exists_of_superOf linked up
    cases joins c cc at_c with
    | root declared _ => cases declared.symm.trans up
    | super base' s baseClass _ declared link at_s named =>
      cases declared.symm.trans up
      rw [← named, idxOf_classOrder linked at_s]
      have := Int16.toInt_lt cc.superClassIdx
      omega

theorem superLink_sound (sound : SuperclassesSound units)
    (loaded : ∀ u ∈ units, superclassChainsValid u.classes) (linked : LinkedParts units merged) {c : Nat}
    {cc : CompiledClass} (at_c : merged.classes[c]? = some cc) :
    (superName units cc.name = none ∧ cc.superClassIdx.toInt = -1) ∨
      ∃ (s : Nat) (baseClass : CompiledClass), superName units cc.name = some baseClass.name ∧
        merged.classes[s]? = some baseClass ∧ cc.superClassIdx.toInt = s := by
  cases superLink loaded linked at_c with
  | none declared link => exact .inl ⟨declared, link⟩
  | super base d baseClass declared row named link =>
    have small := sound.fits cc.name base declared
    rw [← named, idxOf_classOrder linked row] at small
    exact .inr ⟨d, baseClass, named ▸ declared, row, by rw [link, Int16.toInt_ofNat_of_lt small]⟩

section Sound
variable (sound : SuperclassesSound units) (loaded : ∀ u ∈ units, superclassChainsValid u.classes)
variable (linked : LinkedParts units merged)
include sound loaded linked

theorem superIdx_iff {c s : Nat} (up : superIdx merged.classes c = some s) :
    ∃ (cc : CompiledClass) (baseClass : CompiledClass), merged.classes[c]? = some cc ∧
      merged.classes[s]? = some baseClass ∧ superName units cc.name = some baseClass.name := by
  cases row : merged.classes[c]? with
  | none =>
    rw [superIdx, row] at up
    cases up
  | some cc =>
    rcases superLink_sound sound loaded linked row with ⟨-, root⟩ | ⟨d, baseClass, declared, at_d, link⟩
    · rw [superIdx_root row root] at up
      cases up
    · rw [superIdx_super row link] at up
      cases up
      exact ⟨cc, baseClass, rfl, at_d, declared⟩

theorem linksInRange : LinksInRange merged.classes := by
  intro c s up
  obtain ⟨-, baseClass, -, at_s, -⟩ := superIdx_iff sound loaded linked up
  exact (List.getElem?_eq_some_iff.mp at_s).1

theorem acyclic_superIdx : Acyclic (superIdx merged.classes) := by
  have lift {c d : Nat} (path : Relation.TransGen (Parent (superIdx merged.classes)) c d) :
      ∃ cc dd : CompiledClass, merged.classes[c]? = some cc ∧ merged.classes[d]? = some dd ∧
        Relation.TransGen (Parent (superName units)) cc.name dd.name := by
    induction path with
    | single up =>
      obtain ⟨cc, dd, at_c, at_d, declared⟩ := superIdx_iff sound loaded linked up
      exact ⟨cc, dd, at_c, at_d, .single declared⟩
    | tail _ up ih =>
      obtain ⟨cc, dd, at_c, at_d, path⟩ := ih
      obtain ⟨dd', ee, at_d', at_e, declared⟩ := superIdx_iff sound loaded linked up
      cases at_d.symm.trans at_d'
      exact ⟨cc, ee, at_c, at_e, .tail path declared⟩
  intro c cycle
  obtain ⟨cc, dd, at_c, at_d, path⟩ := lift cycle
  cases at_c.symm.trans at_d
  exact sound.acyclic cc.name path

theorem endsAtNone {room c : Nat} {chain : List Nat} (inside : c < merged.classes.length)
    (found : chainFrom (superIdx merged.classes) room c = some chain) : EndsAtNone merged.classes c := by
  induction room generalizing c chain with
  | zero => cases found
  | succ room ih =>
    have row := List.getElem?_eq_getElem inside
    rcases superLink_sound sound loaded linked row with ⟨-, root⟩ | ⟨s, baseClass, -, at_s, link⟩
    · exact .none row root
    · rw [chainFrom_cons (superIdx_super row link), Option.map_eq_some_iff] at found
      obtain ⟨rest, above, -⟩ := found
      exact .super row link (ih (List.getElem?_eq_some_iff.mp at_s).1 above)

theorem follow_of_sound : LayoutsFollow units merged := by
  have inRange := linksInRange sound loaded linked
  have acyclic := acyclic_superIdx sound loaded linked
  obtain ⟨layouts, built, joined⟩ := build_of_acyclic inRange acyclic
  refine ⟨fun c inside => ?_, layouts, built, fun c cc row => ?_⟩
  · have closed : ∀ a ∈ List.range merged.classes.length, ∀ b, superIdx merged.classes a = some b →
        b ∈ List.range merged.classes.length := fun a _ b up => List.mem_range.mpr (inRange a b up)
    obtain ⟨chain, found⟩ := chainFrom_total acyclic closed (List.mem_range.mpr inside)
    exact endsAtNone sound loaded linked inside found
  · obtain ⟨atRoot, below⟩ := joined c cc row
    rcases superLink_sound sound loaded linked row with ⟨declared, root⟩ | ⟨s, baseClass, declared, at_s, link⟩
    · exact .root declared (atRoot (superIdx_root row root))
    · obtain ⟨base, above, layout⟩ := below s (superIdx_super row link)
      exact .super baseClass.name s baseClass base declared link at_s rfl above layout

end Sound

/-- The layouts of a linked module continue those of the declared superclasses exactly when these form no cycle over
all units and the superclasses' indices fit their field. -/
theorem linked_layouts_iff {entryKey : Text} (loaded : ∀ u ∈ units, superclassChainsValid u.classes)
    (linked : link units entryKey = .ok merged) : LayoutsFollow units merged ↔ SuperclassesSound units :=
  ⟨sound_of_follow (link_ok linked), fun sound => follow_of_sound sound loaded (link_ok linked)⟩

end Layouts

def crossUnit (path own otherPath other : Text) : CompiledModule :=
  { modulePath := path, classes := [{ name := own, superClassIdx := 1 }, { name := other }],
    classImports := [{ modulePath := otherPath, name := other }] }

def crossedUnits : List CompiledModule := [crossUnit [97] [65] [98] [66], crossUnit [98] [66] [97] [65]]

theorem crossedUnits_linked : ∃ merged, link crossedUnits [] = .ok merged ∧
    (∀ u ∈ crossedUnits, superclassChainsValid u.classes) ∧ build merged.classes = none :=
  ⟨_, rfl, by decide, by decide⟩

theorem crossedUnits_not_follow : ¬ ∀ (units : List CompiledModule) (entryKey : Text) (merged : CompiledModule),
    (∀ u ∈ units, superclassChainsValid u.classes) → link units entryKey = .ok merged → LayoutsFollow units merged := by
  intro claim
  obtain ⟨merged, linked, loaded, corrupt⟩ := crossedUnits_linked
  obtain ⟨-, layouts, built, -⟩ := claim crossedUnits [] merged loaded linked
  rw [corrupt] at built
  cases built

def layeredUnits : List CompiledModule :=
  [crossUnit [97] [65] [98] [66], { modulePath := [98], classes := [{ name := [66] }] }]

theorem layeredUnits_linked : ∃ merged, link layeredUnits [] = .ok merged ∧
    (∀ u ∈ layeredUnits, superclassChainsValid u.classes) := ⟨_, rfl, by decide⟩

theorem layeredUnits_follow_iff :
    ∃ merged, link layeredUnits [] = .ok merged ∧ (LayoutsFollow layeredUnits merged ↔ SuperclassesSound layeredUnits) := by
  obtain ⟨merged, linked, loaded⟩ := layeredUnits_linked
  exact ⟨merged, linked, linked_layouts_iff loaded linked⟩

end NLang.Linker
