import NLang.Backend.Types
import NLang.Image.Records
import NLang.Library.Interning
import NLang.Vm.Bytecode
import NLang.Vm.ObjectStream

/-!
# Array types of a unit

`RegisterArrayType` (`RegisterArrayTypes.cpp`) with the slots of the element types (`Slots.cpp`, `SymbolSlots.hpp`).
-/

namespace NLang.Backend
open NLang.Library NLang.Image

structure Declaration where
  owner : Option Text
  key : Text

inductive ElemType where
  | scalar (kind : Vm.Rtk)
  | string
  | enumDecl (decl : Declaration)
  | structDecl (decl : Declaration)
  | classDecl (decl : Declaration)
  | inst (template : Declaration) (args : List ElemType)
  | funcType (params : List ElemType) (ret : Option ElemType)
  | typeParam (owner : Declaration) (name : Text)
  | iface (decl : Declaration)
  | array (elem : ElemType) (rank : UInt8)

structure ArrayType where
  elem : ElemType
  rank : UInt8

namespace ElemType

def declType : ElemType → DeclType
  | .scalar kind => .scalar kind
  | .string => .string
  | .enumDecl _ => .enum
  | .structDecl _ => .struct 0
  | .classDecl _ | .inst _ _ => .cls
  | .funcType _ _ => .func
  | .typeParam _ _ => .typeParam
  | .iface _ => .iface
  | .array _ _ => .array

def kind (elem : ElemType) : Vm.Rtk := runtimeTypeKind elem.declType

def named : ElemType → Option (Vm.Table × Declaration)
  | .structDecl decl => some (.structs, decl)
  | .classDecl decl | .inst decl _ => some (.classes, decl)
  | _ => none

end ElemType

def Declaration.isOwnUnit (decl : Declaration) (u : CompiledModule) : Bool := decl.owner.all (· = u.modulePath)

def symbolImport (decl : Declaration) : SymbolImport :=
  { modulePath := decl.owner.getD [], name := decl.key, paramCount := 0 }

def classSlotFor (u : CompiledModule) (decl : Declaration) : Option (CompiledModule × Nat) :=
  match u.findClass decl.key with
  | some idx => some (u, idx)
  | none =>
    if decl.isOwnUnit u then none
    else some ({ u with classes := u.classes ++ [{ name := decl.key }]
                        classImports := u.classImports ++ [symbolImport decl] }, u.classes.length)

def structSlotFor (u : CompiledModule) (decl : Declaration) : Option (CompiledModule × Nat) :=
  match u.findStruct decl.key with
  | some idx => some (u, idx)
  | none =>
    if decl.isOwnUnit u then none
    else some ({ u with structs := u.structs ++ [{ name := decl.key }]
                        structImports := u.structImports ++ [symbolImport decl] }, u.structs.length)

def elemTypeIdx (u : CompiledModule) (elem : ElemType) : Option (CompiledModule × UInt16) :=
  match elem.named with
  | some (.structs, decl) => (structSlotFor u decl).map fun (u, slot) => (u, UInt16.ofNat slot)
  | some (_, decl) => (classSlotFor u decl).map fun (u, slot) => (u, UInt16.ofNat slot)
  | none => some (u, noIndex)

def registerArrayType (u : CompiledModule) (type : ArrayType) : Option (CompiledModule × Nat) := do
  let (u, idx) ← elemTypeIdx u type.elem
  let row := { elemKind := Vm.ObjectStream.kindCode type.elem.kind, elemTypeIdx := idx, rank := type.rank }
  let (arrayTypes, place) := intern u.arrayTypes row
  some ({ u with arrayTypes }, place)

structure Lined (u : CompiledModule) : Prop where
  classes : u.classes.map (·.name) = u.ownClasses.map (·.name) ++ u.classImports.map (·.name)
  structs : u.structs.map (·.name) = u.ownStructs.map (·.name) ++ u.structImports.map (·.name)

structure TablesGrow (u u' : CompiledModule) : Prop where
  classes : u.classes.map (·.name) <+: u'.classes.map (·.name)
  structs : u.structs.map (·.name) <+: u'.structs.map (·.name)
  arrayTypes : u'.arrayTypes = u.arrayTypes
  lined : Lined u → Lined u'

inductive ArrayRun : CompiledModule → List (ArrayType × Nat) → Prop where
  | start {u : CompiledModule} (fresh : u.arrayTypes = []) (lined : Lined u) : ArrayRun u []
  | register {u u' : CompiledModule} {types : List (ArrayType × Nat)} {type : ArrayType} {place : Nat}
      (before : ArrayRun u types) (done : registerArrayType u type = some (u', place)) : ArrayRun u' ((type, place) :: types)
  | grow {u u' : CompiledModule} {types : List (ArrayType × Nat)} (before : ArrayRun u types) (grows : TablesGrow u u') :
      ArrayRun u' types

def slotOf (u : CompiledModule) : Option (Vm.Table × Declaration) → Option Nat
  | some (.structs, decl) => u.findStruct decl.key
  | some (_, decl) => u.findClass decl.key
  | none => none

def rowOf (u : CompiledModule) (type : ArrayType) : CompiledArrayType where
  elemKind := Vm.ObjectStream.kindCode type.elem.kind
  elemTypeIdx := (slotOf u type.elem.named).elim noIndex UInt16.ofNat
  rank := type.rank

def Slotted (u : CompiledModule) (elem : ElemType) : Prop := elem.named.isSome → (slotOf u elem.named).isSome

theorem findIdx?_grows {names names' : List Text} (grows : names <+: names') {key : Text} {slot : Nat}
    (found : names.findIdx? (· = key) = some slot) : names'.findIdx? (· = key) = some slot := by
  obtain ⟨more, rfl⟩ := grows
  rw [List.findIdx?_append, found]
  rfl

theorem findClass_eq (u : CompiledModule) (key : Text) : u.findClass key = (u.classes.map (·.name)).findIdx? (· = key) := by
  rw [List.findIdx?_map]
  rfl

theorem findStruct_eq (u : CompiledModule) (key : Text) : u.findStruct key = (u.structs.map (·.name)).findIdx? (· = key) := by
  rw [List.findIdx?_map]
  rfl

namespace TablesGrow
variable {u u' : CompiledModule} (grows : TablesGrow u u')
include grows

theorem slotOf {named : Option (Vm.Table × Declaration)} {slot : Nat} (found : Backend.slotOf u named = some slot) :
    Backend.slotOf u' named = some slot := by
  match named, found with
  | none, found => cases found
  | some (table, decl), found =>
    cases table with
    | structs =>
      rw [Backend.slotOf, findStruct_eq] at found ⊢
      exact findIdx?_grows grows.structs found
    | _ =>
      rw [Backend.slotOf, findClass_eq] at found ⊢
      · exact findIdx?_grows grows.classes found
      all_goals nofun

theorem slotted {elem : ElemType} (slotted : Slotted u elem) : Slotted u' elem := by
  intro isNamed
  obtain ⟨slot, found⟩ := Option.isSome_iff_exists.mp (slotted isNamed)
  exact Option.isSome_iff_exists.mpr ⟨slot, grows.slotOf found⟩

theorem rowOf {type : ArrayType} (slotted : Slotted u type.elem) : Backend.rowOf u' type = Backend.rowOf u type := by
  rw [Backend.rowOf, Backend.rowOf]
  cases named : type.elem.named with
  | none => rfl
  | some decl =>
    obtain ⟨slot, found⟩ := Option.isSome_iff_exists.mp (slotted (by rw [named]; rfl))
    rw [named] at found
    rw [found, grows.slotOf found]

end TablesGrow

theorem findIdx?_concat {names : List Text} {key : Text} (absent : names.findIdx? (· = key) = none) :
    (names ++ [key]).findIdx? (· = key) = some names.length := by
  rw [List.findIdx?_append, absent]
  simp

section Slots
variable {u u' : CompiledModule} {decl : Declaration} {slot : Nat}

theorem tablesGrow_refl (u : CompiledModule) : TablesGrow u u := ⟨List.prefix_rfl, List.prefix_rfl, rfl, id⟩

theorem classSlotFor_ok (made : classSlotFor u decl = some (u', slot)) : TablesGrow u u' ∧ u'.findClass decl.key = some slot := by
  unfold classSlotFor at made
  split at made
  · rename_i idx found
    cases made
    exact ⟨tablesGrow_refl u, found⟩
  · rename_i absent
    obtain ⟨-, made⟩ := Option.ite_none_left_eq_some.mp made
    cases made
    rw [findClass_eq] at absent
    refine ⟨⟨?_, List.prefix_rfl, rfl, fun lined => ⟨?_, lined.structs⟩⟩, ?_⟩
    · rw [List.map_append]
      exact List.prefix_append ..
    · have own : (u.classes ++ [({ name := decl.key } : CompiledClass)]).take (u.classes.length - u.classImports.length) = u.ownClasses :=
        List.take_append_of_le_length (Nat.sub_le _ _)
      rw [CompiledModule.ownClasses, List.length_append, List.length_append, List.length_singleton, List.length_singleton,
        Nat.add_sub_add_right, own, List.map_append, List.map_append, lined.classes, List.append_assoc]
      rfl
    · rw [findClass_eq, List.map_append]
      exact (findIdx?_concat absent).trans (by rw [List.length_map])

theorem structSlotFor_ok (made : structSlotFor u decl = some (u', slot)) : TablesGrow u u' ∧ u'.findStruct decl.key = some slot := by
  unfold structSlotFor at made
  split at made
  · rename_i idx found
    cases made
    exact ⟨tablesGrow_refl u, found⟩
  · rename_i absent
    obtain ⟨-, made⟩ := Option.ite_none_left_eq_some.mp made
    cases made
    rw [findStruct_eq] at absent
    refine ⟨⟨List.prefix_rfl, ?_, rfl, fun lined => ⟨lined.classes, ?_⟩⟩, ?_⟩
    · rw [List.map_append]
      exact List.prefix_append ..
    · have own : (u.structs ++ [({ name := decl.key } : CompiledStruct)]).take (u.structs.length - u.structImports.length) = u.ownStructs :=
        List.take_append_of_le_length (Nat.sub_le _ _)
      rw [CompiledModule.ownStructs, List.length_append, List.length_append, List.length_singleton, List.length_singleton,
        Nat.add_sub_add_right, own, List.map_append, List.map_append, lined.structs, List.append_assoc]
      rfl
    · rw [findStruct_eq, List.map_append]
      exact (findIdx?_concat absent).trans (by rw [List.length_map])

theorem elemTypeIdx_ok {elem : ElemType} {idx : UInt16} (made : elemTypeIdx u elem = some (u', idx)) :
    TablesGrow u u' ∧ Slotted u' elem ∧ idx = (slotOf u' elem.named).elim noIndex UInt16.ofNat := by
  rw [elemTypeIdx] at made
  cases named : elem.named with
  | none =>
    rw [named] at made
    cases made
    exact ⟨tablesGrow_refl u, (fun isNamed => by rw [named] at isNamed; cases isNamed), rfl⟩
  | some ref =>
    obtain ⟨table, decl⟩ := ref
    have done (slot : Nat) (grows : TablesGrow u u') (found : slotOf u' (some (table, decl)) = some slot) (isIdx : idx = UInt16.ofNat slot) :
        TablesGrow u u' ∧ Slotted u' elem ∧ idx = (slotOf u' (some (table, decl))).elim noIndex UInt16.ofNat :=
      ⟨grows, fun _ => by rw [named, found]; rfl, by rw [found, isIdx]; rfl⟩
    rw [named] at made
    by_cases isStruct : table = .structs
    · subst isStruct
      obtain ⟨⟨_, slot⟩, taken, made⟩ := Option.map_eq_some_iff.mp made
      cases made
      obtain ⟨grows, found⟩ := structSlotFor_ok taken
      exact done slot grows found rfl
    · have isClass : (classSlotFor u decl).map (fun (u, slot) => (u, UInt16.ofNat slot)) = some (u', idx) := by
        cases table <;> first | exact made | exact absurd rfl isStruct
      obtain ⟨⟨_, slot⟩, taken, made⟩ := Option.map_eq_some_iff.mp isClass
      cases made
      obtain ⟨grows, found⟩ := classSlotFor_ok taken
      refine done slot grows ?_ rfl
      rw [slotOf]
      · exact found
      · rintro rfl
        exact isStruct rfl

end Slots

theorem registerArrayType_ok {u u' : CompiledModule} {type : ArrayType} {place : Nat}
    (done : registerArrayType u type = some (u', place)) : ∃ mid, TablesGrow u mid ∧ Slotted mid type.elem ∧
      u' = { mid with arrayTypes := (intern u.arrayTypes (rowOf mid type)).1 } ∧
      place = (intern u.arrayTypes (rowOf mid type)).2 := by
  rw [registerArrayType] at done
  obtain ⟨⟨mid, idx⟩, taken, done⟩ := Option.bind_eq_some_iff.mp done
  obtain ⟨grows, slotted, rfl⟩ := elemTypeIdx_ok taken
  cases done
  refine ⟨mid, grows, slotted, ?_, ?_⟩
  · rw [← grows.arrayTypes]
    rfl
  · rw [← grows.arrayTypes]
    rfl

structure UnitRows (u : CompiledModule) (types : List (ArrayType × Nat)) : Prop where
  lined : Lined u
  nodup : u.arrayTypes.Nodup
  slotted : ∀ entry ∈ types, Slotted u entry.1.elem
  at_place : ∀ entry ∈ types, u.arrayTypes[entry.2]? = some (rowOf u entry.1)
  onto : ∀ row ∈ u.arrayTypes, ∃ entry ∈ types, rowOf u entry.1 = row

namespace UnitRows
variable {u u' : CompiledModule} {types : List (ArrayType × Nat)}

theorem grow (rows : UnitRows u types) (grows : TablesGrow u u') : UnitRows u' types where
  lined := grows.lined rows.lined
  nodup := grows.arrayTypes ▸ rows.nodup
  slotted entry member := grows.slotted (rows.slotted entry member)
  at_place entry member := by rw [grows.arrayTypes, grows.rowOf (rows.slotted entry member), rows.at_place entry member]
  onto row member := by
    rw [grows.arrayTypes] at member
    obtain ⟨entry, inside, isRow⟩ := rows.onto row member
    exact ⟨entry, inside, by rw [grows.rowOf (rows.slotted entry inside), isRow]⟩

theorem add (rows : UnitRows u types) {type : ArrayType} (slotted : Slotted u type.elem) :
    UnitRows { u with arrayTypes := (intern u.arrayTypes (rowOf u type)).1 }
      ((type, (intern u.arrayTypes (rowOf u type)).2) :: types) where
  lined := ⟨rows.lined.classes, rows.lined.structs⟩
  nodup := intern_nodup rows.nodup
  slotted := List.forall_mem_cons.mpr ⟨slotted, rows.slotted⟩
  at_place := List.forall_mem_cons.mpr ⟨intern_at .., fun entry member => by
    obtain ⟨more, isTable⟩ := intern_extends u.arrayTypes (rowOf u type)
    have old := rows.at_place entry member
    rw [← isTable, List.getElem?_append_left (List.getElem?_eq_some_iff.mp old).1]
    exact old⟩
  onto row member := by
    rcases mem_intern.mp member with member | rfl
    · obtain ⟨entry, inside, isRow⟩ := rows.onto row member
      exact ⟨entry, .tail _ inside, isRow⟩
    · exact ⟨_, .head _, rfl⟩

end UnitRows

theorem registers_rows {u : CompiledModule} {types : List (ArrayType × Nat)} (run : ArrayRun u types) : UnitRows u types := by
  induction run with
  | start fresh lined =>
    refine ⟨lined, ?_, nofun, nofun, ?_⟩
    · rw [fresh]
      exact List.nodup_nil
    · rw [fresh]
      nofun
  | register before done ih =>
    obtain ⟨mid, grows, slotted, rfl, rfl⟩ := registerArrayType_ok done
    rw [← grows.arrayTypes]
    exact (ih.grow grows).add slotted
  | grow before grows ih => exact ih.grow grows

end NLang.Backend
