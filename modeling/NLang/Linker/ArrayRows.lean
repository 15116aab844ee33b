import NLang.Backend.ArrayTypes
import NLang.Linker.LinkedTables
import NLang.Vm.ArrayAccess

/-!
# Array rows of a linked module

`MergeArrayTypes` brings the array rows of the units together, and `OP_CheckArrayType` (`VmExecutorOpsArrayCheck.cpp`)
takes the place of a row for the identity of an array type.
-/

namespace NLang.Linker
open NLang.Library NLang.Image NLang.Backend

section Merge
variable {maps : UnitMaps} {rows merged merged' : List CompiledArrayType} {indices : List Nat}

theorem mergeArrayTypes_cons (maps : UnitMaps) (row : CompiledArrayType) (rows merged : List CompiledArrayType) :
    mergeArrayTypes maps (row :: rows) merged = (do
      let row ← remapElemTypeIdx maps row
      let (merged', indices) ← mergeArrayTypes maps rows (intern merged row).1
      .ok (merged', (intern merged row).2 :: indices)) := by
  rw [mergeArrayTypes]
  congr 1
  funext row
  rw [intern]
  cases merged.findIdx? (· = row) <;> rfl

structure RowsMerged (maps : UnitMaps) (rows merged merged' : List CompiledArrayType) (indices : List Nat) : Prop where
  grows : merged <+: merged'
  nodup : merged.Nodup → merged'.Nodup
  mapped : ∀ (p : Nat) (row : CompiledArrayType), rows[p]? = some row → ∃ row' q, remapElemTypeIdx maps row = .ok row' ∧
    indices[p]? = some q ∧ merged'[q]? = some row'
  onto : ∀ row' ∈ merged', row' ∈ merged ∨ ∃ row ∈ rows, remapElemTypeIdx maps row = .ok row'

theorem prefix_at {α : Type} {table table' : List α} (grows : table <+: table') {q : Nat} {row : α}
    (at_q : table[q]? = some row) : table'[q]? = some row := by
  obtain ⟨more, rfl⟩ := grows
  rw [List.getElem?_append_left (List.getElem?_eq_some_iff.mp at_q).1, at_q]

theorem mergeArrayTypes_ok (done : mergeArrayTypes maps rows merged = .ok (merged', indices)) :
    RowsMerged maps rows merged merged' indices := by
  induction rows generalizing merged merged' indices with
  | nil =>
    cases done
    exact ⟨List.prefix_rfl, id, nofun, fun _ => .inl⟩
  | cons row rows ih =>
    rw [mergeArrayTypes_cons] at done
    obtain ⟨row', converted, done⟩ := except_bind_ok.mp done
    obtain ⟨⟨table, others⟩, run, done⟩ := except_bind_ok.mp done
    cases done
    have rest := ih run
    refine ⟨(intern_extends merged row').trans rest.grows, fun nodup => rest.nodup (intern_nodup nodup), ?_, ?_⟩
    · intro p source at_p
      cases p with
      | zero =>
        cases at_p
        exact ⟨row', _, converted, rfl, prefix_at rest.grows (intern_at ..)⟩
      | succ p => exact rest.mapped p source at_p
    · intro other member
      rcases rest.onto other member with before | ⟨source, inside, made⟩
      · rcases mem_intern.mp before with before | rfl
        · exact .inl before
        · exact .inr ⟨row, .head _, converted⟩
      · exact .inr ⟨source, .tail _ inside, made⟩

structure UnitRowsMerged (units : List (UnitMaps × List CompiledArrayType)) (merged merged' : List CompiledArrayType)
    (maps : List (List Nat)) : Prop where
  grows : merged <+: merged'
  nodup : merged.Nodup → merged'.Nodup
  mapped : ∀ (i : Nat) (unit : UnitMaps × List CompiledArrayType), units[i]? = some unit →
    ∀ (p : Nat) (row : CompiledArrayType), unit.2[p]? = some row → ∃ row' q, remapElemTypeIdx unit.1 row = .ok row' ∧
      (maps.getD i [])[p]? = some q ∧ merged'[q]? = some row'
  onto : ∀ row' ∈ merged', row' ∈ merged ∨ ∃ (i : Nat) (unit : UnitMaps × List CompiledArrayType),
    units[i]? = some unit ∧ ∃ row ∈ unit.2, remapElemTypeIdx unit.1 row = .ok row'

theorem mergeUnitArrayTypes_ok {units : List (UnitMaps × List CompiledArrayType)} {maps : List (List Nat)}
    (done : mergeUnitArrayTypes units merged = .ok (merged', maps)) : UnitRowsMerged units merged merged' maps := by
  induction units generalizing merged merged' maps with
  | nil =>
    cases done
    exact ⟨List.prefix_rfl, id, nofun, fun _ => .inl⟩
  | cons unit units ih =>
    rw [mergeUnitArrayTypes] at done
    obtain ⟨⟨table, indices⟩, first, done⟩ := except_bind_ok.mp done
    obtain ⟨⟨table', others⟩, run, done⟩ := except_bind_ok.mp done
    cases done
    have here := mergeArrayTypes_ok first
    have rest := ih run
    refine ⟨here.grows.trans rest.grows, fun nodup => rest.nodup (here.nodup nodup), ?_, ?_⟩
    · intro i source at_i p row at_p
      cases i with
      | zero =>
        cases at_i
        obtain ⟨row', q, converted, at_map, at_q⟩ := here.mapped p row at_p
        exact ⟨row', q, converted, at_map, prefix_at rest.grows at_q⟩
      | succ i => exact rest.mapped i source at_i p row at_p
    · intro row' member
      rcases rest.onto row' member with before | ⟨i, source, at_i, made⟩
      · rcases here.onto row' before with before | ⟨row, inside, converted⟩
        · exact .inl before
        · exact .inr ⟨0, unit, rfl, row, inside, converted⟩
      · exact .inr ⟨i + 1, source, at_i, made⟩

end Merge

section Closure
variable (units : List CompiledModule)

def arrayMerge : Except LinkError (List CompiledArrayType × List (List Nat)) :=
  mergeUnitArrayTypes (units.zipIdx.map fun (u, unit) => (unitMaps units unit, u.arrayTypes)) []

theorem link_arrays {units : List CompiledModule} {entryKey : Text} {merged : CompiledModule}
    (linked : link units entryKey = .ok merged) : ∃ maps, arrayMerge units = .ok (merged.arrayTypes, maps) := by
  rw [link] at linked
  obtain ⟨_, -, linked⟩ := except_bind_ok.mp linked
  obtain ⟨_, -, linked⟩ := except_bind_ok.mp linked
  split at linked
  · cases linked
  · obtain ⟨final, finalized, entered⟩ := except_bind_ok.mp linked
    rw [finalizeUnits] at finalized
    obtain ⟨⟨arrayTypes, maps⟩, arrays, finalized⟩ := except_bind_ok.mp finalized
    obtain ⟨classes, -, finalized⟩ := except_bind_ok.mp finalized
    obtain ⟨structs, -, finalized⟩ := except_bind_ok.mp finalized
    obtain ⟨enums, -, finalized⟩ := except_bind_ok.mp finalized
    obtain ⟨staticSlots, -, finalized⟩ := except_bind_ok.mp finalized
    obtain ⟨functions, -, finalized⟩ := except_bind_ok.mp finalized
    obtain ⟨interfaces, -, finalized⟩ := except_bind_ok.mp finalized
    cases finalized
    refine ⟨maps, arrays.trans ?_⟩
    rw [resolveEntry] at entered
    split at entered
    · cases entered
      rfl
    · split at entered
      · cases entered
        rfl
      · cases entered

def arrayMaps : List (List Nat) :=
  match arrayMerge units with
  | .ok (_, maps) => maps
  | .error _ => []

def elemRow (unit : Nat) (elem : ElemType) : Except LinkError UInt16 :=
  let slot := (slotOf (units.getD unit {}) elem.named).elim noIndex UInt16.ofNat
  if elem.kind = .struct then remapIndexOrNone (unitMaps units unit).structs slot
  else if elem.kind = .cls then remapIndexOrNone (unitMaps units unit).classes slot
  else .ok slot

end Closure

structure Site where
  unit : Nat
  type : ArrayType
  place : Nat

namespace Site
variable (units : List CompiledModule) (types : Nat → List (ArrayType × Nat)) (s : Site)

def Registered : Prop := s.unit < units.length ∧ (s.type, s.place) ∈ types s.unit

def row : Option Nat := ((arrayMaps units).getD s.unit [])[s.place]?

def operand : UInt16 := UInt16.ofNat (((arrayMaps units).getD s.unit []).getD (UInt16.ofNat s.place).toNat 0)

end Site

def linkedRow (type : ArrayType) (idx : UInt16) : CompiledArrayType where
  elemKind := Vm.ObjectStream.kindCode type.elem.kind
  elemTypeIdx := idx
  rank := type.rank

theorem kindCode_injective {kind kind' : Vm.Rtk} (same : Vm.ObjectStream.kindCode kind = Vm.ObjectStream.kindCode kind') :
    kind = kind' := by
  cases kind <;> cases kind' <;> first | rfl | exact absurd same (by decide)

theorem remap_rowOf (units : List CompiledModule) (unit : Nat) (type : ArrayType) :
    remapElemTypeIdx (unitMaps units unit) (rowOf (units.getD unit {}) type) =
      (elemRow units unit type.elem).map (linkedRow type) := by
  have isStruct : Vm.ObjectStream.kindCode type.elem.kind = Rtk.struct ↔ type.elem.kind = .struct :=
    ⟨fun same => kindCode_injective (same : _ = Vm.ObjectStream.kindCode .struct), fun same => by rw [same]; rfl⟩
  have isClass : Vm.ObjectStream.kindCode type.elem.kind = Rtk.cls ↔ type.elem.kind = .cls :=
    ⟨fun same => kindCode_injective (same : _ = Vm.ObjectStream.kindCode .cls), fun same => by rw [same]; rfl⟩
  unfold remapElemTypeIdx elemRow rowOf remapIndexOrNone
  simp only [isStruct, isClass]
  split
  · rename_i none
    simp only [none]
    split_ifs <;> rfl
  · rename_i some
    split_ifs
    · cases remapIndex (unitMaps units unit).structs _ <;> rfl
    · cases remapIndex (unitMaps units unit).classes _ <;> rfl
    · rfl

inductive ArrayCheck where
  | passes | invalidReference | notArray | rankMismatch (expected got : UInt8) | elementMismatch

def opCheckArrayType (rows : List CompiledArrayType) (h : Vm.Heap) (expectIdx : UInt16) (heapIdx : Int) : ArrayCheck :=
  if heapIdx = 0 then .passes
  else if h.inRange heapIdx = false then .invalidReference
  else
    let slot := h.slot heapIdx.toNat
    if slot.kind ≠ .array ∧ slot.kind ≠ .arrayView then .notArray
    else if UInt16.ofInt (slot.word 1) = expectIdx then .passes
    else
      let gotRank := UInt8.ofInt (slot.word 2)
      match rows[expectIdx.toNat]? with
      | some row => if gotRank ≠ row.rank then .rankMismatch row.rank gotRank else .elementMismatch
      | none => .elementMismatch

structure HoldsArray (units : List CompiledModule) (h : Vm.Heap) (heapIdx : Int) (s : Site) : Prop where
  inRange : h.inRange heapIdx = true
  kind : (h.slot heapIdx.toNat).kind = .array ∨ (h.slot heapIdx.toNat).kind = .arrayView
  typeWord : (h.slot heapIdx.toNat).word 1 = (s.operand units).toNat

theorem opCheckArrayType_passes {units : List CompiledModule} {rows : List CompiledArrayType} {h : Vm.Heap} {heapIdx : Int}
    {s : Site} (holds : HoldsArray units h heapIdx s) (expectIdx : UInt16) :
    opCheckArrayType rows h expectIdx heapIdx = .passes ↔ s.operand units = expectIdx := by
  have nonzero : heapIdx ≠ 0 := by
    rintro rfl
    have := holds.inRange
    simp [Vm.Heap.inRange] at this
  have isArray : ¬ ((h.slot heapIdx.toNat).kind ≠ .array ∧ (h.slot heapIdx.toNat).kind ≠ .arrayView) :=
    fun both => holds.kind.elim both.1 both.2
  have typeIdx : UInt16.ofInt ((h.slot heapIdx.toNat).word 1) = s.operand units := by
    have below := (s.operand units).toNat_lt
    apply UInt16.toNat.inj
    rw [holds.typeWord, UInt16.ofInt, UInt16.toNat_ofNat']
    omega
  unfold opCheckArrayType
  simp only [if_neg nonzero, holds.inRange, Bool.true_eq_false, if_false, if_neg isArray, typeIdx]
  split
  · rename_i same
    simp only [same]
  · rename_i apart
    refine iff_of_false ?_ apart
    split
    · split_ifs <;> exact fun raised => by cases raised
    · exact fun raised => by cases raised

def oneArray (typeIdx : UInt16) : Vm.Heap where
  size := 2
  slot := fun i => if i = 1 then { kind := .array, cells := [Vm.Heap.rtkArrayCode, typeIdx.toNat, 1, 0, 0, 0] } else {}
  shards := [[]]
  table := fun _ => {}

theorem oneArray_holds (units : List CompiledModule) (s : Site) : HoldsArray units (oneArray (s.operand units)) 1 s :=
  ⟨rfl, .inl rfl, rfl⟩

def RowsIdentify (units : List CompiledModule) (merged : CompiledModule) (types : Nat → List (ArrayType × Nat)) : Prop :=
  ∀ a b : Site, a.Registered units types → b.Registered units types → (a.row units = b.row units ↔ a.type = b.type) ∧
    ∀ h heapIdx, HoldsArray units h heapIdx b →
      (opCheckArrayType merged.arrayTypes h (a.operand units) heapIdx = .passes ↔ a.type = b.type)

/-- The registered types are few enough for 16 bits, a type refers to one row in every unit, and different types differ
in rank, in the runtime kind of the element or in the row that the element refers to. -/
structure Distinguished (units : List CompiledModule) (types : Nat → List (ArrayType × Nat)) : Prop where
  few : ∀ list : List ArrayType, list.Nodup → (∀ t ∈ list, ∃ s : Site, s.Registered units types ∧ s.type = t) → list.length ≤ 2 ^ 16
  same : ∀ a b : Site, a.Registered units types → b.Registered units types → a.type = b.type →
    elemRow units a.unit a.type.elem = elemRow units b.unit b.type.elem
  apart : ∀ a b : Site, a.Registered units types → b.Registered units types → a.type.rank = b.type.rank →
    a.type.elem.kind = b.type.elem.kind → elemRow units a.unit a.type.elem = elemRow units b.unit b.type.elem → a.type = b.type

theorem places_le {units : List CompiledModule} {types : Nat → List (ArrayType × Nat)} (few : Distinguished units types)
    {size : Nat} {α : Nat → Site → Prop}
    (sites : ∀ p < size, ∃ s : Site, s.Registered units types ∧ α p s)
    (apart : ∀ p s p' s', α p s → α p' s' → s.Registered units types → s'.Registered units types → s.type = s'.type → p = p') :
    size ≤ 2 ^ 16 := by
  choose site registered isSite using sites
  let list := (List.finRange size).map fun p => (site p.1 p.2).type
  have nodup : list.Nodup := by
    refine (List.nodup_finRange size).map fun p p' same => Fin.ext ?_
    exact apart p.1 _ p'.1 _ (isSite p.1 p.2) (isSite p'.1 p'.2) (registered ..) (registered ..) same
  have count : list.length ≤ 2 ^ 16 := few.few list nodup fun t member => by
    obtain ⟨p, -, rfl⟩ := List.mem_map.mp member
    exact ⟨_, registered p.1 p.2, rfl⟩
  rwa [List.length_map, List.length_finRange] at count

section Rows
variable {units : List CompiledModule} {merged : CompiledModule} {entryKey : Text} {types : Nat → List (ArrayType × Nat)}
variable (linked : link units entryKey = .ok merged)
variable (compiled : ∀ (i : Nat) (u : CompiledModule), units[i]? = some u → ArrayRun u (types i))
include linked

theorem arrays_merged : UnitRowsMerged (units.zipIdx.map fun (u, unit) => (unitMaps units unit, u.arrayTypes)) []
    merged.arrayTypes (arrayMaps units) := by
  obtain ⟨maps, done⟩ := link_arrays linked
  have isMaps : arrayMaps units = maps := by rw [arrayMaps, done]
  rw [isMaps]
  exact mergeUnitArrayTypes_ok done

theorem arrays_nodup : merged.arrayTypes.Nodup := (arrays_merged linked).nodup List.nodup_nil

include compiled

theorem site_row {s : Site} (registered : s.Registered units types) : ∃ idx q, elemRow units s.unit s.type.elem = .ok idx ∧
    s.row units = some q ∧ merged.arrayTypes[q]? = some (linkedRow s.type idx) := by
  obtain ⟨inside, member⟩ := registered
  have at_unit := List.getElem?_eq_getElem inside
  have rows := registers_rows (compiled _ _ at_unit)
  have part : (units.zipIdx.map fun (u, unit) => (unitMaps units unit, u.arrayTypes))[s.unit]? =
      some (unitMaps units s.unit, units[s.unit].arrayTypes) := by
    simp [at_unit]
  obtain ⟨row, q, converted, at_map, at_q⟩ := (arrays_merged linked).mapped _ _ part _ _ (rows.at_place _ member)
  have isUnit : units.getD s.unit {} = units[s.unit] := by rw [List.getD_eq_getElem?_getD, at_unit, Option.getD_some]
  have made := remap_rowOf units s.unit s.type
  rw [isUnit] at made
  rw [made] at converted
  cases found : elemRow units s.unit s.type.elem with
  | error problem =>
    rw [found] at converted
    cases converted
  | ok idx =>
    rw [found] at converted
    cases converted
    exact ⟨idx, q, rfl, at_map, at_q⟩

theorem row_site {q : Nat} (inside : q < merged.arrayTypes.length) : ∃ s : Site, s.Registered units types ∧ s.row units = some q := by
  have at_q := List.getElem?_eq_getElem inside
  rcases (arrays_merged linked).onto _ (List.getElem_mem inside) with none | ⟨i, unit, at_unit, row, member, converted⟩
  · cases none
  · rw [List.getElem?_map, Option.map_eq_some_iff] at at_unit
    obtain ⟨⟨u, j⟩, at_zip, rfl⟩ := at_unit
    have place := List.mk_mem_zipIdx_iff_getElem?.mp (List.mem_of_getElem? at_zip)
    rw [List.getElem?_zipIdx, Option.map_eq_some_iff] at at_zip
    obtain ⟨u', at_u, isPair⟩ := at_zip
    obtain ⟨rfl, rfl⟩ := Prod.mk.inj isPair
    rw [Nat.zero_add] at converted
    obtain ⟨⟨type, p⟩, entry, rfl⟩ := (registers_rows (compiled i u' at_u)).onto row member
    have registered : (Site.mk i type p).Registered units types := ⟨(List.getElem?_eq_some_iff.mp at_u).1, entry⟩
    obtain ⟨idx, q', found, isRow, at_q'⟩ := site_row linked compiled registered
    refine ⟨_, registered, isRow.trans (congrArg some ?_)⟩
    have isUnit : units.getD i {} = u' := by rw [List.getD_eq_getElem?_getD, at_u, Option.getD_some]
    have made := remap_rowOf units i type
    rw [isUnit, converted, found] at made
    refine (place_eq_iff (arrays_nodup linked) at_q' at_q).mpr ?_
    exact (Except.ok.inj made).symm

theorem row_eq_iff {a b : Site} (isA : a.Registered units types) (isB : b.Registered units types) :
    a.row units = b.row units ↔ a.type.rank = b.type.rank ∧ a.type.elem.kind = b.type.elem.kind ∧
      elemRow units a.unit a.type.elem = elemRow units b.unit b.type.elem := by
  obtain ⟨idx, q, found, isRow, at_q⟩ := site_row linked compiled isA
  obtain ⟨idx', q', found', isRow', at_q'⟩ := site_row linked compiled isB
  rw [isRow, isRow', Option.some.injEq, place_eq_iff (arrays_nodup linked) at_q at_q', found, found', linkedRow, linkedRow,
    CompiledArrayType.mk.injEq, Except.ok.injEq]
  exact ⟨fun ⟨kind, idx, rank⟩ => ⟨rank, kindCode_injective kind, idx⟩, fun ⟨rank, kind, idx⟩ => ⟨by rw [kind], idx, rank⟩⟩

omit linked in
theorem place_lt (few : Distinguished units types) {s : Site} (registered : s.Registered units types) : s.place < 2 ^ 16 := by
  obtain ⟨inside, member⟩ := registered
  have rows := registers_rows (compiled _ _ (List.getElem?_eq_getElem inside))
  have small : units[s.unit].arrayTypes.length ≤ 2 ^ 16 := by
    refine places_le few (α := fun p other => other.unit = s.unit ∧
      units[s.unit].arrayTypes[p]? = some (rowOf units[s.unit] other.type)) (fun p below => ?_) ?_
    · obtain ⟨⟨type, place⟩, entry, isRow⟩ := rows.onto _ (List.getElem_mem below)
      exact ⟨⟨s.unit, type, place⟩, ⟨inside, entry⟩, rfl, (List.getElem?_eq_getElem below).trans (congrArg some isRow.symm)⟩
    · intro p one p' other ⟨_, at_p⟩ ⟨_, at_p'⟩ _ _ same
      rw [← same] at at_p'
      exact (place_eq_iff rows.nodup at_p at_p').mpr rfl
  have place := (List.getElem?_eq_some_iff.mp (rows.at_place _ member)).1
  exact Nat.lt_of_lt_of_le place small

omit linked compiled in
theorem operand_eq {s : Site} {q : Nat} (fits : s.place < 2 ^ 16) (isRow : s.row units = some q) :
    s.operand units = UInt16.ofNat q := by
  rw [Site.row] at isRow
  rw [Site.operand, UInt16.toNat_ofNat', Nat.mod_eq_of_lt fits, List.getD_eq_getElem?_getD, isRow, Option.getD_some]

theorem merged_length_le (few : Distinguished units types) : merged.arrayTypes.length ≤ 2 ^ 16 := by
  refine places_le few (α := fun q s => s.row units = some q) (fun q below => row_site linked compiled below) ?_
  intro q s q' s' isRow isRow' registered registered' same
  have sameRow := (row_eq_iff linked compiled registered registered').mpr
    ⟨by rw [same], by rw [same], few.same s s' registered registered' same⟩
  exact Option.some.inj (isRow.symm.trans (sameRow.trans isRow'))

theorem operand_eq_iff (few : Distinguished units types) {a b : Site} (isA : a.Registered units types)
    (isB : b.Registered units types) : b.operand units = a.operand units ↔ a.row units = b.row units := by
  obtain ⟨_, q, -, isRow, at_q⟩ := site_row linked compiled isA
  obtain ⟨_, q', -, isRow', at_q'⟩ := site_row linked compiled isB
  rw [operand_eq (place_lt compiled few isA) isRow, operand_eq (place_lt compiled few isB) isRow', isRow, isRow',
    Option.some.injEq]
  have small := merged_length_le linked compiled few
  have below := (List.getElem?_eq_some_iff.mp at_q).1
  have below' := (List.getElem?_eq_some_iff.mp at_q').1
  constructor
  · intro same
    have numbers := congrArg UInt16.toNat same
    rw [UInt16.toNat_ofNat', UInt16.toNat_ofNat', Nat.mod_eq_of_lt (by omega), Nat.mod_eq_of_lt (by omega)] at numbers
    exact numbers.symm
  · rintro rfl
    rfl

/-- Rows identify array types exactly where the registered types are distinguished. -/
theorem rowsIdentify_iff : RowsIdentify units merged types ↔ Distinguished units types := by
  constructor
  · intro identify
    have operands {a b : Site} (isA : a.Registered units types) (isB : b.Registered units types) :
        b.operand units = a.operand units ↔ a.type = b.type :=
      (opCheckArrayType_passes (oneArray_holds units b) _).symm.trans ((identify a b isA isB).2 _ _ (oneArray_holds units b))
    refine ⟨?_, ?_, ?_⟩
    · intro list nodup sites
      choose site registered isType using sites
      let numbers := list.attach.map fun t => ((site t.1 t.2).operand units).toNat
      have distinct : numbers.Nodup := by
        refine (List.nodup_attach.mpr nodup).map fun t t' same => Subtype.ext ?_
        have sameType := (operands (registered t'.1 t'.2) (registered t.1 t.2)).mp (UInt16.toNat.inj same)
        rw [isType, isType] at sameType
        exact sameType.symm
      have count := length_le_of_nodup distinct fun n member => by
        obtain ⟨t, -, rfl⟩ := List.mem_map.mp member
        exact UInt16.toNat_lt _
      rwa [List.length_map, List.length_attach] at count
    · intro a b isA isB same
      exact ((row_eq_iff linked compiled isA isB).mp ((identify a b isA isB).1.mpr same)).2.2
    · intro a b isA isB rank kind elem
      exact (identify a b isA isB).1.mp ((row_eq_iff linked compiled isA isB).mpr ⟨rank, kind, elem⟩)
  · intro few a b isA isB
    have rows : a.row units = b.row units ↔ a.type = b.type := by
      rw [row_eq_iff linked compiled isA isB]
      refine ⟨fun ⟨rank, kind, elem⟩ => few.apart a b isA isB rank kind elem, fun same => ?_⟩
      exact ⟨by rw [same], by rw [same], few.same a b isA isB same⟩
    refine ⟨rows, fun h heapIdx holds => ?_⟩
    rw [opCheckArrayType_passes holds, operand_eq_iff linked compiled few isA isB, rows]

end Rows

def ints : ArrayType := { elem := .scalar .int32, rank := 1 }

def shapes : ArrayType := { elem := .iface { owner := some [97], key := [73, 83, 104, 97, 112, 101] }, rank := 1 }

def shapeUnit : CompiledModule where
  modulePath := [97]
  interfaces := [{ name := [73, 83, 104, 97, 112, 101] }]
  arrayTypes := [{ elemKind := 0 }]

theorem shapeUnit_registers : ArrayRun shapeUnit [(shapes, 0), (ints, 0)] := by
  have start : ArrayRun { shapeUnit with arrayTypes := [] } [] := .start rfl ⟨rfl, rfl⟩
  have first : ArrayRun shapeUnit [(ints, 0)] := .register start rfl
  exact .register first rfl

theorem shapeUnit_linked : link [shapeUnit] [] = .ok { shapeUnit with entryPoint := -1 } := rfl

theorem shapeClosure_registers (i : Nat) (u : CompiledModule) (at_i : [shapeUnit][i]? = some u) :
    ArrayRun u [(shapes, 0), (ints, 0)] := by
  rw [List.mem_singleton.mp (List.mem_of_getElem? at_i)]
  exact shapeUnit_registers

theorem shapeUnit_identify_iff : RowsIdentify [shapeUnit] { shapeUnit with entryPoint := -1 } (fun _ => [(shapes, 0), (ints, 0)]) ↔
    Distinguished [shapeUnit] (fun _ => [(shapes, 0), (ints, 0)]) :=
  rowsIdentify_iff shapeUnit_linked shapeClosure_registers

theorem interface_array_takes_int_row : ∃ units merged types, link units [] = .ok merged ∧
    (∀ (i : Nat) (u : CompiledModule), units[i]? = some u → ArrayRun u (types i)) ∧ ¬ RowsIdentify units merged types := by
  refine ⟨_, _, fun _ => [(shapes, 0), (ints, 0)], shapeUnit_linked, shapeClosure_registers, fun identify => ?_⟩
  have isInts : (Site.mk 0 ints 0).Registered [shapeUnit] (fun _ => [(shapes, 0), (ints, 0)]) := ⟨Nat.zero_lt_one, .tail _ (.head _)⟩
  have isShapes : (Site.mk 0 shapes 0).Registered [shapeUnit] (fun _ => [(shapes, 0), (ints, 0)]) := ⟨Nat.zero_lt_one, .head _⟩
  have same := (identify _ _ isInts isShapes).1.mp rfl
  cases same

end NLang.Linker
