import NLang.Vm.ArrayAssembly

/-!
# The routes to an element

Coordinates, the flat index, the native view and the copy of a view lead to one element. The assembly of an array
goes by the element width of its own array type, and nothing compares that with the rows.
-/

namespace NLang.Vm.Heap
open NLang.Library.RowMajor

def SameElement (tables : TypeTables) (h g : Heap) (elems : Option Nat) (source dst : Place) : Prop :=
  match elems with
  | none => g.readPlace dst = h.readPlace source
  | some s => ∃ a b, h.readPlace source = [a] ∧ g.readPlace dst = [b] ∧
      (StructValue tables h s a → StructCopy tables h g (fun j => ¬ (j < h.size ∧ (h.slot j).isFree = false)) s a b)

structure ElementRoutes (tables : TypeTables) (h : Heap) (i : Nat) (coords : List Int) (place : Place) : Prop where
  coordinate : h.coordinatePlace tables i coords = some place
  flat : h.flatPlace tables i (position (h.slot i).dims coords) = some place
  native : ∃ view, h.nativeGetArrayView tables i = some view ∧ view.dataRecord = place.record ∧
    view.elementByte coords = (place.cell * kHeapCellBytes : Nat) ∧ view.elemCellBytes = place.cells * kHeapCellBytes
  materialized : ∀ shard quantum k g, materializeViewRecord tables shard quantum h i = some (k, g) →
    ∃ dst, g.flatPlace tables k (position (h.slot i).dims coords) = some dst ∧ SameElement tables h g none place dst

variable {tables : TypeTables} {h g : Heap} {i k : Nat}

theorem ArrayRecord.elementPlace (record : ArrayRecord tables (g.slot k)) (row : CompiledArrayType) (coords : List Int) :
    g.elementPlace k row coords = ⟨k, arrayHeaderCells (g.slot k).rank + (position (g.slot k).dims coords).toNat * arrayElemCells row.elemKind,
      arrayElemCells row.elemKind⟩ := by
  rw [Heap.elementPlace, ownerOf, affineAddress, record.kind, if_neg (by decide), if_neg (by decide)]

theorem ArrayValue.flatAddress_position (value : ArrayValue tables h (h.slot i)) {coords : List Int}
    (inRange : InRange coords (h.slot i).dims) :
    Heap.flatAddress (h.slot i) (position (h.slot i).dims coords).toNat = (affineAddress (h.slot i) coords).toNat := by
  rw [← value.flatAddress inRange, Heap.flatAddress]
  split <;> rfl

theorem readPlace_congr {place dst : Place} (cells : dst.cells = place.cells)
    (same : ∀ c < place.cells, g.cell dst.record (dst.cell + c) = h.cell place.record (place.cell + c)) :
    g.readPlace dst = h.readPlace place := by
  rw [readPlace, readPlace, cells]
  exact List.map_congr_left fun c member => same c (List.mem_range.mp member)

theorem position_lt_size (value : ArrayValue tables h (h.slot i)) {coords : List Int} (inRange : InRange coords (h.slot i).dims) :
    (position (h.slot i).dims coords).toNat < ((h.slot i).word 3).toNat := by
  obtain ⟨start, ends⟩ := position_range inRange
  rw [(validateArrayDims_eq value.size).1]
  omega

theorem elementRoutes (value : ArrayValue tables h (h.slot i)) (inside : 0 < i ∧ i < h.size) (sound : FreeListSound h [])
    {coords : List Int} (inRange : InRange coords (h.slot i).dims) {row : CompiledArrayType}
    (at_row : tables.arrayTypes[((h.slot i).word 1).toNat]? = some row) :
    ElementRoutes tables h i coords (h.elementPlace i row coords) := by
  obtain ⟨coordinate, flat, native⟩ := value.places inside inRange at_row
  refine ⟨coordinate, flat, native, fun shard quantum k g made => ?_⟩
  cases value with
  | array record =>
    rw [materializeViewRecord, if_pos] at made
    · cases made
    · exact .inr (by rw [refKind, Int.toNat_natCast, record.kind]; decide)
  | view record =>
    have value : ArrayValue tables h (h.slot i) := .view record
    obtain ⟨fresh, array, dims, word, -, copied⟩ := materializeViewRecord_copied sound inside.2 record at_row made
    have inRange' : InRange coords (g.slot k).dims := dims ▸ inRange
    obtain ⟨-, flat', -⟩ := (ArrayValue.array (h := g) array).places ⟨fresh.positive, fresh.inside⟩ inRange'
      (by rw [word, Int.toNat_natCast, at_row])
    have rank : (g.slot k).rank = (h.slot i).rank := by rw [← Slot.length_dims, dims, Slot.length_dims]
    rw [dims, array.elementPlace row coords, dims, rank] at flat'
    refine ⟨_, flat', readPlace_congr rfl fun c below => ?_⟩
    rw [copied _ (position_lt_size value inRange) c below, value.flatAddress_position inRange]
    rfl

def AssembledElement (tables : TypeTables) (h g : Heap) (arrayTypeIdx r j : Nat) (coords : List Int) (place : Place) : Prop :=
  ∃ arrayType dst, tables.arrayTypes[arrayTypeIdx]? = some arrayType ∧ g.coordinatePlace tables j (r :: coords) = some dst ∧
    SameElement tables h g (structElems arrayType) place dst

theorem SameElement.cells {elems : Option Nat} {source dst : Place} (one : ∀ s, elems = some s → dst.cells = 1)
    (same : SameElement tables h g elems source dst) : dst.cells = source.cells := by
  have length (h : Heap) (place : Place) : (h.readPlace place).length = place.cells := by simp [readPlace]
  cases elems with
  | none => rw [← length g, show g.readPlace dst = h.readPlace source from same, length]
  | some s =>
    obtain ⟨a, b, read, -, -⟩ := same
    rw [one s rfl, ← length h, read, List.length_singleton]

section Assembly
variable {shard quantum arrayTypeIdx r j : Nat} {rows : List Int}

theorem assembled_place (sound : FreeListSound h []) (at_r : rows[r]? = some (i : Int))
    (values : ∀ handle ∈ rows, ArrayValue tables h (h.slot handle.toNat))
    (made : opAssembleArrayN tables shard quantum h arrayTypeIdx rows = some (j, g)) :
    ∃ arrayType, tables.arrayTypes[arrayTypeIdx]? = some arrayType ∧ RowCopied tables h arrayType j r i g ∧
      ∀ coords, InRange coords (h.slot i).dims → g.coordinatePlace tables j (r :: coords) =
        some ⟨j, arrayHeaderCells arrayType.rank + (r * ((h.slot i).word 3).toNat + (position (h.slot i).dims coords).toNat) *
          arrayElemCells arrayType.elemKind, arrayElemCells arrayType.elemKind⟩ := by
  obtain ⟨arrayType, at_type, -, fresh, record, word, rank, rowsCopied⟩ := opAssembleArrayN_copied sound values made
  obtain ⟨below, same⟩ := List.getElem?_eq_some_iff.mp at_r
  have isRow : (rows.getD r 0).toNat = i := by rw [List.getD_eq_getElem?_getD, at_r, Option.getD_some, Int.toNat_natCast]
  obtain ⟨dims, inside, copied⟩ := rowsCopied r below
  rw [isRow] at dims copied
  refine ⟨arrayType, at_type, copied, fun coords inRange => ?_⟩
  have value := values i (List.mem_of_getElem? at_r)
  rw [Int.toNat_natCast] at value
  have inRange' : InRange (r :: coords) (g.slot j).dims := by
    rw [dims]
    exact .cons ⟨by omega, by omega⟩ inRange
  obtain ⟨coordinate, -⟩ := (ArrayValue.array (h := g) record).places ⟨fresh.positive, fresh.inside⟩ inRange'
    (by rw [word, Int.toNat_natCast, at_type])
  obtain ⟨start, -⟩ := position_range inRange
  obtain ⟨isProd, -, nonneg⟩ := validateArrayDims_eq value.size
  have size : 0 ≤ (h.slot i).dims.prod := List.prod_nonneg fun dim member => (nonneg dim member).1
  have flat : (position (g.slot j).dims (r :: coords)).toNat =
      r * ((h.slot i).word 3).toNat + (position (h.slot i).dims coords).toNat := by
    rw [dims, position, Int.toNat_add (Int.mul_nonneg (by omega) size) start, Int.toNat_mul (by omega) size, Int.toNat_natCast, isProd]
  rw [coordinate, record.elementPlace, flat, rank]

theorem assembled_iff (value : ArrayValue tables h (h.slot i)) (sound : FreeListSound h [])
    (at_r : rows[r]? = some (i : Int)) (values : ∀ handle ∈ rows, ArrayValue tables h (h.slot handle.toNat))
    (made : opAssembleArrayN tables shard quantum h arrayTypeIdx rows = some (j, g)) (row : CompiledArrayType) :
    (∀ coords, InRange coords (h.slot i).dims → AssembledElement tables h g arrayTypeIdx r j coords (h.elementPlace i row coords)) ↔
      (h.slot i).word 3 = 0 ∨ (tables.arrayTypes[arrayTypeIdx]?.map fun row => arrayElemCells row.elemKind) = some (arrayElemCells row.elemKind) := by
  obtain ⟨arrayType, at_type, copied, place⟩ := assembled_place sound at_r values made
  obtain ⟨isProd, -, nonneg⟩ := validateArrayDims_eq value.size
  rw [at_type, Option.map_some, Option.some.injEq]
  constructor
  · intro all
    by_cases empty : (h.slot i).word 3 = 0
    · exact .inl empty
    · have inRange := inRange_zeros (fun dim member => (nonneg dim member).1) (isProd ▸ empty)
      obtain ⟨arrayType', dst, at_type', at_dst, same⟩ := all _ inRange
      cases at_type.symm.trans at_type'
      rw [place _ inRange] at at_dst
      cases at_dst
      exact .inr (same.cells fun s elems => structElems_cells elems)
  · rintro (empty | width) coords inRange
    · have := prod_pos inRange
      omega
    · refine ⟨arrayType, _, at_type, place coords inRange, ?_⟩
      have element := copied _ (position_lt_size value inRange)
      rw [value.flatAddress_position inRange] at element
      rw [elementPlace, ← width]
      cases elems : structElems arrayType with
      | none =>
        rw [elems] at element
        exact readPlace_congr rfl element
      | some s =>
        have single := structElems_cells elems
        rw [elems, single] at element
        rw [single]
        refine ⟨_, _, rfl, rfl, fun struct => ?_⟩
        exact (element struct).later (Nat.le_refl _) (fun _ new => new.1) fun _ _ _ _ => rfl

end Assembly

/-- The routes agree on every element of every array value, and an assembly agrees with its rows where its own array type
has elements of the same width. -/
theorem element_routes_agree_iff (value : ArrayValue tables h (h.slot i)) (inside : 0 < i ∧ i < h.size) (sound : FreeListSound h []) :
    (∀ coords, InRange coords (h.slot i).dims → ∃ place, ElementRoutes tables h i coords place) ∧
      ∀ (shard quantum arrayTypeIdx : Nat) (rows : List Int) (r j : Nat) (g : Heap), rows[r]? = some (i : Int) →
        (∀ handle ∈ rows, ArrayValue tables h (h.slot handle.toNat)) →
        opAssembleArrayN tables shard quantum h arrayTypeIdx rows = some (j, g) →
        ((∀ coords place, InRange coords (h.slot i).dims → ElementRoutes tables h i coords place →
            AssembledElement tables h g arrayTypeIdx r j coords place) ↔
          (h.slot i).word 3 = 0 ∨
            tables.arrayTypes[arrayTypeIdx]?.map (fun row => arrayElemCells row.elemKind) = elementCells tables (h.slot i)) := by
  obtain ⟨row, at_row, cells⟩ := value.elementCells
  have routes {coords : List Int} (inRange : InRange coords (h.slot i).dims) := elementRoutes value inside sound inRange at_row
  refine ⟨fun coords inRange => ⟨_, routes inRange⟩, fun shard quantum arrayTypeIdx rows r j g at_r values made => ?_⟩
  rw [cells, ← assembled_iff value sound at_r values made row]
  constructor
  · intro all coords inRange
    exact all coords _ inRange (routes inRange)
  · intro all coords place inRange found
    cases (routes inRange).coordinate.symm.trans found.coordinate
    exact all coords inRange

def longTables : TypeTables where
  structs := []
  classes := []
  arrayTypes := [{ elemKind := .long }, { elemKind := .typeParam, rank := 2 }, { elemKind := .long, rank := 2 }]
  depth := fun _ => 0
  depth_lt := TypeTables.depth_lt_nil

def longHeap : Heap where
  size := 3
  slot := fun i =>
    if i = 1 then { kind := .array, cells := [rtkArrayCode, 0, 1, 2, 2, 0] ++ [7, 0, 8, 0] }
    else if i = 2 then { kind := .arrayView, cells := [rtkArrayViewCode, 0, 1, 2] ++ [2] ++ [-1] ++ [1, 1] }
    else {}
  shards := [[]]
  table := fun _ => {}

theorem longHeap_sound : longHeap.FreeListSound [] := by
  refine ⟨by simp [longHeap], by simp [longHeap], by simp [longHeap, Heap.freeIndices], fun i => ?_⟩
  refine iff_of_false (by simp [longHeap, Heap.freeIndices]) ?_
  rintro ⟨one, bound, isFree⟩
  obtain rfl | rfl : i = 1 ∨ i = 2 := by simp only [longHeap] at bound; omega
  · cases isFree
  · cases isFree

theorem longHeap_array : ArrayRecord longTables (longHeap.slot 1) :=
  ⟨rfl, by decide, by decide, rfl, ⟨_, rfl, by decide⟩⟩

theorem longHeap_view : ViewRecord longTables longHeap (longHeap.slot 2) :=
  ⟨rfl, by decide, by decide, by decide, longHeap_array, ⟨_, _, rfl, rfl, rfl⟩, by decide⟩

theorem longHeap_routes_agree :
    (∃ place, ElementRoutes longTables longHeap 2 [0] place) ∧ longHeap.coordinatePlace longTables 2 [0] = some ⟨1, 8, 2⟩ :=
  ⟨(element_routes_agree_iff (.view longHeap_view) (by decide) longHeap_sound).1 [0] (.cons ⟨by decide, by decide⟩ .nil), by decide⟩

theorem longHeap_assembly_differs :
    ∃ j g, opAssembleArrayN longTables 0 1 longHeap 1 [1, 1] = some (j, g) ∧
      ¬ ∀ coords place, InRange coords (longHeap.slot 1).dims → ElementRoutes longTables longHeap 1 coords place →
        AssembledElement longTables longHeap g 1 0 j coords place := by
  refine ⟨_, _, rfl, fun agrees => ?_⟩
  have inRange : InRange [1] (longHeap.slot 1).dims := .cons ⟨by decide, by decide⟩ .nil
  have routes := elementRoutes (.array longHeap_array) (by decide) longHeap_sound inRange rfl
  obtain ⟨arrayType, dst, at_type, at_dst, same⟩ := agrees [1] _ inRange routes
  cases at_type
  cases at_dst
  cases same

end NLang.Vm.Heap
