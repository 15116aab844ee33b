import NLang.Vm.ElementRoutes
import NLang.Vm.SliceAxes
import NLang.Vm.ViewCoverage

/-!
# Stores through views

The gate of the element store tests the axes of a view one by one. Slices keep apart what their base keeps apart; a native
view may have strides that meet only together.
-/

namespace NLang.Vm
open NLang.Library.RowMajor NLang.Library.Runs

namespace Heap
variable {tables : TypeTables} {h h' : Heap}

def rejectZeroStrideStore (slot : Slot) : Bool :=
  (slot.dims.zip slot.viewStrides).any fun (dim, stride) => decide (1 < dim) && decide (stride = 0)

def writePlace (h : Heap) (place : Place) (value : List Int) : Heap :=
  (List.range place.cells).foldl (fun h c => h.storeCell place.record (place.cell + c) (value.getD c 0)) h

def opStoreElementN (tables : TypeTables) (h : Heap) (heapIdx : Int) (coords value : List Int) : Option Heap :=
  if (h.slot heapIdx.toNat).kind = .arrayView ∧ rejectZeroStrideStore (h.slot heapIdx.toNat) = true then none
  else (h.coordinatePlace tables heapIdx coords).map (h.writePlace · value)

def placeCells (place : Place) : List Nat := (List.range place.cells).map (place.cell + ·)

theorem writePlace_spec (sound : FreeListSound h []) (place : Place)
    (inside : place.record < h.size ∧ (h.slot place.record).isFree = false)
    (room : place.cell + place.cells ≤ (h.slot place.record).cells.length) (value : List Int) :
    Writes place.record (placeCells place) h (h.writePlace place value) ∧
      (h.writePlace place value).readPlace place = (List.range place.cells).map (value.getD · 0) := by
  have general (n : Nat) (small : n ≤ place.cells) :
      let g := (List.range n).foldl (fun h c => h.storeCell place.record (place.cell + c) (value.getD c 0)) h
      Writes place.record ((List.range n).map (place.cell + ·)) h g ∧
        ∀ c < n, g.cell place.record (place.cell + c) = value.getD c 0 := by
    induction n with
    | zero => exact ⟨.refl sound inside, fun _ below => absurd below (Nat.not_lt_zero _)⟩
    | succ n ih =>
      obtain ⟨writes, read⟩ := ih (by omega)
      rw [List.range_succ, List.foldl_append, List.map_append]
      generalize (List.range n).foldl (fun h c => h.storeCell place.record (place.cell + c) (value.getD c 0)) h = g at writes read
      refine ⟨writes.step (.storeCell writes.sound writes.after _ _), fun c below => ?_⟩
      have length : (g.slot place.record).cells.length = (h.slot place.record).cells.length := writes.only.length
      rcases Nat.lt_succ_iff_lt_or_eq.mp below with earlier | rfl
      · have only := (Writes.storeCell writes.sound writes.after (place.cell + n) (value.getD n 0)).only
        exact (only.others (place.cell + c) (by simp; omega)).trans (read c earlier)
      · exact cell_storeCell_self (by omega) _
  obtain ⟨writes, read⟩ := general place.cells (Nat.le_refl _)
  exact ⟨writes, List.map_congr_left fun c member => read c (List.mem_range.mp member)⟩

theorem ArrayValue.elementPlace_room {i : Nat} (value : ArrayValue tables h (h.slot i)) {coords : List Int}
    (inRange : InRange coords (h.slot i).dims) {row : CompiledArrayType}
    (at_row : tables.arrayTypes[((h.slot i).word 1).toNat]? = some row) :
    (h.elementPlace i row coords).cell + (h.elementPlace i row coords).cells ≤ (h.slot (h.ownerOf i)).cells.length ∧
      ∀ k ∈ placeCells (h.elementPlace i row coords), arrayHeaderCells (h.slot (h.ownerOf i)).rank ≤ k := by
  obtain ⟨nonneg, below⟩ := value.address_range inRange
  have length : (h.slot (h.ownerOf i)).cells.length = arrayHeaderCells (h.slot (h.ownerOf i)).rank +
      ((h.slot (h.ownerOf i)).word 3).toNat * arrayElemCells row.elemKind := by
    cases value with
    | array record =>
      rw [ownerOf, record.kind, if_neg (by decide)]
      obtain ⟨row', at_row', length⟩ := record.row
      cases at_row.symm.trans at_row'
      exact length
    | view record =>
      rw [ownerOf, if_pos record.kind]
      obtain ⟨row', ownerRow, at_row', at_owner, sameKind⟩ := record.row
      cases at_row.symm.trans at_row'
      obtain ⟨ownerRow', at_owner', length⟩ := record.owner.row
      cases at_owner.symm.trans at_owner'
      rw [length, sameKind]
  refine ⟨?_, fun k member => ?_⟩
  · have room : ((affineAddress (h.slot i) coords).toNat + 1) * arrayElemCells row.elemKind ≤
        ((h.slot (h.ownerOf i)).word 3).toNat * arrayElemCells row.elemKind := Nat.mul_le_mul_right _ (by omega)
    rw [Nat.add_mul, Nat.one_mul] at room
    rw [length, elementPlace]
    dsimp only
    omega
  · obtain ⟨c, -, rfl⟩ := List.mem_map.mp member
    rw [elementPlace]
    dsimp only
    omega

theorem arrayElemCells_pos (kind : Rtk) : 0 < arrayElemCells kind := by
  cases kind <;> decide

theorem ViewRecord.store {i : Nat} (sound : FreeListSound h []) (view : ViewRecord tables h (h.slot i)) (inside : 0 < i ∧ i < h.size)
    {coords value : List Int} (inRange : InRange coords (h.slot i).dims)
    (stored : opStoreElementN tables h i coords value = some h') :
    ∃ cells, elementCells tables (h.slot i) = some cells ∧ 0 < cells ∧ ∀ other, InRange other (h.slot i).dims →
      h'.opLoadElementN tables i other =
        if affineAddress (h.slot i) other = affineAddress (h.slot i) coords then some ((List.range cells).map (value.getD · 0))
        else h.opLoadElementN tables i other := by
  have isValue : ArrayValue tables h (h.slot i) := .view view
  obtain ⟨row, at_row, cells⟩ := isValue.elementCells
  have place := (isValue.places inside inRange at_row).1
  obtain ⟨ownerInside, owner⟩ := isValue.owner inside.2
  obtain ⟨room, away⟩ := isValue.elementPlace_room inRange at_row
  rw [opStoreElementN, Option.ite_none_left_eq_some, place, Option.map_some] at stored
  obtain ⟨-, rfl⟩ := And.imp_right Option.some.inj stored
  obtain ⟨writes, read⟩ := writePlace_spec sound (h.elementPlace i row coords) ⟨ownerInside, owner.live⟩ room value
  generalize h.writePlace (h.elementPlace i row coords) value = g at writes read
  change Writes (h.ownerOf i) _ h g at writes
  obtain ⟨owner', dims, rank, word⟩ := owner.later writes.only away
  have isOwner : h.ownerOf i = (h.slot i).viewTarget.toNat := by rw [ownerOf, if_pos view.kind]
  have apart : i ≠ h.ownerOf i := by
    intro same
    have kind := owner.kind
    rw [← same, view.kind] at kind
    cases kind
  have kept : g.slot i = h.slot i := writes.others i inside.2 isValue.live apart
  have value' : ArrayValue tables g (g.slot i) := by
    rw [isOwner] at owner' dims word
    rw [kept]
    exact .view (view.reshaped writes.size owner' dims word)
  have places (other : List Int) : g.elementPlace i row other = h.elementPlace i row other := by
    have sameOwner : g.ownerOf i = h.ownerOf i := by rw [ownerOf, ownerOf, kept]
    rw [elementPlace, elementPlace, sameOwner, kept, rank]
  refine ⟨_, cells, arrayElemCells_pos _, fun other inRange' => ?_⟩
  have loaded := (value'.places ⟨inside.1, Nat.lt_of_lt_of_le inside.2 writes.size⟩ (kept ▸ inRange') (kept ▸ at_row)).1
  rw [opLoadElementN, opLoadElementN, loaded, (isValue.places inside inRange' at_row).1, places, Option.map_some, Option.map_some]
  split
  · rename_i same
    have samePlace : h.elementPlace i row other = h.elementPlace i row coords := by rw [elementPlace, elementPlace, same]
    rw [samePlace, read]
    rfl
  · rename_i different
    congr 1
    refine readPlace_congr rfl fun c below => writes.only.others _ fun member => ?_
    obtain ⟨c', below', same⟩ := List.mem_map.mp member
    rw [List.mem_range] at below'
    have nonneg := (isValue.address_range inRange).1
    have nonneg' := (isValue.address_range inRange').1
    -- the elements would overlap
    rw [elementPlace, elementPlace] at same
    dsimp only at same
    change c < arrayElemCells row.elemKind at below
    change c' < arrayElemCells row.elemKind at below'
    refine different ?_
    have flat : (affineAddress (h.slot i) other).toNat = (affineAddress (h.slot i) coords).toNat := by
      have sum : c' + (affineAddress (h.slot i) coords).toNat * arrayElemCells row.elemKind =
          c + (affineAddress (h.slot i) other).toNat * arrayElemCells row.elemKind := by omega
      have quotients := congrArg (· / arrayElemCells row.elemKind) sum
      simp only [Nat.add_mul_div_right _ _ (arrayElemCells_pos row.elemKind), Nat.div_eq_of_lt below, Nat.div_eq_of_lt below'] at quotients
      omega
    omega

def StoresOne (tables : TypeTables) (h : Heap) (i : Nat) : Prop :=
  ∀ coords value h', InRange coords (h.slot i).dims → opStoreElementN tables h i coords value = some h' →
    ∃ cells, elementCells tables (h.slot i) = some cells ∧
      h'.opLoadElementN tables i coords = some ((List.range cells).map (value.getD · 0)) ∧
      ∀ other, InRange other (h.slot i).dims → other ≠ coords → h'.opLoadElementN tables i other = h.opLoadElementN tables i other

def viewAxes (slot : Slot) : List (Int × Int) := slot.dims.zip slot.viewStrides

@[simp] theorem viewAxes_dims (slot : Slot) : (viewAxes slot).map (·.1) = slot.dims := by
  rw [viewAxes, ← List.unzip_fst, List.unzip_zip_left (by simp)]

@[simp] theorem viewAxes_strides (slot : Slot) : (viewAxes slot).map (·.2) = slot.viewStrides := by
  rw [viewAxes, ← List.unzip_snd, List.unzip_zip_right (by simp)]

theorem rejectZeroStrideStore_iff {slot : Slot} :
    rejectZeroStrideStore slot = false ↔ ∀ axis ∈ viewAxes slot, 1 < axis.1 → axis.2 ≠ 0 := by
  simp [rejectZeroStrideStore, viewAxes]

section View
variable {i : Nat}

theorem affineAddress_view (view : (h.slot i).kind = .arrayView) (coords : List Int) :
    affineAddress (h.slot i) coords = (h.slot i).viewOffset + dot coords (h.slot i).viewStrides := if_pos view

theorem storesOne_iff (sound : FreeListSound h []) (view : ViewRecord tables h (h.slot i)) (inside : 0 < i ∧ i < h.size) :
    StoresOne tables h i ↔ rejectZeroStrideStore (h.slot i) = true ∨ Apart (viewAxes (h.slot i)) := by
  have address (coords : List Int) := affineAddress_view view.kind coords
  constructor
  · intro one
    rw [or_iff_not_imp_left, Bool.not_eq_true]
    intro passes
    rw [apart_iff (rejectZeroStrideStore_iff.mp passes)]
    simp only [viewAxes_dims, viewAxes_strides]
    intro coords other inRange inRange' same
    by_contra different
    have isValue : ArrayValue tables h (h.slot i) := .view view
    obtain ⟨row, at_row, cells⟩ := isValue.elementCells
    -- one more than what is read at the other coordinates
    have loaded : h.opLoadElementN tables i other = some (h.readPlace (h.elementPlace i row other)) := by
      rw [opLoadElementN, (isValue.places inside inRange' at_row).1, Option.map_some]
    have stored : ∃ h', opStoreElementN tables h i coords [(h.readPlace (h.elementPlace i row other)).headD 0 + 1] = some h' := by
      rw [opStoreElementN, if_neg (by simp [passes]), (isValue.places inside inRange at_row).1]
      exact ⟨_, rfl⟩
    obtain ⟨h', stored⟩ := stored
    obtain ⟨count, isCount, positive, effect⟩ := view.store sound inside inRange stored
    obtain ⟨-, -, -, unchanged⟩ := one coords _ h' inRange stored
    have after := unchanged other inRange' (Ne.symm different)
    rw [effect other inRange', if_pos (by rw [address, address, same]), loaded] at after
    have heads := congrArg (·.headD 0) (Option.some.inj after)
    obtain ⟨k, rfl⟩ := Nat.exists_eq_add_of_lt positive
    simp [List.range_succ_eq_map] at heads
  · intro either coords value h' inRange stored
    have passes : rejectZeroStrideStore (h.slot i) = false := by
      rw [opStoreElementN, Option.ite_none_left_eq_some, Int.toNat_natCast] at stored
      exact Bool.eq_false_iff.mpr fun rejected => stored.1 ⟨view.kind, rejected⟩
    have injective := (apart_iff (rejectZeroStrideStore_iff.mp passes)).mp (either.resolve_left (by simp [passes]))
    simp only [viewAxes_dims, viewAxes_strides] at injective
    obtain ⟨cells, isCells, -, effect⟩ := view.store sound inside inRange stored
    refine ⟨cells, isCells, by rw [effect coords inRange, if_pos rfl], fun other inRange' different => ?_⟩
    rw [effect other inRange', if_neg]
    intro same
    rw [address, address] at same
    exact different (injective other coords inRange' inRange (by omega))

end View

theorem AxesFolded.deltas {parts : List (SliceAxis × Int × Int)} {kept : List (Int × Int)} {offset : Int}
    (folded : AxesFolded parts kept offset) (nonneg : ∀ part ∈ parts, 0 ≤ part.2.1 ∧ part.2.1 < 2 ^ 31) {deltas : List Int}
    (small : List.Forall₂ (fun δ axis => |δ| < axis.1) deltas kept) :
    ∃ base, List.Forall₂ (fun δ axis => |δ| < axis.1) base (parts.map (·.2)) ∧
      dot base ((parts.map (·.2)).map (·.2)) = dot deltas (kept.map (·.2)) ∧
      (List.Forall₂ (fun δ axis => δ = 0 ∨ axis.2 = 0) base (parts.map (·.2)) →
        List.Forall₂ (fun δ axis => δ = 0 ∨ axis.2 = 0) deltas kept) := by
  induction folded generalizing deltas with
  | nil =>
    cases small
    exact ⟨[], .nil, by simp, fun _ => .nil⟩
  | @cons axis dim stride folded parts kept offset here more ih =>
    obtain ⟨start, short⟩ := nonneg _ (.head _)
    have rest := fun part member => nonneg part (.tail _ member)
    cases axis with
    | scalar idx =>
      rw [foldAxis, Option.ite_none_left_eq_some] at here
      obtain ⟨inside, same⟩ := here
      cases same
      obtain ⟨base, below, sum, zeros⟩ := ih rest small
      refine ⟨0 :: base, .cons (by rw [abs_zero]; dsimp only; omega) below, ?_, fun flat => ?_⟩
      · change dot (0 :: base) (stride :: (parts.map (·.2)).map (·.2)) = dot deltas (kept.map (·.2))
        rw [dot_cons, zero_mul, zero_add, sum]
      obtain ⟨-, flat⟩ := List.forall₂_cons.mp flat
      exact zeros flat
    | slice first last by_ =>
      obtain ⟨range, normal, here⟩ := Option.bind_eq_some_iff.mp here
      rw [Option.ite_none_left_eq_some] at here
      obtain ⟨fits, same⟩ := here
      cases same
      obtain ⟨δ, deltas, hδ, tail, rfl⟩ := List.forall₂_cons_right_iff.mp small
      obtain ⟨base, below, sum, zeros⟩ := ih rest tail
      have on := normalSlice_on start normal
      dsimp only at hδ
      have isCount : range.IsCount range.count := by
        refine AxisRange.count_of_fits on.nonzero ?_
        by_contra overflow
        have := AxisRange.count_nonpos (Int.lt_of_le_of_lt on.short short) on.small overflow
        have := abs_nonneg δ
        omega
      have stays : |δ| * |range.step| < dim := by
        have before := (isCount.2 δ.natAbs).mp (by rw [Int.natCast_natAbs]; exact hδ)
        rw [AxisRange.before_iff, Int.natCast_natAbs] at before
        exact Int.lt_of_lt_of_le before on.short
      have product : δ * range.step * stride = δ * sliceAxisStride (stride * range.step) := by
        rw [sliceAxisStride]
        split
        · ring
        · rename_i large
          have few : ¬ 1 < range.count := fun several => fits ⟨several, by simpa using large⟩
          have zero : δ = 0 := abs_eq_zero.mp (by have := abs_nonneg δ; omega)
          rw [zero, zero_mul, zero_mul, zero_mul]
      refine ⟨δ * range.step :: base, .cons (by rw [abs_mul]; exact stays) below, ?_, fun flat => ?_⟩
      · change dot (δ * range.step :: base) (stride :: (parts.map (·.2)).map (·.2)) =
          dot (δ :: deltas) (sliceAxisStride (stride * range.step) :: kept.map (·.2))
        rw [dot_cons, dot_cons, sum, product]
      · obtain ⟨head, flat⟩ := List.forall₂_cons.mp flat
        refine .cons (head.imp (fun zero => (mul_eq_zero.mp zero).resolve_right on.nonzero) fun zero => ?_) (zeros flat)
        dsimp only at zero ⊢
        rw [zero, zero_mul]
        decide

theorem AxesFolded.apart {parts : List (SliceAxis × Int × Int)} {kept : List (Int × Int)} {offset : Int}
    (folded : AxesFolded parts kept offset) (nonneg : ∀ part ∈ parts, 0 ≤ part.2.1 ∧ part.2.1 < 2 ^ 31)
    (apart : Apart (parts.map (·.2))) : Apart kept := by
  intro deltas small sum
  obtain ⟨base, below, same, zeros⟩ := folded.deltas nonneg small
  exact zeros (apart base below (same.trans sum))

theorem ArrayRecord.apart {slot : Slot} (record : ArrayRecord tables slot) : Apart (slot.dims.zip (baseAxes slot).1) := by
  have strides : (baseAxes slot).1 = (rowMajorStrides slot.dims).1 := by rw [baseAxes, record.kind, if_neg (by decide)]
  obtain ⟨isProd, small, dims⟩ := validateArrayDims_eq record.size
  have sameLength : slot.dims.length = (baseAxes slot).1.length := (length_baseAxes slot).symm
  by_cases empty : 0 ∈ slot.dims
  · obtain ⟨k, inside, zero⟩ := List.getElem_of_mem empty
    refine apart_of_empty (List.getElem_mem (l := slot.dims.zip (baseAxes slot).1) (n := k) (by rw [List.length_zip]; omega)) ?_
    rw [List.getElem_zip]
    exact Int.le_of_eq zero
  · have inRange := inRange_zeros (fun dim member => (dims dim member).1) (List.prod_ne_zero empty)
    rw [strides, rowMajorStrides_eq inRange (isProd ▸ small)] at sameLength ⊢
    have positive : ∀ axis ∈ slot.dims.zip (rowStrides slot.dims), 1 < axis.1 → axis.2 ≠ 0 :=
      fun axis member _ => ne_of_gt (rowStrides_pos inRange _ (List.of_mem_zip member).2)
    rw [apart_iff positive]
    simp only [← List.unzip_fst, ← List.unzip_snd, List.unzip_zip sameLength]
    intro c c' first second same
    rw [dot_rowStrides first, dot_rowStrides second] at same
    exact position_injective first second same

theorem ArrayValue.apart {slot : Slot} (value : ArrayValue tables h slot) (views : slot.kind = .arrayView → Apart (viewAxes slot)) :
    Apart (slot.dims.zip (baseAxes slot).1) := by
  cases value with
  | array record => exact record.apart
  | view record =>
    rw [baseAxes, if_pos record.kind]
    exact views record.kind

theorem foldSliceAxes_apart {slot : Slot} {axes : List SliceAxis} {st : SliceFold} (value : ArrayValue tables h slot)
    (views : slot.kind = .arrayView → Apart (viewAxes slot)) (rank : axes.length = slot.rank)
    (folded : foldSliceAxes slot axes = some st) : Apart st.axes.reverse := by
  obtain ⟨kept, offset, folded, same, -⟩ := foldSliceAxes_iff.mp folded
  rw [same, List.reverse_reverse]
  have parts := axisParts_axes rank
  refine folded.apart (fun part member => ?_) (parts ▸ value.apart views)
  have inside := List.mem_map_of_mem (f := (·.2)) member
  rw [parts] at inside
  obtain ⟨-, -, dims⟩ := validateArrayDims_eq value.size
  have cap : kMaxArrayElems = 100000000 := rfl
  have : 0 ≤ part.2.1 ∧ part.2.1 ≤ kMaxArrayElems := dims _ (List.of_mem_zip inside).1
  omega

end Heap

namespace ViewAction
open Heap
variable {tables : TypeTables} {quantum : Nat}

def StoreMeets (tables : TypeTables) (h : Heap) (action : ViewAction) : Prop :=
  Meets tables h action ∧ match action with
    | .nativeView _ _ axes _ => Apart (axes.map fun axis => (axis.1.toInt, axis.2.toInt))
    | _ => True

structure StoresFormed (tables : TypeTables) (h : Heap) : Prop extends ViewsFormed tables h where
  apart : ∀ i < h.size, (h.slot i).kind = .arrayView → Apart (viewAxes (h.slot i))

theorem StoresFormed.grow {h h' : Heap} (formed : StoresFormed tables h) (formed' : ViewsFormed tables h') (keeps : Keeps h h') {i : Nat}
    (only : StructsOnly (fun j => j = i ∨ (j < h.size ∧ (h.slot j).isFree = false)) h')
    (new : (h'.slot i).kind = .arrayView → Apart (viewAxes (h'.slot i))) : StoresFormed tables h' := by
  refine ⟨formed', fun j below isView => ?_⟩
  rcases keeps.known (· = i) only below isView (by decide) (by decide) with rfl | ⟨inside, same⟩
  · exact new isView
  · rw [same] at isView ⊢
    exact formed.apart j inside isView

theorem StoresFormed.allocView {h h' : Heap} {shard arrayTypeIdx i : Nat} {dims strides : List Int} {offset targetIdx : Int}
    (formed : StoresFormed tables h) (formed' : ViewsFormed tables h') (sameLength : strides.length = dims.length)
    (apart : Apart (dims.zip strides))
    (made : allocViewOnHeap tables shard quantum h arrayTypeIdx dims strides offset targetIdx = some (i, h')) :
    StoresFormed tables h' := by
  obtain ⟨target, size, -, keeps, fresh, layout⟩ := allocViewOnHeap_layout formed.sound sameLength made
  obtain ⟨_, -, stored⟩ := Option.bind_eq_some_iff.mp made
  refine formed.grow formed' keeps (i := i) (newRecord_structsOnly (structsOnly_old h) (.inl (.inl rfl)) stored) fun _ => ?_
  rw [viewAxes, layout.dims, layout.strides]
  exact apart

theorem step_storesFormed (h : Heap) (action : ViewAction) (h' : Heap) (formed : StoresFormed tables h)
    (met : StoreMeets tables h action) (taken : step tables quantum h action = some h') : StoresFormed tables h' := by
  have formed' := step_formed h action h' formed.toViewsFormed met.1 taken
  cases action with
  | allocArray shard arrayTypeIdx dims =>
    obtain ⟨⟨i, g⟩, made, rfl⟩ := Option.map_eq_some_iff.mp taken
    rw [opAllocArrayN, Option.ite_none_left_eq_some] at made
    obtain ⟨rank, made⟩ := made
    obtain ⟨keeps, -, record, -⟩ := allocArrayOnHeap_record formed.sound (by rw [List.length_map]; omega) made
    refine formed.grow formed' keeps (i := i) (allocArrayOnHeap_structsOnly (structsOnly_old h) (.inl rfl) made) fun isView => ?_
    rw [record.kind] at isView
    cases isView
  | makeView shard arrayTypeIdx arrHandle axes =>
    obtain ⟨⟨i, g⟩, made, rfl⟩ := Option.map_eq_some_iff.mp taken
    rw [opMakeArrayView, Option.ite_none_left_eq_some] at made
    obtain ⟨checked, made⟩ := made
    simp only [not_or, Bool.not_eq_false, not_not] at checked
    obtain ⟨-, -, ranged, isValue, rank⟩ := checked
    obtain ⟨st, folded, made⟩ := Option.bind_eq_some_iff.mp made
    rw [Heap.inRange, decide_eq_true_eq] at ranged
    have value : ArrayValue tables h (h.slot arrHandle.toNat) := by
      rw [isArrayValue, decide_eq_true_eq] at isValue
      rcases isValue with isArray | isView
      · exact .array (formed.arrays _ ranged.2 isArray)
      · exact .view (formed.views _ ranged.2 isView).toViewRecord
    have apart := foldSliceAxes_apart value (formed.apart _ ranged.2) (by rw [Slot.rank, rank, Int.toNat_natCast]) folded
    refine formed.allocView formed' (by simp) ?_ made
    rw [← List.unzip_fst, ← List.unzip_snd, List.zip_unzip]
    exact apart
  | nativeView shard targetHandle axes offset =>
    obtain ⟨⟨i, g⟩, made, rfl⟩ := Option.map_eq_some_iff.mp taken
    rw [nativeNewArrayView, Option.ite_none_left_eq_some] at made
    obtain ⟨typeIdx, -, made⟩ := Option.bind_eq_some_iff.mp made.2
    refine formed.allocView formed' (by simp) ?_ made
    rw [List.zip_map']
    exact met.2
  | record shard slot =>
    simp only [step, Option.ite_none_right_eq_some] at taken
    obtain ⟨plain, taken⟩ := taken
    obtain ⟨⟨i, g⟩, made, rfl⟩ := Option.map_eq_some_iff.mp taken
    obtain ⟨keeps, -, stored⟩ := newRecord_keeps formed.sound plain.1 made
    refine formed.grow formed' keeps (i := i) (newRecord_structsOnly (structsOnly_old h) (.inl (.inl rfl)) made) fun isView => ?_
    rw [stored] at isView
    exact absurd isView plain.2.2
  | store i k value =>
    simp only [step, Option.ite_none_right_eq_some] at taken
    obtain ⟨allowed, same⟩ := taken
    cases same
    refine ⟨formed', fun j below isView => ?_⟩
    have apart : j ≠ i := by
      rintro rfl
      rw [storeCell, setSlot_slot_self] at isView
      change (h.slot j).kind = .arrayView at isView
      rw [storable, isView] at allowed
      cases allowed
    rw [storeCell, setSlot_slot_of_ne _ _ _ _ apart] at isView ⊢
    exact formed.apart j below isView
  | collect strings roots =>
    obtain ⟨s, marked, run⟩ := Option.bind_eq_some_iff.mp taken
    have shrinks := (swept_sweepPhase tables formed.sound.configured formed.sound.sentinel run).shrinks
    refine ⟨formed', fun j below isView => ?_⟩
    have live : (h'.slot j).isFree = false := by rw [Slot.isFree, isView]; decide
    rw [shrinks.slot_of_live live] at isView ⊢
    exact formed.apart j (shrinks.size ▸ below) isView

end ViewAction

/-- In every run whose native views keep their tuples apart (and whose collections find the dead owners above what they
contain), a store through any view changes one element. -/
theorem views_storeOne {tables : TypeTables} {carriers quantum : Nat} {table : SideKind → SideTable} {h : Heap}
    (run : Run (ViewAction.step tables quantum) (ViewAction.StoreMeets tables) (Heap.init carriers table) h) {i : Nat}
    (below : i < h.size) (view : (h.slot i).kind = .arrayView) : Heap.StoresOne tables h i := by
  have formed := run.invariant (ViewAction.StoresFormed tables)
    ⟨ViewAction.init_formed carriers table, fun i _ kind => by cases kind⟩ ViewAction.step_storesFormed
  have positive : 0 < i := by
    refine Nat.pos_of_ne_zero ?_
    rintro rfl
    exact formed.sentinel view
  exact (Heap.storesOne_iff formed.sound (formed.views i below view).toViewRecord ⟨positive, below⟩).mpr (.inr (formed.apart i below view))

def gridArrays : TypeTables where
  structs := []
  classes := []
  arrayTypes := [{ elemKind := .int32 }, { elemKind := .int32, rank := 2 }]
  depth := fun _ => 0
  depth_lt := TypeTables.depth_lt_nil

def gridActions (rowStride : Int32) : List ViewAction := [.allocArray 0 0 [4], .nativeView 0 1 [(2, rowStride), (2, 1)] 0]

theorem grid_apart : Apart [(2, 2), (2, 1)] := by
  intro deltas small sum
  obtain ⟨a, _, ha, tail, rfl⟩ := List.forall₂_cons_right_iff.mp small
  obtain ⟨b, _, hb, rest, rfl⟩ := List.forall₂_cons_right_iff.mp tail
  cases rest
  rw [abs_lt] at ha hb
  simp only [List.map_cons, List.map_nil, dot_cons, dot_nil] at sum
  dsimp only at ha hb
  exact .cons (.inl (by omega)) (.cons (.inl (by omega)) .nil)

theorem views_storeOne_grid :
    ∃ h, (gridActions 2).foldlM (ViewAction.step gridArrays 4) (Heap.init 0 fun _ => {}) = some h ∧
      (h.slot 2).kind = .arrayView ∧ Heap.StoresOne gridArrays h 2 := by
  refine ⟨_, rfl, rfl, ?_⟩
  have met : ∀ action ∈ gridActions 2, ∀ h, ViewAction.StoreMeets gridArrays h action := by
    intro action member h
    rcases List.mem_cons.mp member with rfl | member
    · exact ⟨trivial, trivial⟩
    · rw [List.mem_singleton.mp member]
      exact ⟨trivial, grid_apart⟩
  have run := Run.refl.actions met
    (show (gridActions 2).foldlM (ViewAction.step gridArrays 4) (Heap.init 0 fun _ => {}) = some _ from rfl)
  exact views_storeOne run (by decide) rfl

theorem joint_strides_alias :
    ¬ ∀ (tables : TypeTables) (carriers quantum : Nat) (table : SideKind → SideTable) (h : Heap),
      Run (ViewAction.step tables quantum) (ViewAction.Meets tables) (Heap.init carriers table) h →
      ∀ i < h.size, (h.slot i).kind = .arrayView → Heap.StoresOne tables h i := by
  intro claim
  have met : ∀ action ∈ gridActions 1, ∀ h, ViewAction.Meets gridArrays h action := by simp [gridActions, ViewAction.Meets]
  have run := Run.refl.actions met
    (show (gridActions 1).foldlM (ViewAction.step gridArrays 4) (Heap.init 0 fun _ => {}) = some _ from rfl)
  have one := claim _ _ _ _ _ run 2 (by decide) rfl
  obtain ⟨cells, -, -, unchanged⟩ := one [0, 1] [7] _ (.cons ⟨by decide, by decide⟩ (.cons ⟨by decide, by decide⟩ .nil)) rfl
  have other := unchanged [1, 0] (.cons ⟨by decide, by decide⟩ (.cons ⟨by decide, by decide⟩ .nil)) (by decide)
  exact absurd other (by decide)

end NLang.Vm
