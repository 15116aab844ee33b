import NLang.Library.RowMajor
import NLang.Vm.Alloc

/-!
# Element access

The routes to an element of an array record or of a view that address it in place: by coordinates and by flat index
(`VmExecutorOpsArrayN.cpp`), and through the `NativeArrayView` that a native callee gets
(`VmExecutorNativeCallbacks.cpp`). A frame slot holds one `int32_t` coordinate.
-/

namespace NLang.Vm
open NLang.Library NLang.Library.RowMajor

def int32Cast (value : Int) : Int := value.bmod (2 ^ 32)

namespace Slot
variable (slot : Slot)

def word (k : Nat) : Int := slot.cells.getD k 0
def rank : Nat := (slot.word 2).toNat
def dims : List Int := (List.range slot.rank).map fun d => slot.word (4 + d)
def viewStrides : List Int := (List.range slot.rank).map fun d => slot.word (Heap.arrayViewStridesBase slot.rank + d)
def viewOffset : Int := slot.word (Heap.arrayViewOffsetCell slot.rank)
def viewTarget : Int := slot.word (Heap.arrayViewTargetCell slot.rank)

@[simp] theorem length_dims : slot.dims.length = slot.rank := by simp [dims]
@[simp] theorem length_viewStrides : slot.viewStrides.length = slot.rank := by simp [viewStrides]

end Slot

def rowMajorStrides (dims : List Int) : List Int × Int :=
  dims.foldr (fun dim (strides, stride) => (stride :: strides, int32Cast (stride * dim))) ([], 1)

structure Place where
  record : Nat
  cell : Nat
  cells : Nat
  deriving DecidableEq

namespace Heap
variable (tables : TypeTables) (h : Heap)

def readPlace (place : Place) : List Int := (List.range place.cells).map fun c => h.cell place.record (place.cell + c)

def elementFlatAddress (slot : Slot) (coords : List Int) : Option Int :=
  let (strides, start) :=
    if slot.kind = .arrayView then (slot.viewStrides, slot.viewOffset) else ((rowMajorStrides slot.dims).1, 0)
  (coords.zip (slot.dims.zip strides)).foldlM (fun flat (idx, dim, stride) =>
    if idx < 0 ∨ dim ≤ idx then none else some (flat + idx * stride)) start

def elementPayloadRecord (i : Nat) : Option (Nat × Nat) :=
  let slot := h.slot i
  if slot.kind ≠ .arrayView then slot.arrayPayloadBase.map (i, ·)
  else
    let target := slot.viewTarget
    if target ≤ 0 ∨ h.size ≤ target.toNat ∨ h.refKind target ≠ .array then none
    else (h.slot target.toNat).arrayPayloadBase.map (target.toNat, ·)

def elementCells (slot : Slot) : Option Nat :=
  tables.arrayTypes[(slot.word 1).toNat]?.map fun row => arrayElemCells row.elemKind

def isArrayValue (slot : Slot) : Bool := slot.kind = .array ∨ slot.kind = .arrayView

def coordinatePlace (heapIdx : Int) (coords : List Int) : Option Place :=
  let slot := h.slot heapIdx.toNat
  if h.inRange heapIdx = false ∨ isArrayValue slot = false ∨ slot.rank ≠ coords.length then none
  else do
    let flat ← elementFlatAddress slot coords
    let (record, base) ← h.elementPayloadRecord heapIdx.toNat
    let cells ← elementCells tables slot
    return { record, cell := base + flat.toNat * cells, cells }

def opLoadElementN (heapIdx : Int) (coords : List Int) : Option (List Int) :=
  (h.coordinatePlace tables heapIdx coords).map h.readPlace

def flatPlace (heapIdx flat : Int) : Option Place :=
  let slot := h.slot heapIdx.toNat
  if h.inRange heapIdx = false ∨ isArrayValue slot = false ∨ flat < 0 ∨ slot.word 3 ≤ flat then none
  else do
    let cells ← elementCells tables slot
    let addr := if slot.kind = .arrayView then viewFlatElementAddress slot flat.toNat else flat
    let (record, base) ← h.elementPayloadRecord heapIdx.toNat
    return { record, cell := base + addr.toNat * cells, cells }

def opLoadElementFlat (heapIdx flat : Int) : Option (List Int) := (h.flatPlace tables heapIdx flat).map h.readPlace

end Heap

def kHeapCellBytes : Nat := 4

structure NativeArrayView where
  rank : Nat
  dims : List Int
  strides : List Int
  elemCount : Int
  elemKind : Rtk
  elemCellBytes : Nat
  offset : Int
  dataRecord : Nat
  dataCell : Nat

def NativeArrayView.elementByte (view : NativeArrayView) (coords : List Int) : Int :=
  view.dataCell * kHeapCellBytes + (view.offset + dot coords view.strides) * view.elemCellBytes

namespace Heap
variable (tables : TypeTables) (h : Heap)

def fillArrayView (slot : Slot) (row : CompiledArrayType) (record payloadBase : Nat) : NativeArrayView where
  rank := slot.rank
  dims := slot.dims
  strides := (rowMajorStrides slot.dims).1
  elemCount := slot.word 3
  elemKind := row.elemKind
  elemCellBytes := arrayElemCells row.elemKind * kHeapCellBytes
  offset := 0
  dataRecord := record
  dataCell := payloadBase

def fillViewArrayView (view : Slot) (row : CompiledArrayType) (owner ownerPayloadBase : Nat) : NativeArrayView where
  rank := view.rank
  dims := view.dims
  strides := view.viewStrides
  elemCount := view.word 3
  elemKind := row.elemKind
  elemCellBytes := arrayElemCells row.elemKind * kHeapCellBytes
  offset := view.viewOffset
  dataRecord := owner
  dataCell := ownerPayloadBase

def nativeGetArrayView (handle : Int) : Option NativeArrayView :=
  let slot := h.slot handle.toNat
  if h.inRange handle = false ∨ isArrayValue slot = false then none
  else if slot.kind = .arrayView then
    if slot.word 2 < 1 ∨ kMaxArrayRank < slot.word 2 then none
    else do
      let (owner, base) ← h.elementPayloadRecord handle.toNat
      let row ← tables.arrayTypes[(slot.word 1).toNat]?
      return fillViewArrayView slot row owner base
  else do
    let base ← slot.arrayPayloadBase
    let row ← tables.arrayTypes[(slot.word 1).toNat]?
    return fillArrayView slot row handle.toNat base

end Heap

theorem validateArrayDims_eq {dims : List Int} {size : Int} (valid : validateArrayDims dims = some size) :
    size = dims.prod ∧ size ≤ kMaxArrayElems ∧ ∀ dim ∈ dims, 0 ≤ dim ∧ dim ≤ kMaxArrayElems := by
  have general : ∀ start, start ≤ kMaxArrayElems → dims.foldlM (fun elemCount dim =>
      if dim < 0 ∨ kMaxArrayElems < dim ∨ kMaxArrayElems < elemCount * dim then none else some (elemCount * dim)) start = some size →
      size = start * dims.prod ∧ size ≤ kMaxArrayElems ∧ ∀ dim ∈ dims, 0 ≤ dim ∧ dim ≤ kMaxArrayElems := by
    clear valid
    induction dims with
    | nil =>
      intro start small valid
      cases valid
      exact ⟨by simp, small, fun _ member => nomatch member⟩
    | cons dim dims ih =>
      intro start small valid
      rw [List.foldlM_cons] at valid
      split at valid
      · cases valid
      · rename_i fits
        obtain ⟨same, bound, rest⟩ := ih (start * dim) (by omega) valid
        refine ⟨by rw [same, List.prod_cons, mul_assoc], bound, fun other member => ?_⟩
        rcases List.mem_cons.mp member with rfl | member
        · exact ⟨by omega, by omega⟩
        · exact rest other member
  have := general 1 (by decide) valid
  rwa [one_mul] at this

theorem int32Cast_eq {value : Int} (nonneg : 0 ≤ value) (small : value ≤ kMaxArrayElems) : int32Cast value = value := by
  have : kMaxArrayElems = 100000000 := rfl
  rw [int32Cast]
  exact Int.bmod_eq_of_le (by omega) (by omega)

theorem rowMajorStrides_eq {coords dims : List Int} (inRange : InRange coords dims) (small : dims.prod ≤ kMaxArrayElems) :
    rowMajorStrides dims = (rowStrides dims, dims.prod) := by
  induction inRange with
  | nil => rfl
  | @cons c d coords dims axis tail ih =>
    have positive := prod_pos tail
    rw [List.prod_cons] at small
    have shrinks : dims.prod ≤ d * dims.prod := le_mul_of_one_le_left (by omega) (by omega)
    have rest := ih (by omega)
    rw [rowMajorStrides] at rest ⊢
    rw [List.foldr_cons, rest, rowStrides, List.prod_cons]
    dsimp only
    rw [mul_comm dims.prod, int32Cast_eq (by omega) small]

namespace Heap

theorem foldlM_coords {coords dims strides : List Int} (inRange : InRange coords dims) (sameLength : strides.length = dims.length)
    (start : Int) : (coords.zip (dims.zip strides)).foldlM (fun flat (idx, dim, stride) =>
      if idx < 0 ∨ dim ≤ idx then none else some (flat + idx * stride)) start = some (start + dot coords strides) := by
  induction inRange generalizing strides start with
  | nil => simp
  | @cons c d coords dims axis tail ih =>
    cases strides with
    | nil => cases sameLength
    | cons s strides =>
      rw [List.zip_cons_cons, List.zip_cons_cons, List.foldlM_cons, dot_cons]
      dsimp only
      rw [if_neg (by omega)]
      refine (ih (Nat.succ.inj sameLength) _).trans ?_
      rw [Int.add_assoc]

theorem viewFlatElementAddress_eq (view : Slot) (flat : Nat) :
    viewFlatElementAddress view flat = ((view.dims.zip view.viewStrides).foldr decodeAxis (view.viewOffset, (flat : Int))).1 := by
  rw [viewFlatElementAddress, List.foldl_reverse, Slot.dims, Slot.viewStrides, List.zip_map', List.foldr_map]
  rfl

structure ArrayRecord (tables : TypeTables) (slot : Slot) : Prop where
  kind : slot.kind = .array
  rank : 1 ≤ slot.word 2 ∧ slot.word 2 ≤ kMaxArrayRank
  size : validateArrayDims slot.dims = some (slot.word 3)
  typeIdx : slot.structIdx = (slot.word 1).toNat
  row : ∃ row, tables.arrayTypes[(slot.word 1).toNat]? = some row ∧
    slot.cells.length = arrayHeaderCells slot.rank + (slot.word 3).toNat * arrayElemCells row.elemKind

structure ViewRecord (tables : TypeTables) (h : Heap) (slot : Slot) : Prop where
  kind : slot.kind = .arrayView
  rank : 1 ≤ slot.word 2 ∧ slot.word 2 ≤ kMaxArrayRank
  size : validateArrayDims slot.dims = some (slot.word 3)
  target : 0 < slot.viewTarget ∧ slot.viewTarget.toNat < h.size
  owner : ArrayRecord tables (h.slot slot.viewTarget.toNat)
  row : ∃ row ownerRow, tables.arrayTypes[(slot.word 1).toNat]? = some row ∧
    tables.arrayTypes[((h.slot slot.viewTarget.toNat).word 1).toNat]? = some ownerRow ∧ row.elemKind = ownerRow.elemKind
  covered : 0 < slot.word 3 → 0 ≤ (viewCoverage slot.dims slot.viewStrides slot.viewOffset).1 ∧
    (viewCoverage slot.dims slot.viewStrides slot.viewOffset).2 < (h.slot slot.viewTarget.toNat).word 3

inductive ArrayValue (tables : TypeTables) (h : Heap) (slot : Slot) : Prop where
  | array (record : ArrayRecord tables slot)
  | view (record : ViewRecord tables h slot)

variable {tables : TypeTables} {h : Heap} {slot : Slot}

theorem ArrayRecord.payloadBase (record : ArrayRecord tables slot) : slot.arrayPayloadBase = some (arrayHeaderCells slot.rank) := by
  obtain ⟨row, -, length⟩ := record.row
  obtain ⟨least, most⟩ := record.rank
  have header : 4 ≤ arrayHeaderCells slot.rank := by
    rw [arrayHeaderCells]
    omega
  have isRank : slot.cells.getD 2 0 = slot.word 2 := rfl
  rw [Slot.arrayPayloadBase, isRank, if_neg (by omega), if_neg (by omega)]
  change (if slot.cells.length < arrayHeaderCells slot.rank then none else some (arrayHeaderCells slot.rank)) = _
  rw [if_neg (by omega)]

theorem ArrayValue.size (value : ArrayValue tables h slot) : validateArrayDims slot.dims = some (slot.word 3) := by
  cases value with
  | array record => exact record.size
  | view record => exact record.size

theorem ArrayValue.isArrayValue (value : ArrayValue tables h slot) : isArrayValue slot = true := by
  cases value with
  | array record => simp [Heap.isArrayValue, record.kind]
  | view record => simp [Heap.isArrayValue, record.kind]

def affineAddress (slot : Slot) (coords : List Int) : Int :=
  if slot.kind = .arrayView then slot.viewOffset + dot coords slot.viewStrides else position slot.dims coords

theorem ArrayValue.elementFlatAddress (value : ArrayValue tables h slot) {coords : List Int} (inRange : InRange coords slot.dims) :
    elementFlatAddress slot coords = some (affineAddress slot coords) := by
  rw [Heap.elementFlatAddress, affineAddress]
  by_cases kind : slot.kind = .arrayView
  · rw [if_pos kind, if_pos kind]
    exact foldlM_coords inRange (by simp) _
  · rw [if_neg kind, if_neg kind]
    obtain ⟨isProd, small, -⟩ := validateArrayDims_eq value.size
    have strides := rowMajorStrides_eq inRange (isProd ▸ small)
    refine (foldlM_coords inRange ?_ 0).trans ?_
    · rw [strides, length_rowStrides]
    · rw [strides, Int.zero_add, dot_rowStrides inRange]

theorem ArrayValue.flatAddress (_ : ArrayValue tables h slot) {coords : List Int} (inRange : InRange coords slot.dims) :
    (if slot.kind = .arrayView then viewFlatElementAddress slot (position slot.dims coords).toNat else position slot.dims coords) =
      affineAddress slot coords := by
  rw [affineAddress]
  split
  · have decoded := foldr_decodeAxis inRange slot.viewStrides (by simp) slot.viewOffset 0
    rw [Int.zero_mul, Int.zero_add] at decoded
    rw [viewFlatElementAddress_eq, Int.toNat_of_nonneg (position_range inRange).1, decoded]
  · rfl

theorem viewCoverage_eq (dims strides : List Int) (offset : Int) :
    viewCoverage dims strides offset = (dims.zip strides).foldl spanAxis (offset, offset) := rfl

def ownerOf (h : Heap) (i : Nat) : Nat := if (h.slot i).kind = .arrayView then (h.slot i).viewTarget.toNat else i

theorem ViewRecord.address_range (record : ViewRecord tables h slot) {coords : List Int} (inRange : InRange coords slot.dims) :
    0 ≤ slot.viewOffset + dot coords slot.viewStrides ∧
      slot.viewOffset + dot coords slot.viewStrides < (h.slot slot.viewTarget.toNat).word 3 := by
  have isProd := (validateArrayDims_eq record.size).1
  have positive := prod_pos inRange
  obtain ⟨least, most⟩ := record.covered (by omega)
  have bounds := foldl_spanAxis inRange slot.viewStrides (by simp) slot.viewOffset slot.viewOffset
  rw [← viewCoverage_eq] at bounds
  omega

theorem ArrayValue.address_range {i : Nat} (value : ArrayValue tables h (h.slot i)) {coords : List Int}
    (inRange : InRange coords (h.slot i).dims) :
    0 ≤ affineAddress (h.slot i) coords ∧ affineAddress (h.slot i) coords < (h.slot (h.ownerOf i)).word 3 := by
  cases value with
  | array record =>
    rw [affineAddress, ownerOf, record.kind, if_neg (by decide), if_neg (by decide), (validateArrayDims_eq record.size).1]
    exact position_range inRange
  | view record =>
    rw [affineAddress, ownerOf, if_pos record.kind, if_pos record.kind]
    exact record.address_range inRange

theorem ArrayValue.elementPayloadRecord {i : Nat} (value : ArrayValue tables h (h.slot i)) :
    h.elementPayloadRecord i = some (h.ownerOf i, arrayHeaderCells (h.slot (h.ownerOf i)).rank) := by
  cases value with
  | array record =>
    rw [Heap.elementPayloadRecord, ownerOf, record.kind]
    dsimp only
    rw [if_pos (by decide), if_neg (by decide), record.payloadBase, Option.map_some]
  | view record =>
    obtain ⟨positive, inside⟩ := record.target
    have isArray : h.refKind (h.slot i).viewTarget = .array := record.owner.kind
    rw [Heap.elementPayloadRecord, ownerOf, if_pos record.kind]
    dsimp only
    rw [if_neg (by rw [record.kind]; decide), if_neg, record.owner.payloadBase, Option.map_some]
    exact not_or.mpr ⟨by omega, not_or.mpr ⟨by omega, fun other => other isArray⟩⟩

theorem ArrayValue.elementCells {i : Nat} (value : ArrayValue tables h (h.slot i)) :
    ∃ row, tables.arrayTypes[((h.slot i).word 1).toNat]? = some row ∧
      elementCells tables (h.slot i) = some (arrayElemCells row.elemKind) := by
  have known : ∃ row, tables.arrayTypes[((h.slot i).word 1).toNat]? = some row := by
    cases value with
    | array record => exact ⟨_, record.row.choose_spec.1⟩
    | view record =>
      obtain ⟨row, ownerRow, at_row, -⟩ := record.row
      exact ⟨row, at_row⟩
  obtain ⟨row, at_row⟩ := known
  exact ⟨row, at_row, by rw [Heap.elementCells, at_row, Option.map_some]⟩

def elementPlace (h : Heap) (i : Nat) (row : CompiledArrayType) (coords : List Int) : Place where
  record := h.ownerOf i
  cell := arrayHeaderCells (h.slot (h.ownerOf i)).rank + (affineAddress (h.slot i) coords).toNat * arrayElemCells row.elemKind
  cells := arrayElemCells row.elemKind

theorem ArrayValue.places {i : Nat} (value : ArrayValue tables h (h.slot i)) (inside : 0 < i ∧ i < h.size) {coords : List Int}
    (inRange : InRange coords (h.slot i).dims) {row : CompiledArrayType}
    (at_row : tables.arrayTypes[((h.slot i).word 1).toNat]? = some row) :
    h.coordinatePlace tables i coords = some (h.elementPlace i row coords) ∧
      h.flatPlace tables i (position (h.slot i).dims coords) = some (h.elementPlace i row coords) ∧
      ∃ view, h.nativeGetArrayView tables i = some view ∧ view.dataRecord = h.ownerOf i ∧
        view.elementByte coords = ((h.elementPlace i row coords).cell * kHeapCellBytes : Nat) ∧
        view.elemCellBytes = (h.elementPlace i row coords).cells * kHeapCellBytes := by
  have ranged : h.inRange (i : Int) = true := by
    rw [Heap.inRange, Int.toNat_natCast]
    exact decide_eq_true ⟨by omega, inside.2⟩
  obtain ⟨isProd, -, -⟩ := validateArrayDims_eq value.size
  obtain ⟨start, ends⟩ := position_range inRange
  obtain ⟨nonneg, -⟩ := value.address_range inRange
  have isValue := value.isArrayValue
  have rank : (h.slot i).rank = coords.length := by rw [inRange.length_eq, Slot.length_dims]
  have cells : Heap.elementCells tables (h.slot i) = some (arrayElemCells row.elemKind) := by
    rw [Heap.elementCells, at_row, Option.map_some]
  refine ⟨?_, ?_, ?_⟩
  · rw [coordinatePlace, Int.toNat_natCast]
    dsimp only
    rw [if_neg (by rw [ranged, isValue]; simp [rank]), value.elementFlatAddress inRange, value.elementPayloadRecord, cells]
    rfl
  · rw [flatPlace, Int.toNat_natCast]
    dsimp only
    rw [if_neg (by rw [ranged, isValue]; simp; omega), value.elementPayloadRecord, cells, value.flatAddress inRange]
    rfl
  · have payload := value.elementPayloadRecord
    have byte (cells base : Nat) : (base : Int) * kHeapCellBytes + affineAddress (h.slot i) coords * (cells * kHeapCellBytes : Nat) =
        ((base + (affineAddress (h.slot i) coords).toNat * cells) * kHeapCellBytes : Nat) := by
      conv_lhs => rw [← Int.toNat_of_nonneg nonneg]
      push_cast
      ring
    cases value with
    | array record =>
      have own : h.ownerOf i = i := by rw [ownerOf, record.kind, if_neg (by decide)]
      have strides := rowMajorStrides_eq inRange (isProd ▸ (validateArrayDims_eq record.size).2.1)
      refine ⟨fillArrayView (h.slot i) row i (arrayHeaderCells (h.slot i).rank), ?_, own.symm, ?_, rfl⟩
      · rw [nativeGetArrayView, Int.toNat_natCast]
        dsimp only
        rw [if_neg (by rw [ranged, isValue]; decide), if_neg (by rw [record.kind]; decide), record.payloadBase, at_row]
        rfl
      · have address : affineAddress (h.slot i) coords = 0 + dot coords (rowMajorStrides (h.slot i).dims).1 := by
          rw [affineAddress, record.kind, if_neg (by decide), strides, dot_rowStrides inRange, Int.zero_add]
        rw [elementPlace, own, ← byte, address]
        rfl
    | view record =>
      refine ⟨fillViewArrayView (h.slot i) row (h.ownerOf i) (arrayHeaderCells (h.slot (h.ownerOf i)).rank), ?_, rfl, ?_, rfl⟩
      · obtain ⟨least, most⟩ := record.rank
        rw [nativeGetArrayView, Int.toNat_natCast]
        dsimp only
        rw [if_neg (by rw [ranged, isValue]; decide), if_pos record.kind, if_neg (by omega), payload, at_row]
        rfl
      · have address : affineAddress (h.slot i) coords = (h.slot i).viewOffset + dot coords (h.slot i).viewStrides := by
          rw [affineAddress, if_pos record.kind]
        rw [elementPlace, ← byte, address]
        rfl

end Heap

end NLang.Vm
