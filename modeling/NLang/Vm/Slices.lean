import NLang.Vm.ArrayRecords

/-!
# Views that are made

`OP_MakeArrayView` (`VmExecutorOpsSlice.cpp`) and `newArrayView` of the native interface. A staged axis of a subscript
is an index, or the parts of a slice that are written; overflow of `int32_t` wraps.
-/

namespace NLang.Vm.Heap
open NLang.Library.RowMajor

inductive SliceAxis where
  | scalar (idx : Int32)
  | slice (start stop step : Option Int32)

def sliceSentinel : Int := -2 ^ 31

def writtenPart (value : Int32) : Option Int := if value.toInt = sliceSentinel then none else some value.toInt

def sliceStep : Option Int32 → Option Int
  | none => some 1
  | some value => writtenPart value

def clipSliceEndpoint (value len : Int) (positiveStep : Bool) : Int :=
  let value := if value < 0 then value + len else value
  if positiveStep then min (max value 0) len else min (max value (-1)) (len - 1)

def sliceEndpoint (default len : Int) (positiveStep : Bool) : Option Int32 → Option Int
  | none => some default
  | some value => (writtenPart value).map (clipSliceEndpoint · len positiveStep)

def fitsInt32 (value : Int) : Bool := -2 ^ 31 ≤ value ∧ value < 2 ^ 31

def sliceAxisStride (axisStride : Int) : Int := if fitsInt32 axisStride then axisStride else 1

structure SliceFold where
  axes : List (Int × Int) := []
  offset : Int

def foldOneSliceAxis (len stride : Int) (start stop step : Option Int32) (st : SliceFold) : Option SliceFold := do
  let step ← sliceStep step
  if step = 0 then none
  else
    let positiveStep : Bool := 0 < step
    let start ← sliceEndpoint (if positiveStep then 0 else len - 1) len positiveStep start
    let stop ← sliceEndpoint (if positiveStep then len else -1) len positiveStep stop
    let count :=
      if positiveStep ∧ start < stop then (int32Cast (stop - start + step - 1)).tdiv step
      else if ¬ positiveStep ∧ stop < start then (int32Cast (start - stop - step - 1)).tdiv (-step)
      else 0
    let axisStride := stride * step
    if 1 < count ∧ fitsInt32 axisStride = false then none
    else some { axes := (count, sliceAxisStride axisStride) :: st.axes, offset := st.offset + start * stride }

def foldSliceAxes (slot : Slot) (axes : List SliceAxis) : Option SliceFold :=
  let (strides, offset) :=
    if slot.kind = .arrayView then (slot.viewStrides, slot.viewOffset) else ((rowMajorStrides slot.dims).1, 0)
  (axes.zip (slot.dims.zip strides)).foldlM (fun st (axis, dim, stride) =>
    match axis with
    | .scalar idx =>
      if idx.toInt < 0 ∨ dim ≤ idx.toInt then none else some { st with offset := st.offset + idx.toInt * stride }
    | .slice start stop step => foldOneSliceAxis dim stride start stop step st) { offset }

section Ops
variable (tables : TypeTables) (shard quantum : Nat) (h : Heap)

def opAllocArrayN (arrayTypeIdx : Nat) (dims : List Int32) : Option (Nat × Heap) :=
  if dims.length < 1 ∨ kMaxArrayRank < dims.length then none
  else allocArrayOnHeap tables shard quantum h arrayTypeIdx (dims.map (·.toInt))

def opMakeArrayView (arrHandle : Int) (arrayTypeIdx : Nat) (axes : List SliceAxis) : Option (Nat × Heap) :=
  let slot := h.slot arrHandle.toNat
  if axes.length < 1 ∨ kMaxArrayRank < axes.length ∨ h.inRange arrHandle = false ∨ isArrayValue slot = false ∨
      slot.word 2 ≠ axes.length then none
  else do
    let st ← foldSliceAxes slot axes
    allocViewOnHeap tables shard quantum h arrayTypeIdx (st.axes.reverse.map (·.1)) (st.axes.reverse.map (·.2))
      (int32Cast st.offset) arrHandle

def findScalarArrayTypeIdx (elemRtk : Rtk) (rank : Nat) : Option Nat :=
  tables.arrayTypes.findIdx? fun row => row.elemKind = elemRtk ∧ row.elemTypeIdx = none ∧ row.rank = rank

def resolveViewOwnerType (targetHandle : Int) (rank : Nat) : Option Nat :=
  let ownerIdx :=
    if h.refKind targetHandle = .arrayView then
      h.cell targetHandle.toNat (arrayViewTargetCell (h.cell targetHandle.toNat 2).toNat)
    else targetHandle
  if h.inRange ownerIdx = false ∨ h.refKind ownerIdx ≠ .array ∨ h.cell ownerIdx.toNat 1 < 0 then none
  else do
    let row ← tables.arrayTypes[(h.cell ownerIdx.toNat 1).toNat]?
    if row.elemKind = .int32 ∨ row.elemKind = .long ∨ row.elemKind = .float ∨ row.elemKind = .double then
      findScalarArrayTypeIdx tables row.elemKind rank
    else none

def nativeNewArrayView (targetHandle : Int) (axes : List (Int32 × Int32)) (offset : Int64) : Option (Nat × Heap) :=
  if axes.length < 1 ∨ kMaxArrayRank < axes.length ∨ fitsInt32 offset.toInt = false ∨ h.inRange targetHandle = false then none
  else do
    let arrayTypeIdx ← resolveViewOwnerType tables h targetHandle axes.length
    allocViewOnHeap tables shard quantum h arrayTypeIdx (axes.map (·.1.toInt)) (axes.map (·.2.toInt)) offset.toInt targetHandle

end Ops

end NLang.Vm.Heap
