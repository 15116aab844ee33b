import NLang.Vm.Mark

/-!
# Building records

`VmExecutorAlloc.cpp` on the carrier that owns `shard`: an owner takes its slot before the structs it
contains. `none` is an exception, or a struct row outside the module. Field defaults (scalars and strings)
are not modelled.
-/

namespace NLang.Vm

def kMaxArrayElems : Int := 100 * 1000 * 1000

def validateArrayDims (dims : List Int) : Option Int :=
  dims.foldlM (fun elemCount dim =>
    if dim < 0 ∨ kMaxArrayElems < dim ∨ kMaxArrayElems < elemCount * dim then none
    else some (elemCount * dim)) 1

namespace Heap
variable (tables : TypeTables) (shard quantum : Nat)

def newRecord (h : Heap) (slot : Slot) : Option (Nat × Heap) :=
  (h.takeHeapSlot shard quantum).map fun (i, h) => (i, h.setSlot i slot)

def fillCells (make : Heap → Nat × Nat → Option (Nat × Heap)) (i : Nat) (h : Heap)
    (cells : List (Nat × Nat)) : Option Heap :=
  cells.foldlM (fun h cell => (make h cell).map fun (inner, h) => h.storeCell i cell.1 inner) h

def allocStructWithin : Nat → Heap → Nat → Option (Nat × Heap)
  | 0, _, _ => none
  | bound+1, h, structIdx =>
    match tables.structs[structIdx]? with
    | none => none
    | some row => do
        let (i, h) ← newRecord shard quantum h
          { kind := .struct, structIdx, cells := List.replicate (2 * row.fields.length) 0 }
        let h ← fillCells (fun h cell => allocStructWithin bound h cell.2) i h
          (tables.nestedCells structIdx)
        return (i, h)

def allocStructOnHeap (h : Heap) (structIdx : Nat) : Option (Nat × Heap) :=
  allocStructWithin tables shard quantum (tables.depth structIdx + 1) h structIdx

def allocClassOnHeap (h : Heap) (classIdx : Nat) : Option (Nat × Heap) :=
  match tables.classes[classIdx]? with
  | none => none
  | some _ => do
      let (i, h) ← newRecord shard quantum h
        { kind := .cls
          cells := (classIdx : Int) :: List.replicate (2 * (tables.classFields classIdx).length) 0 }
      let h ← fillCells (fun h cell => allocStructOnHeap tables shard quantum h cell.2) i h
        (tables.ownedCells classIdx)
      return (i, h)

def rtkArrayCode : Int := 5
def rtkArrayViewCode : Int := 21

def allocArrayOnHeap (h : Heap) (arrayTypeIdx : Nat) (dims : List Int) : Option (Nat × Heap) :=
  match tables.arrayTypes[arrayTypeIdx]?, validateArrayDims dims with
  | some arrayType, some size => do
      let rank := dims.length
      let header := [rtkArrayCode, (arrayTypeIdx : Int), (rank : Int), size] ++ dims ++
        List.replicate (arrayHeaderCells rank - (4 + rank)) 0
      let payload := List.replicate (size.toNat * arrayElemCells arrayType.elemKind) 0
      let (i, h) ← newRecord shard quantum h
        { kind := .array, structIdx := arrayTypeIdx, cells := header ++ payload }
      let h ← fillCells (fun h cell => allocStructOnHeap tables shard quantum h cell.2) i h <|
        match arrayType.elemKind, arrayType.elemTypeIdx with
        | .struct, some elemTypeIdx => structElementCells elemTypeIdx (arrayHeaderCells rank) size
        | _, _ => []
      return (i, h)
  | _, _ => none

def arrayViewStridesBase (rank : Nat) : Nat := 4 + rank
def arrayViewOffsetCell (rank : Nat) : Nat := 4 + 2 * rank

def viewCoverage (dims strides : List Int) (offset : Int) : Int × Int :=
  (dims.zip strides).foldl (fun (low, high) (dim, stride) =>
    let span := (dim - 1) * stride
    if span < 0 then (low + span, high) else (low, high + span)) (offset, offset)

def validateViewCreation (h : Heap) (arrayTypeIdx : Nat) (dims strides : List Int) (offset : Int)
    (targetIdx : Int) : Option (Nat × Int) :=
  let rank := dims.length
  if tables.arrayTypes.length ≤ arrayTypeIdx ∨ rank < 1 ∨ kMaxArrayRank < rank ∨
      h.inRange targetIdx = false then none
  else
    let targetIdx :=
      if h.refKind targetIdx = .arrayView then
        h.cell targetIdx.toNat (arrayViewTargetCell (h.cell targetIdx.toNat 2).toNat)
      else targetIdx
    if h.inRange targetIdx = false ∨ h.refKind targetIdx ≠ .array then none
    else
      match validateArrayDims dims, tables.arrayTypes[arrayTypeIdx]?,
          tables.arrayTypes[(h.cell targetIdx.toNat 1).toNat]? with
      | some size, some callerRow, some ownerRow =>
        let (low, high) := viewCoverage dims strides offset
        if callerRow.rank ≠ rank ∨ callerRow.elemKind ≠ ownerRow.elemKind ∨
            callerRow.elemTypeIdx ≠ ownerRow.elemTypeIdx then none
        else if 0 < size ∧ (low < 0 ∨ h.cell targetIdx.toNat 3 ≤ high) then none
        else some (targetIdx.toNat, size)
      | _, _, _ => none

def allocViewOnHeap (h : Heap) (arrayTypeIdx : Nat) (dims strides : List Int) (offset : Int)
    (targetIdx : Int) : Option (Nat × Heap) := do
  let (target, elemCount) ← validateViewCreation tables h arrayTypeIdx dims strides offset targetIdx
  newRecord shard quantum h
    { kind := .arrayView
      structIdx := arrayTypeIdx
      cells := [rtkArrayViewCode, (arrayTypeIdx : Int), (dims.length : Int), elemCount] ++ dims ++
        strides ++ [offset, (target : Int)] }

def viewFlatElementAddress (view : Slot) (flat : Nat) : Int :=
  let rank := (view.cells.getD 2 0).toNat
  let axis := fun (addr, rest) d =>
    let dim := view.cells.getD (4 + d) 0
    (addr + rest % dim * view.cells.getD (arrayViewStridesBase rank + d) 0, rest / dim)
  ((List.range rank).reverse.foldl axis (view.cells.getD (arrayViewOffsetCell rank) 0, (flat : Int))).1

def deepCopyWithin : Nat → Heap → Int → Nat → Option (Nat × Heap)
  | 0, _, _, _ => none
  | bound+1, h, src, structIdx =>
    if src < 0 ∨ h.size ≤ src.toNat ∨ tables.structs.length ≤ structIdx then none
    else do
      let copied := (h.slot src.toNat).cells
      let (i, h) ← newRecord shard quantum h { kind := .struct, structIdx, cells := copied }
      let h ← fillCells (fun h cell => deepCopyWithin bound h (copied.getD cell.1 0) cell.2) i h
        (tables.nestedCells structIdx)
      return (i, h)

def deepCopyStruct (h : Heap) (src : Int) (structIdx : Nat) : Option (Nat × Heap) :=
  deepCopyWithin tables shard quantum (tables.depth structIdx + 1) h src structIdx

def materializeViewRecord (h : Heap) (view : Int) : Option (Nat × Heap) :=
  if h.inRange view = false ∨ h.refKind view ≠ .arrayView then none
  else do
    let record := h.slot view.toNat
    let rank := (record.cells.getD 2 0).toNat
    let arrayTypeIdx := (record.cells.getD 1 0).toNat
    let dims := (List.range rank).map fun d => record.cells.getD (4 + d) 0
    let (i, h) ← allocArrayOnHeap tables shard quantum h arrayTypeIdx dims
    let owner := (record.cells.getD (arrayViewTargetCell rank) 0).toNat
    let base ← (h.slot owner).arrayPayloadBase
    let stride := match tables.arrayTypes[arrayTypeIdx]? with
      | some row => arrayElemCells row.elemKind
      | none => 1
    let h := (List.range (record.cells.getD 3 0).toNat).foldl (fun h flat =>
      let addr := (viewFlatElementAddress record flat).toNat
      (List.range stride).foldl (fun h c =>
        h.storeCell i (arrayHeaderCells rank + flat * stride + c) (h.cell owner (base + addr * stride + c)))
        h) h
    return (i, h)

end Heap
end NLang.Vm
