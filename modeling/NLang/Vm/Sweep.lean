import NLang.Library.Loops
import NLang.Vm.Heap

/-!
# The sweep

`VmExecutorGCSweep.cpp`. A dead owner releases its by-value structs recursively; the release decides
by the slot kind alone. Reads past the end of a record are the zero of `Heap.cell`. The pacing of the
next collection is not modelled.
-/

namespace NLang.Vm

def kMaxArrayRank : Nat := 64

def arrayHeaderCells (rank : Nat) : Nat := (4 + rank) + (4 + rank) % 2

def Slot.arrayPayloadBase (slot : Slot) : Option Nat :=
  let rank := slot.cells.getD 2 0
  if slot.cells.length < 4 then none
  else if rank < 1 ∨ kMaxArrayRank < rank then none
  else if slot.cells.length < arrayHeaderCells rank.toNat then none
  else some (arrayHeaderCells rank.toNat)

def sizeCast (value : Int) : Nat := (value % 2 ^ 64).toNat

def int16Cast (value : Int) : Int := value.bmod (2 ^ 16)

def kListHandleFieldOffset : Nat := 1

namespace Heap

def freeSlot (h : Heap) (i : Nat) : Heap := (h.setSlot i (h.slot i).cleared).heapSweepPush i

section Release
variable (walk : Heap → Nat → Nat → Heap)

def releaseRef (h : Heap) (value : Int) (structIdx : Nat) : Heap :=
  match h.structRef value with
  | none => h
  | some nested => (walk h nested structIdx).freeSlot nested

def releaseCells (h : Heap) (i : Nat) (cells : List (Nat × Nat)) : Heap :=
  cells.foldl (fun h cell => releaseRef walk h (h.cell i cell.1) cell.2) h

end Release

variable (tables : TypeTables)

def freeNestedWithin : Nat → Heap → Nat → Nat → Heap
  | 0, h, _, _ => h
  | bound+1, h, i, structIdx =>
    releaseCells (freeNestedWithin bound) h i (tables.nestedCells structIdx)

def freeNestedStructs (h : Heap) (i structIdx : Nat) : Heap :=
  freeNestedWithin tables (tables.depth structIdx + 1) h i structIdx

theorem releaseCells_congr {walk walk' : Heap → Nat → Nat → Heap} {i : Nat} (cells : List (Nat × Nat))
    (agree : ∀ cell ∈ cells, ∀ h n, walk h n cell.2 = walk' h n cell.2) (h : Heap) :
    releaseCells walk h i cells = releaseCells walk' h i cells := by
  induction cells generalizing h with
  | nil => rfl
  | cons cell cells ih =>
    have head : releaseRef walk h (h.cell i cell.1) cell.2 =
        releaseRef walk' h (h.cell i cell.1) cell.2 := by
      unfold releaseRef
      split
      · rfl
      · rw [agree cell List.mem_cons_self]
    simp only [releaseCells, List.foldl_cons, head]
    exact ih (fun c member => agree c (List.mem_cons_of_mem _ member)) _

theorem freeNestedWithin_eq {bound bound' structIdx : Nat} (enough : tables.depth structIdx < bound)
    (enough' : tables.depth structIdx < bound') (h : Heap) (i : Nat) :
    freeNestedWithin tables bound h i structIdx = freeNestedWithin tables bound' h i structIdx := by
  induction bound generalizing bound' structIdx h i with
  | zero => omega
  | succ bound ih =>
    cases bound' with
    | zero => omega
    | succ bound' =>
      apply releaseCells_congr
      intro cell member h n
      have smaller := tables.depth_nestedCells member
      exact ih (by omega) (by omega) h n

theorem freeNestedStructs_eq (h : Heap) (i structIdx : Nat) :
    freeNestedStructs tables h i structIdx =
      releaseCells (freeNestedStructs tables) h i (tables.nestedCells structIdx) := by
  unfold freeNestedStructs
  rw [freeNestedWithin]
  apply releaseCells_congr
  intro cell member h n
  have smaller := tables.depth_nestedCells member
  exact freeNestedWithin_eq tables smaller (Nat.lt_succ_self _) h n

def freeOwnedStructs (h : Heap) (i : Nat) : Heap :=
  releaseCells (freeNestedStructs tables) h i (tables.ownedCells (sizeCast (h.cell i 0)))

def structElementCells (elemTypeIdx base : Nat) (length : Int) : List (Nat × Nat) :=
  (List.range length.toNat).map fun i => (base + i, elemTypeIdx)

def freeOwnedArrayStructElements (h : Heap) (i : Nat) : Option Heap :=
  match tables.arrayTypes[(h.slot i).structIdx]? with
  | none => some h
  | some arrayType =>
    if arrayType.elemKind = .struct then
      (h.slot i).arrayPayloadBase.map fun base =>
        releaseCells (freeNestedStructs tables) h i
          (structElementCells (arrayType.elemTypeIdx.getD 0xFFFF) base (h.cell i 3))
    else some h

def recycleHandle (h : Heap) (kind : SideKind) (i : Nat) : Heap :=
  let handle := h.cell i kListHandleFieldOffset
  if int16Cast (h.cell i 0) = (h.table kind).classIdx ∧ 0 < handle then
    h.setTable kind { h.table kind with freeList := handle :: (h.table kind).freeList }
  else h

def recycledKinds : List SideKind :=
  [.list, .dict, .mutex, .channel, .semaphore, .rmutex, .atomic]

def recycleClassContainerHandles (h : Heap) (i : Nat) : Heap :=
  recycledKinds.foldl (fun h kind => h.recycleHandle kind i) h

theorem recycleHandle_eq (h : Heap) (kind : SideKind) (i : Nat) :
    h.recycleHandle kind i = { h with table := (h.recycleHandle kind i).table } := by
  simp only [recycleHandle]
  split <;> rfl

theorem recycleClassContainerHandles_eq (h : Heap) (i : Nat) :
    h.recycleClassContainerHandles i = { h with table := (h.recycleClassContainerHandles i).table } := by
  have all : ∀ kinds : List SideKind, ∀ h : Heap,
      kinds.foldl (fun h kind => h.recycleHandle kind i) h =
        { h with table := (kinds.foldl (fun h kind => h.recycleHandle kind i) h).table } := by
    intro kinds
    induction kinds with
    | nil => exact fun h => rfl
    | cons kind kinds ih =>
      intro h
      rw [List.foldl_cons, ih, recycleHandle_eq]
  exact all recycledKinds h

def sweepSlot (marks : Nat → Bool) (h : Heap) (i : Nat) : Option Heap :=
  if (h.slot i).isFree then some (h.heapSweepPush i)
  else if marks i then some h
  else
    match (h.slot i).kind with
    | .cls => some ((freeOwnedStructs tables (h.recycleClassContainerHandles i) i).freeSlot i)
    | .struct => some ((freeNestedStructs tables h i (h.slot i).structIdx).freeSlot i)
    | .array => (freeOwnedArrayStructElements tables h i).map (·.freeSlot i)
    | _ => some (h.freeSlot i)

def sweepPhase (marks : Nat → Bool) (h : Heap) : Option Heap :=
  NLang.Library.Loops.countedLoop (sweepSlot tables marks) 1 (h.size - 1) h.clearAll

end Heap
end NLang.Vm
