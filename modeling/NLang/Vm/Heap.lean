import NLang.Vm.Tables

/-!
# The record heap

`m_structHeap`, `m_slotKinds` and `m_slotStructIdx` are one table of slots; kind code 0 (`RTK_Int32`)
marks a free slot. The free indices sit on per-carrier stacks (`ShardFreeList.h`), a stack being a
list with its top first. The side tables of the container and synchronisation classes ride along,
because the sweep recycles their handles.
-/

namespace NLang.Vm

structure Slot where
  kind : Rtk := .int32
  structIdx : Nat := 0
  cells : List Int := []
  deriving DecidableEq

def Slot.isFree (slot : Slot) : Bool := slot.kind = .int32

def Slot.cleared (slot : Slot) : Slot := { slot with kind := .int32, cells := [] }

@[simp] theorem Slot.cleared_kind (slot : Slot) : slot.cleared.kind = .int32 := rfl
@[simp] theorem Slot.cleared_isFree (slot : Slot) : slot.cleared.isFree = true := rfl
@[simp] theorem Slot.cleared_cleared (slot : Slot) : slot.cleared.cleared = slot.cleared := rfl

inductive SideKind where
  | list | dict | mutex | channel | semaphore | rmutex | atomic | byteStream | fileStream
  deriving DecidableEq

/-- `classIdx` is the cached builtin class index, `-1` when the module has none; `store` holds the heap
indices each entry keeps alive. Handles are one-based. -/
structure SideTable where
  classIdx : Int := -1
  store : List (List Int) := []
  freeList : List Int := []

structure Heap where
  size : Nat
  slot : Nat → Slot
  shards : List (List Nat)
  table : SideKind → SideTable

def defaultShardBlock : Nat := 1024

namespace Heap

def cell (h : Heap) (i k : Nat) : Int := (h.slot i).cells.getD k 0

def setSlot (h : Heap) (i : Nat) (slot : Slot) : Heap :=
  { h with slot := fun j => if j = i then slot else h.slot j }

def setTable (h : Heap) (kind : SideKind) (table : SideTable) : Heap :=
  { h with table := fun k => if k = kind then table else h.table k }

def storeCell (h : Heap) (i k : Nat) (value : Int) : Heap :=
  h.setSlot i { h.slot i with cells := (h.slot i).cells.set k value }

def structRef (h : Heap) (value : Int) : Option Nat :=
  if 0 < value ∧ value.toNat < h.size ∧ (h.slot value.toNat).kind = .struct then some value.toNat
  else none

def freeIndices (h : Heap) : List Nat := h.shards.flatten

def push (h : Heap) (shard i : Nat) : Heap := { h with shards := h.shards.modify shard (i :: ·) }

def sweepShardOf (h : Heap) (i : Nat) : Nat := i / defaultShardBlock % h.shards.length

def heapSweepPush (h : Heap) (i : Nat) : Heap := h.push (h.sweepShardOf i) i

def clearAll (h : Heap) : Heap := { h with shards := h.shards.map fun _ => [] }

def growHeapShardBlockLocked (h : Heap) (shard quantum : Nat) : Heap :=
  { h with
    size := h.size + quantum
    slot := fun j => if h.size ≤ j ∧ j < h.size + quantum then {} else h.slot j
    shards := h.shards.modify shard (List.range' h.size quantum ++ ·) }

def takeHeapSlot (h : Heap) (shard quantum : Nat) : Option (Nat × Heap) :=
  let h := if h.shards.getD shard [] = [] then h.growHeapShardBlockLocked shard quantum else h
  match h.shards.getD shard [] with
  | [] => none
  | i :: rest => some (i, { h with shards := h.shards.set shard rest })

def init (carriers : Nat) (table : SideKind → SideTable) : Heap :=
  { size := 1, slot := fun _ => {}, shards := List.replicate (carriers + 1) [], table }

section Simp
variable (h : Heap) (i j k shard : Nat) (slot : Slot)

@[simp] theorem setSlot_slot_self : (h.setSlot i slot).slot i = slot := by simp [setSlot]
@[simp] theorem setSlot_slot_of_ne (ne : j ≠ i) : (h.setSlot i slot).slot j = h.slot j := by
  simp [setSlot, ne]
@[simp] theorem setSlot_size : (h.setSlot i slot).size = h.size := rfl
@[simp] theorem setSlot_shards : (h.setSlot i slot).shards = h.shards := rfl
@[simp] theorem setSlot_freeIndices : (h.setSlot i slot).freeIndices = h.freeIndices := rfl
@[simp] theorem setSlot_table : (h.setSlot i slot).table = h.table := rfl
@[simp] theorem setTable_slot (kind : SideKind) (table : SideTable) :
    (h.setTable kind table).slot = h.slot := rfl
@[simp] theorem setTable_size (kind : SideKind) (table : SideTable) :
    (h.setTable kind table).size = h.size := rfl
@[simp] theorem setTable_shards (kind : SideKind) (table : SideTable) :
    (h.setTable kind table).shards = h.shards := rfl
@[simp] theorem push_slot : (h.push shard i).slot = h.slot := rfl
@[simp] theorem push_size : (h.push shard i).size = h.size := rfl
@[simp] theorem push_table : (h.push shard i).table = h.table := rfl
@[simp] theorem heapSweepPush_slot : (h.heapSweepPush i).slot = h.slot := rfl
@[simp] theorem heapSweepPush_size : (h.heapSweepPush i).size = h.size := rfl
@[simp] theorem heapSweepPush_table : (h.heapSweepPush i).table = h.table := rfl
@[simp] theorem clearAll_slot : h.clearAll.slot = h.slot := rfl
@[simp] theorem clearAll_size : h.clearAll.size = h.size := rfl
@[simp] theorem clearAll_table : h.clearAll.table = h.table := rfl

@[simp] theorem clearAll_freeIndices : h.clearAll.freeIndices = [] := by
  simp [freeIndices, clearAll]

theorem exists_otherStacks (inside : shard < h.shards.length) :
    ∃ others, h.freeIndices.Perm (h.shards.getD shard [] ++ others) ∧
      ∀ stack, (h.shards.set shard stack).flatten.Perm (stack ++ others) := by
  refine ⟨(h.shards.take shard).flatten ++ (h.shards.drop (shard + 1)).flatten, ?_, ?_⟩
  · have stack : h.shards.getD shard [] = h.shards[shard] := by simp [inside]
    rw [stack, freeIndices]
    conv_lhs => rw [← List.take_append_drop shard h.shards]
    rw [List.drop_eq_getElem_cons inside, List.flatten_append, List.flatten_cons]
    exact List.perm_append_comm_assoc _ _ _
  · intro stack
    rw [List.set_eq_take_append_cons_drop, if_pos inside, List.flatten_append, List.flatten_cons]
    exact List.perm_append_comm_assoc _ _ _

theorem push_freeIndices (inside : shard < h.shards.length) :
    (h.push shard i).freeIndices.Perm (i :: h.freeIndices) := by
  obtain ⟨others, before, after⟩ := h.exists_otherStacks shard inside
  have pushed : (h.push shard i).shards = h.shards.set shard (i :: h.shards.getD shard []) := by
    rw [push, List.modify_eq_set, List.getD_eq_getElem?_getD]
    rfl
  rw [freeIndices, pushed]
  exact (after _).trans (before.cons i).symm

theorem heapSweepPush_freeIndices (configured : h.shards ≠ []) :
    (h.heapSweepPush i).freeIndices.Perm (i :: h.freeIndices) :=
  h.push_freeIndices i _ (Nat.mod_lt _ (List.length_pos_of_ne_nil configured))

@[simp] theorem clearAll_shards_length : h.clearAll.shards.length = h.shards.length := by
  simp [clearAll]

@[simp] theorem heapSweepPush_shards_length :
    (h.heapSweepPush i).shards.length = h.shards.length := by
  simp [heapSweepPush, push]

end Simp

end Heap

end NLang.Vm
