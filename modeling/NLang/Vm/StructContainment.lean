import NLang.Image.Records
import NLang.Library.DepthFirst
import NLang.Vm.Sweep

/-!
# Recursions over contained structs

`AllocStructOnHeap` and `DeepCopyStruct` of `VmExecutorAlloc.cpp` and `FreeNestedStructs` of `VmExecutorGCSweep.cpp` on
the struct records of a loaded module. Nothing in them bounds the recursion: a call that is still open after so many
levels is `unfinished`. Field defaults are not modelled.
-/

namespace NLang.Vm.StructContainment
open NLang.Library NLang.Library.DepthFirst NLang.Image

inductive Outcome (α : Type) where
  | unfinished
  | raised
  | returned (result : α)

namespace Outcome

def bind {α β : Type} (outcome : Outcome α) (rest : α → Outcome β) : Outcome β :=
  match outcome with
  | unfinished => unfinished
  | raised => raised
  | returned result => rest result

theorem bind_finished {α β : Type} {outcome : Outcome α} {rest : α → Outcome β} (first : outcome ≠ unfinished)
    (second : ∀ result, rest result ≠ unfinished) : outcome.bind rest ≠ unfinished := by
  cases outcome with
  | unfinished => exact absurd rfl first
  | raised => exact nofun
  | returned result => exact second result

end Outcome

def nestedFields (cs : Image.CompiledStruct) : List (Nat × Nat) :=
  (List.range cs.fieldCount.toNat).filterMap fun i =>
    if cs.fieldTypeKinds.getD i 0 = Image.Rtk.struct.toUInt16 ∧ cs.fieldStructIndices.getD i noIndex ≠ noIndex then
      some (i, (cs.fieldStructIndices.getD i noIndex).toNat)
    else none

theorem mem_nestedFields {cs : Image.CompiledStruct} {i t : Nat} :
    (i, t) ∈ nestedFields cs ↔ i < cs.fieldCount.toNat ∧ cs.fieldTypeKinds.getD i 0 = Image.Rtk.struct.toUInt16 ∧
      ∃ idx, cs.fieldStructIndices[i]? = some idx ∧ idx ≠ noIndex ∧ idx.toNat = t := by
  rw [nestedFields, List.mem_filterMap]
  constructor
  · rintro ⟨j, inside, found⟩
    split at found
    · rename_i isNested
      cases found
      obtain ⟨kind, present⟩ := isNested
      refine ⟨List.mem_range.mp inside, kind, ?_⟩
      rw [List.getD_eq_getElem?_getD] at present ⊢
      cases at_i : cs.fieldStructIndices[i]? with
      | none =>
        rw [at_i] at present
        exact absurd rfl present
      | some idx =>
        rw [at_i] at present
        exact ⟨idx, rfl, present, rfl⟩
    · cases found
  · rintro ⟨inside, kind, idx, at_i, present, rfl⟩
    refine ⟨i, List.mem_range.mpr inside, ?_⟩
    rw [List.getD_eq_getElem?_getD (l := cs.fieldStructIndices), at_i, Option.getD_some, if_pos ⟨kind, present⟩]

def contained (structs : List Image.CompiledStruct) (s : Nat) : List Nat :=
  (structs[s]?.map fun cs => (nestedFields cs).map (·.2)).getD []

theorem edge_contained {structs : List Image.CompiledStruct} {s t : Nat} {cs : Image.CompiledStruct}
    (row : structs[s]? = some cs) : Edge (contained structs) s t ↔ ∃ i, (i, t) ∈ nestedFields cs := by
  rw [Edge, contained, row, Option.map_some, Option.getD_some, List.mem_map]
  exact ⟨fun ⟨(i, _), member, same⟩ => ⟨i, same ▸ member⟩, fun ⟨i, member⟩ => ⟨(i, t), member, rfl⟩⟩

section Records
variable (structs : List Image.CompiledStruct) (shard quantum : Nat)

def eachField (body : Heap → Nat × Nat → Outcome Heap) : List (Nat × Nat) → Heap → Outcome Heap
  | [], h => .returned h
  | field :: fields, h => (body h field).bind (eachField body fields)

def newRecord (h : Heap) (slot : Slot) : Outcome (Nat × Heap) :=
  match h.takeHeapSlot shard quantum with
  | none => .raised
  | some (i, h) => .returned (i, h.setSlot i slot)

def allocStructOnHeap : Nat → Heap → Nat → Outcome (Nat × Heap)
  | 0, _, _ => .unfinished
  | bound + 1, h, structIdx =>
    match structs[structIdx]? with
    | none => .raised
    | some cs =>
      (newRecord shard quantum h
        { kind := .struct, structIdx, cells := List.replicate (2 * cs.fieldCount.toNat) 0 }).bind fun (i, h) =>
      (eachField (fun h (field, inner) =>
        (allocStructOnHeap bound h inner).bind fun (innerIdx, h) => .returned (h.storeCell i (2 * field) innerIdx))
        (nestedFields cs) h).bind fun h => .returned (i, h)

def deepCopyStruct : Nat → Heap × Int → Nat → Outcome (Nat × Heap)
  | 0, _, _ => .unfinished
  | bound + 1, (h, src), structIdx =>
    if src < 0 ∨ h.size ≤ src.toNat then .raised
    else match structs[structIdx]? with
      | none => .raised
      | some cs =>
        let copied := (h.slot src.toNat).cells
        (newRecord shard quantum h { kind := .struct, structIdx, cells := copied }).bind fun (i, h) =>
        (eachField (fun h (field, inner) =>
          (deepCopyStruct bound (h, copied.getD (2 * field) 0) inner).bind fun (innerIdx, h) =>
            .returned (h.storeCell i (2 * field) innerIdx))
          (nestedFields cs) h).bind fun h => .returned (i, h)

def freeNestedStructs : Nat → Heap × Nat → Nat → Outcome Heap
  | 0, _, _ => .unfinished
  | bound + 1, (h, i), structIdx =>
    eachField (fun h (field, inner) =>
      match h.structRef (h.cell i (2 * field)) with
      | none => .returned h
      | some nested => (freeNestedStructs bound (h, nested) inner).bind fun h => .returned (h.freeSlot nested))
      (nestedFields (structs.getD structIdx {})) h

end Records

section Ends
variable {structs : List Image.CompiledStruct} {shard quantum : Nat}

theorem eachField_finished {body : Heap → Nat × Nat → Outcome Heap} {fields : List (Nat × Nat)}
    (ends : ∀ field ∈ fields, ∀ h, body h field ≠ .unfinished) (h : Heap) : eachField body fields h ≠ .unfinished := by
  induction fields generalizing h with
  | nil => exact nofun
  | cons field fields ih =>
    exact Outcome.bind_finished (ends field (.head _) h) fun h => ih (fun field member => ends field (.tail _ member)) h

theorem newRecord_finished (h : Heap) (slot : Slot) : newRecord shard quantum h slot ≠ .unfinished := by
  rw [newRecord]
  split <;> exact nofun

theorem inside_of_edge {s t : Nat} (edge : Edge (contained structs) s t) : s ∈ List.range structs.length := by
  rw [Edge, contained] at edge
  cases row : structs[s]? with
  | none =>
    rw [row] at edge
    cases edge
  | some cs => exact List.mem_range.mpr (List.getElem?_eq_some_iff.mp row).1

theorem allocStructOnHeap_step (bound s : Nat) (below : ∀ t, Edge (contained structs) s t → ∀ h,
    allocStructOnHeap structs shard quantum bound h t ≠ .unfinished) (h : Heap) :
    allocStructOnHeap structs shard quantum (bound + 1) h s ≠ .unfinished := by
  rw [allocStructOnHeap]
  split
  · exact nofun
  · rename_i cs row
    refine Outcome.bind_finished (newRecord_finished _ _) fun (i, h) => Outcome.bind_finished ?_ fun _ => nofun
    refine eachField_finished (fun field member h => ?_) h
    exact Outcome.bind_finished (below field.2 ((edge_contained row).mpr ⟨field.1, member⟩) h) fun _ => nofun

theorem deepCopyStruct_step (bound s : Nat) (below : ∀ t, Edge (contained structs) s t → ∀ source,
    deepCopyStruct structs shard quantum bound source t ≠ .unfinished) (source : Heap × Int) :
    deepCopyStruct structs shard quantum (bound + 1) source s ≠ .unfinished := by
  rw [deepCopyStruct]
  split
  · exact nofun
  · split
    · exact nofun
    · rename_i cs row
      refine Outcome.bind_finished (newRecord_finished _ _) fun (i, h) => Outcome.bind_finished ?_ fun _ => nofun
      refine eachField_finished (fun field member h => ?_) h
      exact Outcome.bind_finished (below field.2 ((edge_contained row).mpr ⟨field.1, member⟩) _) fun _ => nofun

theorem freeNestedStructs_step (bound s : Nat) (below : ∀ t, Edge (contained structs) s t → ∀ target,
    freeNestedStructs structs bound target t ≠ .unfinished) (target : Heap × Nat) :
    freeNestedStructs structs (bound + 1) target s ≠ .unfinished := by
  rw [freeNestedStructs]
  refine eachField_finished (fun field member h => ?_) _
  dsimp only
  split
  · exact nofun
  · refine Outcome.bind_finished (below field.2 ?_ _) fun _ => nofun
    cases row : structs[s]? with
    | none =>
      rw [List.getD_eq_getElem?_getD, row] at member
      cases member
    | some cs =>
      rw [List.getD_eq_getElem?_getD, row] at member
      exact (edge_contained row).mpr ⟨field.1, member⟩

end Ends

structure WellFounded (structs : List Image.CompiledStruct) : Prop where
  acyclic : Acyclic (contained structs)
  allocates : ∀ shard quantum, ∀ s < structs.length,
    Settles Outcome.unfinished (allocStructOnHeap structs shard quantum) s
  copies : ∀ shard quantum, ∀ s < structs.length, Settles Outcome.unfinished (deepCopyStruct structs shard quantum) s
  frees : ∀ s < structs.length, Settles Outcome.unfinished (freeNestedStructs structs) s

theorem wellFounded_iff (structs : List Image.CompiledStruct) : WellFounded structs ↔ Acyclic (contained structs) := by
  refine ⟨WellFounded.acyclic, fun acyclic => ?_⟩
  have ends := acyclic.acc fun _ _ edge => inside_of_edge edge
  exact {
    acyclic
    allocates := fun _ _ s _ => settles allocStructOnHeap_step (ends s)
    copies := fun _ _ s _ => settles deepCopyStruct_step (ends s)
    frees := fun s _ => settles freeNestedStructs_step (ends s) }

end NLang.Vm.StructContainment
