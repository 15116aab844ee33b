import NLang.Vm.FreeList
import NLang.Vm.Alloc

/-!
# What allocation leaves alone

Where the free lists are sound, an allocation takes slots that no live record holds, and keeps them sound.
-/

namespace NLang.Vm.Heap

theorem takeHeapSlot_inside {h h' : Heap} {shard quantum i : Nat} (taken : h.takeHeapSlot shard quantum = some (i, h')) :
    shard < h.shards.length := by
  by_contra outside
  have absent : h.shards[shard]? = none := List.getElem?_eq_none (by omega)
  have none_left : (h.growHeapShardBlockLocked shard quantum).shards[shard]? = none := by
    rw [growHeapShardBlockLocked]
    exact List.getElem?_eq_none (by rw [List.length_modify]; omega)
  unfold takeHeapSlot at taken
  simp only [List.getD_eq_getElem?_getD, absent, none_left, Option.getD_none, if_true] at taken
  cases taken

structure Popped (h h' : Heap) (i : Nat) : Prop where
  fresh : ¬ (i < h.size ∧ (h.slot i).isFree = false)
  after : FreeListSound h' [i]
  size : h.size ≤ h'.size
  shards : h'.shards.length = h.shards.length
  slot : ∀ j < h.size, h'.slot j = h.slot j

theorem takeHeapSlot_popped {h h' : Heap} {shard quantum i : Nat} (sound : FreeListSound h [])
    (taken : h.takeHeapSlot shard quantum = some (i, h')) : Popped h h' i := by
  have inside := takeHeapSlot_inside taken
  by_cases empty : h.shards.getD shard [] = []
  · have grown : 0 < quantum := by
      by_contra none_left
      obtain rfl : quantum = 0 := by omega
      have still : (h.growHeapShardBlockLocked shard 0).shards.getD shard [] = [] := by
        have stack : h.shards[shard] = [] := by simpa [inside] using empty
        simp [growHeapShardBlockLocked, inside, stack]
      unfold takeHeapSlot at taken
      simp only [empty, if_true, still] at taken
      cases taken
    obtain ⟨j, g, popped, -, fresh, after⟩ := takeHeapSlot_sound sound inside grown
    cases popped.symm.trans taken
    refine ⟨fresh, after, ?_, ?_, fun j below => ?_⟩ <;>
    · unfold takeHeapSlot at taken
      simp only [empty, if_true] at taken
      split at taken
      · cases taken
      · cases taken
        simp [growHeapShardBlockLocked]
        try omega
  · have same : h.takeHeapSlot shard quantum = h.takeHeapSlot shard 1 := by
      simp only [takeHeapSlot, empty, if_false]
    obtain ⟨j, g, popped, -, fresh, after⟩ := takeHeapSlot_sound sound inside Nat.one_pos
    cases popped.symm.trans (same ▸ taken)
    refine ⟨fresh, after, ?_, ?_, fun j _ => ?_⟩ <;>
    · unfold takeHeapSlot at taken
      simp only [empty, if_false] at taken
      split at taken
      · cases taken
      · cases taken
        simp

structure Keeps (h h' : Heap) : Prop where
  sound : FreeListSound h' []
  size : h.size ≤ h'.size
  slot : ∀ j < h.size, (h.slot j).isFree = false → h'.slot j = h.slot j

theorem Keeps.step {h h' h'' : Heap} (first : Keeps h h') (second : Keeps h' h'') : Keeps h h'' := by
  refine ⟨second.sound, Nat.le_trans first.size second.size, fun j below live => ?_⟩
  have same := first.slot j below live
  rw [second.slot j (Nat.lt_of_lt_of_le below first.size) (same ▸ live), same]

structure Fresh (h h' : Heap) (i : Nat) : Prop where
  free : ¬ (i < h.size ∧ (h.slot i).isFree = false)
  positive : 0 < i
  inside : i < h'.size
  live : (h'.slot i).isFree = false

theorem Fresh.ne {h h' : Heap} {i j : Nat} (fresh : Fresh h h' i) (below : j < h.size) (live : (h.slot j).isFree = false) : j ≠ i := by
  rintro rfl
  exact fresh.free ⟨below, live⟩

theorem Fresh.later {h h' h'' : Heap} {i : Nat} (fresh : Fresh h h' i) (keeps : Keeps h' h'') : Fresh h h'' i :=
  ⟨fresh.free, fresh.positive, Nat.lt_of_lt_of_le fresh.inside keeps.size, by rw [keeps.slot i fresh.inside fresh.live]; exact fresh.live⟩

section Steps
variable {tables : TypeTables} {shard quantum : Nat} {h h' : Heap} {i : Nat}

theorem newRecord_keeps {slot : Slot} (sound : FreeListSound h []) (live : slot.isFree = false)
    (made : h.newRecord shard quantum slot = some (i, h')) : Keeps h h' ∧ Fresh h h' i ∧ h'.slot i = slot := by
  rw [newRecord, Option.map_eq_some_iff] at made
  obtain ⟨⟨j, g⟩, taken, same⟩ := made
  cases same
  have popped := takeHeapSlot_popped sound taken
  have stored := popped.after.store List.mem_cons_self live
  rw [List.erase_cons_head] at stored
  obtain ⟨positive, inside, -⟩ := (popped.after.listed i).mp (.inl List.mem_cons_self)
  refine ⟨⟨stored, popped.size, fun k below liveK => ?_⟩, ⟨popped.fresh, positive, inside, ?_⟩, setSlot_slot_self _ _ _⟩
  · have apart : k ≠ i := by
      rintro rfl
      exact popped.fresh ⟨below, liveK⟩
    rw [setSlot_slot_of_ne _ _ _ _ apart, popped.slot k below]
  · rw [setSlot_slot_self]
    exact live

theorem storeCell_sound (sound : FreeListSound h []) (k : Nat) (value : Int) : FreeListSound (h.storeCell i k value) [] := by
  refine ⟨sound.configured, sound.sentinel, sound.nodup, fun j => ?_⟩
  have kind : ((h.storeCell i k value).slot j).isFree = (h.slot j).isFree := by
    by_cases same : j = i
    · subst same
      simp [storeCell, Slot.isFree]
    · simp [storeCell, same]
  rw [kind]
  exact sound.listed j

theorem storeCell_keeps {before : Heap} (keeps : Keeps before h) (fresh : Fresh before h i) (k : Nat) (value : Int) :
    Keeps before (h.storeCell i k value) ∧ Fresh before (h.storeCell i k value) i := by
  refine ⟨⟨storeCell_sound keeps.sound k value, keeps.size, fun j below live => ?_⟩, fresh.free, fresh.positive, fresh.inside, ?_⟩
  · rw [storeCell, setSlot_slot_of_ne _ _ _ _ (fresh.ne below live), keeps.slot j below live]
  · rw [storeCell, setSlot_slot_self]
    exact fresh.live

structure OnlyCells (cells : List Nat) (slot slot' : Slot) : Prop where
  kind : slot'.kind = slot.kind
  structIdx : slot'.structIdx = slot.structIdx
  length : slot'.cells.length = slot.cells.length
  others : ∀ k, k ∉ cells → slot'.cells.getD k 0 = slot.cells.getD k 0

theorem fillCells_keeps {make : Heap → Nat × Nat → Option (Nat × Heap)} {before : Heap} {cells : List (Nat × Nat)}
    (makes : ∀ cell ∈ cells, ∀ g g' inner, FreeListSound g [] → make g cell = some (inner, g') → Keeps g g')
    (keeps : Keeps before h) (fresh : Fresh before h i) (filled : h.fillCells make i cells = some h') :
    Keeps before h' ∧ Fresh before h' i ∧ OnlyCells (cells.map (·.1)) (h.slot i) (h'.slot i) := by
  induction cells generalizing h with
  | nil =>
    cases filled
    exact ⟨keeps, fresh, rfl, rfl, rfl, fun _ _ => rfl⟩
  | cons cell cells ih =>
    rw [fillCells, List.foldlM_cons] at filled
    obtain ⟨_, first, filled⟩ := Option.bind_eq_some_iff.mp filled
    obtain ⟨⟨inner, g⟩, made, rfl⟩ := Option.map_eq_some_iff.mp first
    have grown := makes cell (.head _) h g inner keeps.sound made
    have same : g.slot i = h.slot i := grown.slot i fresh.inside fresh.live
    obtain ⟨keeps', fresh'⟩ := storeCell_keeps (keeps.step grown) (fresh.later grown) cell.1 (inner : Int)
    obtain ⟨last, lastFresh, only⟩ := ih (fun other member => makes other (.tail _ member)) keeps' fresh' filled
    refine ⟨last, lastFresh, ?_⟩
    have stored : (g.storeCell i cell.1 inner).slot i = { h.slot i with cells := (h.slot i).cells.set cell.1 inner } := by
      rw [storeCell, setSlot_slot_self, same]
    rw [stored] at only
    refine ⟨only.kind, only.structIdx, only.length.trans List.length_set, fun k away => ?_⟩
    rw [List.map_cons, List.mem_cons, not_or] at away
    rw [only.others k away.2]
    simp [List.getD_eq_getElem?_getD, Ne.symm away.1]

theorem allocStructWithin_keeps (bound : Nat) {structIdx : Nat} (sound : FreeListSound h [])
    (made : allocStructWithin tables shard quantum bound h structIdx = some (i, h')) : Keeps h h' ∧ Fresh h h' i := by
  induction bound generalizing h h' i structIdx with
  | zero => cases made
  | succ bound ih =>
    rw [allocStructWithin] at made
    split at made
    · cases made
    · obtain ⟨⟨j, g⟩, taken, made⟩ := Option.bind_eq_some_iff.mp made
      obtain ⟨g', filled, made⟩ := Option.bind_eq_some_iff.mp made
      cases made
      obtain ⟨keeps, fresh, -⟩ := newRecord_keeps sound rfl taken
      obtain ⟨keeps', fresh', -⟩ := fillCells_keeps (fun cell _ g g' inner sound run => (ih sound run).1) keeps fresh filled
      exact ⟨keeps', fresh'⟩

theorem deepCopyWithin_keeps (bound : Nat) {src : Int} {structIdx : Nat} (sound : FreeListSound h [])
    (made : deepCopyWithin tables shard quantum bound h src structIdx = some (i, h')) : Keeps h h' ∧ Fresh h h' i := by
  induction bound generalizing h h' i src structIdx with
  | zero => cases made
  | succ bound ih =>
    rw [deepCopyWithin] at made
    split at made
    · cases made
    · obtain ⟨⟨j, g⟩, taken, made⟩ := Option.bind_eq_some_iff.mp made
      obtain ⟨g', filled, made⟩ := Option.bind_eq_some_iff.mp made
      cases made
      obtain ⟨keeps, fresh, -⟩ := newRecord_keeps sound rfl taken
      obtain ⟨keeps', fresh', -⟩ := fillCells_keeps (fun cell _ g g' inner sound run => (ih sound run).1) keeps fresh filled
      exact ⟨keeps', fresh'⟩

end Steps

def StructsOnly (old : Nat → Prop) (h : Heap) : Prop :=
  ∀ j < h.size, (h.slot j).isFree = false → old j ∨ (h.slot j).kind = .struct

section Kinds
variable {tables : TypeTables} {shard quantum : Nat} {h h' : Heap} {i : Nat} {old : Nat → Prop}

theorem takeHeapSlot_live (taken : h.takeHeapSlot shard quantum = some (i, h')) {j : Nat} (below : j < h'.size)
    (live : (h'.slot j).isFree = false) : j < h.size ∧ h'.slot j = h.slot j := by
  unfold takeHeapSlot at taken
  split at taken
  · dsimp only at taken
    split at taken
    · cases taken
    · cases taken
      simp only [growHeapShardBlockLocked] at below live ⊢
      split at live
      · cases live
      · rename_i outside
        rw [if_neg outside]
        exact ⟨by omega, rfl⟩
  · dsimp only at taken
    split at taken
    · cases taken
    · cases taken
      exact ⟨below, rfl⟩

theorem newRecord_structsOnly {slot : Slot} (only : StructsOnly old h) (kind : old i ∨ slot.kind = .struct)
    (made : h.newRecord shard quantum slot = some (i, h')) : StructsOnly old h' := by
  obtain ⟨⟨j, g⟩, taken, same⟩ := Option.map_eq_some_iff.mp made
  cases same
  intro k below live
  by_cases isNew : k = i
  · subst isNew
    rw [setSlot_slot_self]
    exact kind
  · rw [setSlot_slot_of_ne _ _ _ _ isNew] at live ⊢
    obtain ⟨inside, same⟩ := takeHeapSlot_live taken below live
    rw [same] at live ⊢
    exact only k inside live

theorem storeCell_structsOnly (only : StructsOnly old h) (k : Nat) (value : Int) : StructsOnly old (h.storeCell i k value) := by
  intro j below live
  by_cases same : j = i
  · subst same
    rw [storeCell, setSlot_slot_self] at live ⊢
    exact only j below live
  · rw [storeCell, setSlot_slot_of_ne _ _ _ _ same] at live ⊢
    exact only j below live

theorem fillCells_structsOnly {make : Heap → Nat × Nat → Option (Nat × Heap)} {cells : List (Nat × Nat)}
    (makes : ∀ cell g g' inner, StructsOnly old g → make g cell = some (inner, g') → StructsOnly old g')
    (only : StructsOnly old h) (filled : h.fillCells make i cells = some h') : StructsOnly old h' := by
  induction cells generalizing h with
  | nil =>
    cases filled
    exact only
  | cons cell cells ih =>
    rw [fillCells, List.foldlM_cons] at filled
    obtain ⟨_, first, filled⟩ := Option.bind_eq_some_iff.mp filled
    obtain ⟨⟨inner, g⟩, made, rfl⟩ := Option.map_eq_some_iff.mp first
    exact ih (storeCell_structsOnly (makes cell h g inner only made) _ _) filled

theorem allocStructWithin_structsOnly (bound : Nat) {structIdx : Nat} (only : StructsOnly old h)
    (made : allocStructWithin tables shard quantum bound h structIdx = some (i, h')) : StructsOnly old h' := by
  induction bound generalizing h h' i structIdx with
  | zero => cases made
  | succ bound ih =>
    rw [allocStructWithin] at made
    split at made
    · cases made
    · obtain ⟨⟨j, g⟩, taken, made⟩ := Option.bind_eq_some_iff.mp made
      obtain ⟨g', filled, made⟩ := Option.bind_eq_some_iff.mp made
      cases made
      exact fillCells_structsOnly (fun cell g g' inner only run => ih only run) (newRecord_structsOnly only (.inr rfl) taken) filled

theorem allocArrayOnHeap_structsOnly {arrayTypeIdx : Nat} {dims : List Int} (only : StructsOnly old h) (new : old i)
    (made : allocArrayOnHeap tables shard quantum h arrayTypeIdx dims = some (i, h')) : StructsOnly old h' := by
  rw [allocArrayOnHeap] at made
  split at made
  · obtain ⟨⟨j, g⟩, taken, made⟩ := Option.bind_eq_some_iff.mp made
    obtain ⟨g', filled, made⟩ := Option.bind_eq_some_iff.mp made
    cases made
    exact fillCells_structsOnly (fun cell g g' inner only run => allocStructWithin_structsOnly _ only run)
      (newRecord_structsOnly only (.inl new) taken) filled
  · cases made

end Kinds

end NLang.Vm.Heap
