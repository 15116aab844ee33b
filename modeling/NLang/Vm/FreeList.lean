import NLang.Library.Runs
import NLang.Vm.SweepLoop

/-!
# The sweep and the free lists

`SweepPhase` visits the indices in ascending order and pushes whatever is free when it gets there. A
nested struct that a dead owner released before the loop reached it is pushed a second time.
-/

namespace NLang.Vm
open Relation NLang.Library.Loops NLang.Library.Runs

namespace Heap
variable (tables : TypeTables)

structure FreeListSound (h : Heap) (pending : List Nat) : Prop where
  configured : h.shards ≠ []
  sentinel : 1 ≤ h.size
  nodup : (pending ++ h.freeIndices).Nodup
  listed : ∀ i, i ∈ pending ∨ i ∈ h.freeIndices ↔ 1 ≤ i ∧ i < h.size ∧ (h.slot i).isFree = true

/-- Every dead record lies above the structs it contains, and contains none of them inside itself. -/
def OwnersLast (h : Heap) (marks : Nat → Bool) : Prop :=
  ∀ i, Dead h marks i → Simple tables h i (owned tables h i) ∧ ∀ j, Contains tables h i j → j < i

section Ordered
variable {tables} {before h h' : Heap} {marks : Nat → Bool} {i : Nat}
variable (ordered : OwnersLast tables before marks) (swept : Swept tables before marks i h)
include ordered swept

theorem Swept.gone_lt {j : Nat} (gone : Gone before h j) : j < i := by
  obtain ⟨k, earlier, dead, rfl | contains⟩ := swept.doomed j gone
  · exact earlier
  · have below := (ordered k dead).2 j contains
    omega

theorem Swept.step_nodup (inside : i < before.size) (nodup : h.freeIndices.Nodup)
    (run : sweepSlot tables marks h i = some h') : h'.freeIndices.Nodup := by
  have configured := swept.shrinks.configured swept.configured
  have bound : i < h.size := by rw [swept.shrinks.size]; exact inside
  rcases sweepSlot_cases tables configured run with
    ⟨free, rfl⟩ | ⟨live, -, rfl⟩ | ⟨live, unmarked, freed, collects⟩
  · refine (heapSweepPush_freeIndices h i configured).nodup_iff.mpr (List.nodup_cons.mpr ⟨?_, nodup⟩)
    intro listed
    obtain ⟨-, -, isFree, early | alive⟩ := (swept.listed i).mp listed
    · omega
    · exact Nat.lt_irrefl i (swept.gone_lt ordered ⟨isFree, alive⟩)
  · exact nodup
  · have simple : Simple tables h i (owned tables h i) := by
      rw [swept.owned_eq live]
      exact swept.shrinks.simple tables (ordered i (swept.dead live unmarked bound)).1
    refine collects.frees.shardFrees.nodup_iff.mpr
      (List.nodup_append.mpr ⟨collects.nodup simple, nodup, ?_⟩)
    rintro j lost k listed rfl
    -- what is collected now was live, and the stacks only list free slots
    have isFree := ((swept.listed j).mp listed).2.2.1
    rcases List.mem_cons.mp lost with rfl | nested
    · rw [live] at isFree
      cases isFree
    · obtain ⟨row, walks⟩ := collects.walked j nested
      rw [not_isFree_of_struct walks.record.2.2] at isFree
      cases isFree

end Ordered

theorem sweepPhase_freeListSound {h h' : Heap} {marks : Nat → Bool} {pending : List Nat}
    (sound : FreeListSound h pending) (ordered : OwnersLast tables h marks)
    (run : sweepPhase tables marks h = some h') : FreeListSound h' [] := by
  have swept := swept_sweepPhase tables sound.configured sound.sentinel run
  have nodup := (countedLoop_invariant
    (fun i s => Swept tables h marks i s ∧ s.freeIndices.Nodup) h.size
    (fun _ _ _ inside both step => ⟨both.1.step inside step, both.1.step_nodup ordered inside both.2 step⟩)
    (Nat.le_of_eq (Nat.add_sub_cancel' sound.sentinel))
    ⟨swept_clearAll tables marks sound.configured, by simp⟩ run).2
  have size := swept.shrinks.size
  refine ⟨swept.shrinks.configured sound.configured, size ▸ sound.sentinel, nodup, ?_⟩
  intro j
  rw [swept.listed j]
  constructor
  · rintro (popped | ⟨one, bound, isFree, -⟩)
    · cases popped
    · exact ⟨one, bound, isFree⟩
  · rintro ⟨one, bound, isFree⟩
    exact .inr ⟨one, bound, isFree, .inl (size ▸ bound)⟩

def PushedTwice (before : Heap) (marks : Nat → Bool) (i : Nat) (h : Heap) : Prop :=
  ∀ k j, Dead before marks k → Contains tables before k j → k < j → j < i → 2 ≤ h.freeIndices.count j

theorem count_le_sweepSlot {marks : Nat → Bool} {h h' : Heap} {i : Nat} (configured : h.shards ≠ [])
    (run : sweepSlot tables marks h i = some h') (j : Nat) :
    h.freeIndices.count j ≤ h'.freeIndices.count j := by
  rcases sweepSlot_cases tables configured run with
    ⟨-, rfl⟩ | ⟨-, -, rfl⟩ | ⟨-, -, freed, collects⟩
  · rw [(heapSweepPush_freeIndices h i configured).count_eq]
    exact List.count_le_count_cons
  · exact Nat.le_refl _
  · rw [collects.frees.shardFrees.count_eq, List.count_append]
    exact Nat.le_add_left _ _

theorem PushedTwice.step {before h h' : Heap} {marks : Nat → Bool} {i : Nat}
    (typed : Typed tables before) (cleared : Cleared tables before marks i h)
    (twice : PushedTwice tables before marks i h) (run : sweepSlot tables marks h i = some h') :
    PushedTwice tables before marks (i + 1) h' := by
  have swept := cleared.swept
  have configured := swept.shrinks.configured swept.configured
  intro k j dead contains above early
  rcases Nat.lt_succ_iff_lt_or_eq.mp early with earlier | rfl
  · exact Nat.le_trans (twice k j dead contains above earlier)
      (count_le_sweepSlot tables configured run j)
  · -- the loop is at `j`, which went with its owner `k` and is on a stack already
    obtain ⟨free, alive⟩ := cleared.contains typed above dead contains
    obtain ⟨row, walks⟩ := contains
    have listed : j ∈ h.freeIndices := (swept.listed j).mpr
      ⟨walks.record.1, swept.shrinks.size ▸ walks.record.2.1, free, .inr alive⟩
    rcases sweepSlot_cases tables configured run with ⟨-, rfl⟩ | ⟨live, -⟩ | ⟨live, -⟩
    · rw [(heapSweepPush_freeIndices h j configured).count_eq, List.count_cons_self]
      exact Nat.succ_le_succ (List.count_pos_iff.mpr listed)
    · rw [live] at free
      cases free
    · rw [live] at free
      cases free

theorem sweepPhase_ownersLast {h h' : Heap} {marks : Nat → Bool} (typed : Typed tables h)
    (configured : h.shards ≠ []) (sentinel : 1 ≤ h.size) (run : sweepPhase tables marks h = some h')
    (nodup : h'.freeIndices.Nodup) : OwnersLast tables h marks := by
  intro k dead
  refine ⟨typed.simple k, ?_⟩
  intro j contains
  have ends : 1 + (h.size - 1) = h.size := Nat.add_sub_cancel' sentinel
  obtain ⟨-, twice⟩ := countedLoop_invariant
    (fun i s => Cleared tables h marks i s ∧ PushedTwice tables h marks i s) h.size
    (fun _ _ _ inside both step =>
      ⟨both.1.step typed inside step, both.2.step tables typed both.1 step⟩)
    (Nat.le_of_eq ends)
    ⟨cleared_clearAll tables marks configured, fun k j _ _ above early => by omega⟩ run
  rw [ends] at twice
  obtain ⟨row, walks⟩ := contains
  have other : j ≠ k := (typed.simple k).1 _ walks
  by_contra above
  have two := twice k j dead ⟨row, walks⟩ (by omega) walks.record.2.1
  have one := List.nodup_iff_count_le_one.mp nodup j
  omega

def ArraysFormed (h : Heap) : Prop :=
  ∀ i, (h.slot i).kind = .array → (h.slot i).arrayPayloadBase ≠ none

theorem sweepSlot_total {marks : Nat → Bool} {h : Heap} (formed : ArraysFormed h) (i : Nat) :
    ∃ h', sweepSlot tables marks h i = some h' := by
  unfold sweepSlot
  split
  · exact ⟨_, rfl⟩
  split
  · exact ⟨_, rfl⟩
  split
  · exact ⟨_, rfl⟩
  · exact ⟨_, rfl⟩
  · rename_i kind
    obtain ⟨base, payload⟩ := Option.ne_none_iff_exists'.mp (formed i kind)
    unfold freeOwnedArrayStructElements
    rw [payload]
    split
    · exact ⟨_, rfl⟩
    · split <;> exact ⟨_, rfl⟩
  · exact ⟨_, rfl⟩

theorem Shrinks.arraysFormed {h h' : Heap} (shrinks : Shrinks h h') (formed : ArraysFormed h) :
    ArraysFormed h' := by
  intro i kind
  rcases shrinks.slot i with same | cleared
  · rw [same] at kind ⊢
    exact formed i kind
  · rw [cleared] at kind
    cases kind

theorem sweepSlot_shrinks {marks : Nat → Bool} {h h' : Heap} {i : Nat} (configured : h.shards ≠ [])
    (run : sweepSlot tables marks h i = some h') : Shrinks h h' := by
  rcases sweepSlot_cases tables configured run with
    ⟨-, rfl⟩ | ⟨-, -, rfl⟩ | ⟨-, -, freed, collects⟩
  · exact ⟨rfl, by simp, fun _ => .inl rfl⟩
  · exact .refl _
  · exact collects.frees.shrinks

theorem sweepPhase_total {h : Heap} (marks : Nat → Bool) (configured : h.shards ≠ [])
    (formed : ArraysFormed h) : ∃ h', sweepPhase tables marks h = some h' := by
  refine countedLoop_total (fun s => s.shards ≠ [] ∧ ArraysFormed s) ?_ _ _ ?_
  · rintro i s ⟨configured, formed⟩
    obtain ⟨s', run⟩ := sweepSlot_total tables formed i
    have shrinks := sweepSlot_shrinks tables configured run
    exact ⟨s', run, shrinks.configured configured, shrinks.arraysFormed formed⟩
  · have shrinks : Shrinks h h.clearAll := ⟨rfl, by simp, fun _ => .inl rfl⟩
    exact ⟨shrinks.configured configured, shrinks.arraysFormed formed⟩

theorem growHeapShardBlockLocked_sound {h : Heap} {pending : List Nat} {shard : Nat} (quantum : Nat)
    (sound : FreeListSound h pending) (inside : shard < h.shards.length) :
    FreeListSound (h.growHeapShardBlockLocked shard quantum) pending := by
  obtain ⟨others, before, after⟩ := h.exists_otherStacks shard inside
  have grown : (h.growHeapShardBlockLocked shard quantum).freeIndices.Perm
      (List.range' h.size quantum ++ h.freeIndices) := by
    rw [freeIndices, growHeapShardBlockLocked, List.modify_eq_set]
    refine (after _).trans ?_
    rw [List.append_assoc]
    exact before.symm.append_left _
  have old : ∀ i ∈ pending ++ h.freeIndices, i < h.size := by
    intro i member
    exact ((sound.listed i).mp (List.mem_append.mp member)).2.1
  refine ⟨by simp [growHeapShardBlockLocked, sound.configured], ?_, ?_, ?_⟩
  · exact Nat.le_trans sound.sentinel (Nat.le_add_right _ _)
  · have order := (grown.append_left pending).trans
      (List.perm_append_comm_assoc pending (List.range' h.size quantum) h.freeIndices)
    refine order.nodup_iff.mpr (List.nodup_append.mpr ⟨List.nodup_range', sound.nodup, ?_⟩)
    rintro i fresh j listed rfl
    have low := old i listed
    have high := List.mem_range'_1.mp fresh
    omega
  · intro i
    rw [grown.mem_iff, List.mem_append, List.mem_range'_1, or_left_comm, sound.listed i]
    have sentinel := sound.sentinel
    by_cases fresh : h.size ≤ i ∧ i < h.size + quantum
    · simp only [growHeapShardBlockLocked, fresh, and_self, if_true, true_or, true_iff]
      exact ⟨by omega, trivial, rfl⟩
    · simp only [growHeapShardBlockLocked, fresh, if_false, false_or]
      constructor
      · rintro ⟨one, bound, isFree⟩
        exact ⟨one, by omega, isFree⟩
      · rintro ⟨one, bound, isFree⟩
        exact ⟨one, by omega, isFree⟩

theorem FreeListSound.pop {h : Heap} {pending rest : List Nat} {shard i : Nat}
    (sound : FreeListSound h pending) (inside : shard < h.shards.length)
    (top : h.shards.getD shard [] = i :: rest) :
    FreeListSound { h with shards := h.shards.set shard rest } (i :: pending) := by
  obtain ⟨others, before, after⟩ := h.exists_otherStacks shard inside
  rw [top] at before
  have popped : h.freeIndices.Perm
      (i :: ({ h with shards := h.shards.set shard rest } : Heap).freeIndices) :=
    before.trans ((after rest).symm.cons i)
  have order := (popped.append_left pending).trans List.perm_middle
  refine ⟨by simp [sound.configured], sound.sentinel, order.nodup_iff.mp sound.nodup, ?_⟩
  intro j
  rw [← sound.listed j, ← List.mem_append, ← List.mem_append, order.mem_iff]
  rfl

theorem takeHeapSlot_sound {h : Heap} {pending : List Nat} {shard quantum : Nat}
    (sound : FreeListSound h pending) (inside : shard < h.shards.length) (positive : 0 < quantum) :
    ∃ i h', h.takeHeapSlot shard quantum = some (i, h') ∧ i ∉ pending ∧
      ¬ (i < h.size ∧ (h.slot i).isFree = false) ∧ FreeListSound h' (i :: pending) := by
  have pops : ∀ g : Heap, FreeListSound g pending → shard < g.shards.length →
      ∀ i rest, g.shards.getD shard [] = i :: rest →
        i ∉ pending ∧ (g.slot i).isFree = true ∧
          FreeListSound { g with shards := g.shards.set shard rest } (i :: pending) := by
    intro g sound inside i rest top
    have popped := sound.pop inside top
    have isFree := ((popped.listed i).mp (.inl List.mem_cons_self)).2.2
    exact ⟨(List.nodup_cons.mp (List.nodup_append.mp popped.nodup).1).1, isFree, popped⟩
  unfold takeHeapSlot
  by_cases empty : h.shards.getD shard [] = []
  · simp only [empty, if_true]
    have grown := growHeapShardBlockLocked_sound quantum sound inside
    have length : shard < (h.growHeapShardBlockLocked shard quantum).shards.length := by
      simpa [growHeapShardBlockLocked] using inside
    have block : (h.growHeapShardBlockLocked shard quantum).shards.getD shard [] =
        h.size :: List.range' (h.size + 1) (quantum - 1) := by
      obtain ⟨rest, rfl⟩ := Nat.exists_eq_add_of_lt positive
      have stack : h.shards[shard] = [] := by simpa [inside] using empty
      simp [growHeapShardBlockLocked, inside, stack, List.range'_succ]
    obtain ⟨fresh, -, popped⟩ := pops _ grown length _ _ block
    rw [block]
    exact ⟨_, _, rfl, fresh, fun live => Nat.lt_irrefl _ live.1, popped⟩
  · simp only [empty, if_false]
    obtain ⟨i, rest, top⟩ := List.exists_cons_of_ne_nil empty
    obtain ⟨fresh, isFree, popped⟩ := pops h sound inside i rest top
    rw [top]
    refine ⟨i, _, rfl, fresh, ?_, popped⟩
    rintro ⟨-, live⟩
    rw [live] at isFree
    cases isFree

theorem FreeListSound.store {h : Heap} {pending : List Nat} {i : Nat} {slot : Slot}
    (sound : FreeListSound h pending) (held : i ∈ pending) (live : slot.isFree = false) :
    FreeListSound (h.setSlot i slot) (pending.erase i) := by
  have order := List.perm_cons_erase held
  have nodup : (i :: (pending.erase i ++ h.freeIndices)).Nodup :=
    (order.append_right h.freeIndices).nodup_iff.mp sound.nodup
  refine ⟨sound.configured, sound.sentinel, (List.nodup_cons.mp nodup).2, ?_⟩
  intro j
  rw [← List.mem_append]
  by_cases same : j = i
  · subst same
    rw [setSlot_slot_self, live]
    refine iff_of_false (List.nodup_cons.mp nodup).1 ?_
    rintro ⟨-, -, isFree⟩
    cases isFree
  · rw [setSlot_slot_of_ne _ _ _ _ same, setSlot_size, ← sound.listed j, ← List.mem_append,
      (order.append_right h.freeIndices).mem_iff, List.cons_append, List.mem_cons]
    simp [same]

theorem init_freeListSound (carriers : Nat) (table : SideKind → SideTable) :
    FreeListSound (init carriers table) [] := by
  have empty : (init carriers table).freeIndices = [] := by simp [init, freeIndices]
  refine ⟨by simp [init], Nat.le_refl 1, by simp [empty], ?_⟩
  intro i
  rw [empty]
  constructor
  · rintro (popped | listed)
    · cases popped
    · cases listed
  · rintro ⟨one, bound, -⟩
    simp only [init] at bound
    omega

end Heap

structure Carriers where
  heap : Heap
  pending : List Nat

inductive HeapAction where
  | take (shard : Nat)
  | fill (i : Nat) (slot : Slot)
  | write (i : Nat) (cells : List Int)
  | collect (marks : Nat → Bool)

namespace Carriers
open Heap
variable (tables : TypeTables) (quantum : Nat)

/-- Carriers interleave freely; a collection waits until none is between its pop and its kind store. -/
def step (s : Carriers) : HeapAction → Option Carriers
  | .take shard =>
    if shard < s.heap.shards.length then
      (s.heap.takeHeapSlot shard quantum).map fun (i, h) => ⟨h, i :: s.pending⟩
    else none
  | .fill i slot =>
    if i ∈ s.pending ∧ slot.isFree = false then some ⟨s.heap.setSlot i slot, s.pending.erase i⟩
    else none
  | .write i cells =>
    if (s.heap.slot i).isFree = false then
      some ⟨s.heap.setSlot i { s.heap.slot i with cells }, s.pending⟩
    else none
  | .collect marks =>
    if s.pending = [] then (sweepPhase tables marks s.heap).map (⟨·, []⟩) else none

def Meets (s : Carriers) : HeapAction → Prop
  | .collect marks => OwnersLast tables s.heap marks
  | _ => True

variable {tables quantum}

theorem step_sound (positive : 0 < quantum) (s : Carriers) (action : HeapAction) (s' : Carriers)
    (sound : FreeListSound s.heap s.pending) (met : Meets tables s action)
    (taken : step tables quantum s action = some s') : FreeListSound s'.heap s'.pending := by
  cases action with
  | take shard =>
    simp only [step] at taken
    split at taken
    · rename_i inside
      obtain ⟨i, h, popped, -, -, after⟩ := takeHeapSlot_sound sound inside positive
      rw [popped] at taken
      cases taken
      exact after
    · cases taken
  | fill i slot =>
    simp only [step] at taken
    split at taken
    · rename_i held
      cases taken
      exact sound.store held.1 held.2
    · cases taken
  | write i cells =>
    simp only [step] at taken
    split at taken
    · rename_i live
      cases taken
      refine ⟨sound.configured, sound.sentinel, sound.nodup, ?_⟩
      intro j
      rw [setSlot_freeIndices, sound.listed j]
      by_cases same : j = i
      · subst same
        simp [Slot.isFree]
      · simp [same]
    · cases taken
  | collect marks =>
    simp only [step] at taken
    split at taken
    · obtain ⟨h, run, rfl⟩ := Option.map_eq_some_iff.mp taken
      exact sweepPhase_freeListSound tables sound met run
    · cases taken

theorem run_sound (positive : 0 < quantum) {carriers : Nat} {table : SideKind → SideTable} {s : Carriers}
    (run : Run (step tables quantum) (Meets tables) ⟨init carriers table, []⟩ s) :
    FreeListSound s.heap s.pending :=
  run.invariant (fun s => FreeListSound s.heap s.pending) (init_freeListSound carriers table)
    (step_sound positive)

end Carriers

/-- The sweep keeps the free lists sound exactly when dead owners lie above the structs they contain;
allocation keeps them sound always. -/
theorem freeList_integrity (tables : TypeTables) :
    (∀ (h : Heap) (marks : Nat → Bool), h.FreeListSound [] →
      (h.ArraysFormed → ∃ h', h.sweepPhase tables marks = some h') ∧
      ∀ h', h.sweepPhase tables marks = some h' →
        (h.OwnersLast tables marks → h'.FreeListSound []) ∧
        (h.Typed tables → (h'.FreeListSound [] ↔ h.OwnersLast tables marks))) ∧
    (∀ (h : Heap) (shard quantum : Nat), h.FreeListSound [] → shard < h.shards.length → 0 < quantum →
      ∃ i h', h.takeHeapSlot shard quantum = some (i, h') ∧
        ¬ (i < h.size ∧ (h.slot i).isFree = false) ∧
        ∀ slot : Slot, slot.isFree = false → (h'.setSlot i slot).FreeListSound []) ∧
    ∀ (carriers quantum : Nat) (table : SideKind → SideTable) (s : Carriers), 0 < quantum →
      Run (Carriers.step tables quantum) (Carriers.Meets tables) ⟨Heap.init carriers table, []⟩ s →
      s.heap.FreeListSound s.pending ∧
      ∀ shard, shard < s.heap.shards.length → ∃ i h', s.heap.takeHeapSlot shard quantum = some (i, h') ∧
        i ∉ s.pending ∧ ¬ (i < s.heap.size ∧ (s.heap.slot i).isFree = false) := by
  refine ⟨?_, ?_, ?_⟩
  · intro h marks sound
    refine ⟨Heap.sweepPhase_total tables marks sound.configured, ?_⟩
    intro h' run
    have enough := fun ordered => Heap.sweepPhase_freeListSound tables sound ordered run
    refine ⟨enough, fun typed => ⟨?_, enough⟩⟩
    intro after
    exact Heap.sweepPhase_ownersLast tables typed sound.configured sound.sentinel run after.nodup
  · intro h shard quantum sound inside positive
    obtain ⟨i, h', popped, -, fresh, after⟩ := Heap.takeHeapSlot_sound sound inside positive
    refine ⟨i, h', popped, fresh, ?_⟩
    intro slot live
    have stored := after.store List.mem_cons_self live
    rwa [List.erase_cons_head] at stored
  · intro carriers quantum table s positive run
    have sound := Carriers.run_sound positive run
    refine ⟨sound, ?_⟩
    intro shard inside
    obtain ⟨i, h', popped, unheld, fresh, -⟩ := Heap.takeHeapSlot_sound sound inside positive
    exact ⟨i, h', popped, unheld, fresh⟩

def pointTables : TypeTables where
  structs := [⟨[{ kind := .int32 }]⟩]
  classes := [{ name := "Holder", fields := [{ kind := .struct, structIdx := some 0 }] }]
  arrayTypes := []
  depth := fun _ => 0
  depth_lt := TypeTables.depth_lt_int32

def holderHeap (owner nested : Nat) : Heap where
  size := 3
  slot := fun i =>
    if i = owner then { kind := .cls, cells := [0, nested, 0] }
    else if i = nested then { kind := .struct, cells := [0, 0] }
    else {}
  shards := [[]]
  table := fun _ => {}

theorem holderHeap_sound {owner nested : Nat} (filled : ∀ i, 1 ≤ i → i < 3 → i = owner ∨ i = nested) :
    (holderHeap owner nested).FreeListSound [] := by
  refine ⟨by simp [holderHeap], by simp [holderHeap], by simp [holderHeap, Heap.freeIndices], ?_⟩
  intro i
  refine iff_of_false (by simp [holderHeap, Heap.freeIndices]) ?_
  rintro ⟨one, bound, isFree⟩
  rcases filled i one bound with rfl | rfl
  · simp [holderHeap, Slot.isFree] at isFree
  · by_cases same : i = owner <;> simp [holderHeap, Slot.isFree, same] at isFree

theorem holderHeap_holds {owner nested i : Nat} {y : Nat × Nat} (apart : owner ≠ nested)
    (holds : (holderHeap owner nested).Holds i ((holderHeap owner nested).owned pointTables i) y) :
    i = owner ∧ y = (nested, 0) := by
  obtain ⟨k, member, found⟩ := holds
  by_cases isOwner : i = owner
  · subst isOwner
    have cells : (holderHeap i nested).owned pointTables i = [(1, 0)] := by
      simp [Heap.owned, Heap.byValueCells, holderHeap]
      rfl
    rw [cells, List.mem_singleton] at member
    obtain ⟨rfl, row⟩ := Prod.mk.inj member
    have target := (Heap.structRef_eq_some.mp found).2.1
    simp [Heap.cell, holderHeap] at target
    exact ⟨rfl, Prod.ext target.symm row⟩
  · have cells : (holderHeap owner nested).owned pointTables i = [] := by
      by_cases isNested : i = nested
      · subst isNested
        simp [Heap.owned, Heap.byValueCells, holderHeap, isOwner]
        rfl
      · simp [Heap.owned, Heap.byValueCells, holderHeap, isOwner, isNested]
    rw [cells] at member
    cases member

theorem sweepPhase_pushes_nested_twice :
    (holderHeap 1 2).FreeListSound [] ∧
      ∃ h', (holderHeap 1 2).sweepPhase pointTables (fun _ => false) = some h' ∧
        h'.freeIndices = [2, 1, 2] ∧ ¬ h'.FreeListSound [] := by
  refine ⟨holderHeap_sound fun i one bound => by omega, _, rfl, rfl, ?_⟩
  intro sound
  have nodup : [2, 1, 2].Nodup := sound.nodup
  revert nodup
  decide

theorem freeList_integrity_recycled :
    (holderHeap 2 1).FreeListSound [] ∧ (holderHeap 2 1).Typed pointTables ∧
      (∃ h', (holderHeap 2 1).sweepPhase pointTables (fun _ => false) = some h' ∧ h'.FreeListSound []) ∧
      (∃ i h', (holderHeap 2 1).takeHeapSlot 0 1 = some (i, h') ∧
        (h'.setSlot i { kind := .cls }).FreeListSound []) ∧
      (Heap.init 1 fun _ => {}).FreeListSound [] := by
  have sound : (holderHeap 2 1).FreeListSound [] := holderHeap_sound fun i one bound => by omega
  have typed : (holderHeap 2 1).Typed pointTables := by
    intro i y holds
    obtain ⟨-, rfl⟩ := holderHeap_holds (by decide) holds
    rfl
  have ordered : (holderHeap 2 1).OwnersLast pointTables fun _ => false := by
    intro i dead
    refine ⟨typed.simple i, ?_⟩
    rintro j ⟨row, x, holds, chain⟩
    obtain ⟨rfl, rfl⟩ := holderHeap_holds (by decide) holds
    cases chain.cases_head with
    | inl same =>
      cases same
      decide
    | inr edge =>
      obtain ⟨y, ⟨k, member, -⟩, -⟩ := edge
      cases member
  obtain ⟨sweeps, allocates, runs⟩ := freeList_integrity pointTables
  obtain ⟨returns, after⟩ := sweeps (holderHeap 2 1) (fun _ => false) sound
  obtain ⟨h', run⟩ := returns (by
    intro i kind
    by_cases owner : i = 2 <;> by_cases nested : i = 1 <;> simp [holderHeap, owner, nested] at kind)
  obtain ⟨i, taken, popped, -, filled⟩ := allocates (holderHeap 2 1) 0 1 sound (by decide) (by decide)
  refine ⟨sound, typed, ⟨h', run, ((after h' run).2 typed).mpr ordered⟩,
    ⟨i, taken, popped, filled _ rfl⟩, ?_⟩
  exact (runs 1 1 (fun _ => {}) ⟨_, []⟩ (by decide) .refl).1

end NLang.Vm
