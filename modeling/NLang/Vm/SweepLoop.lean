import NLang.Vm.Release

/-!
# The sweep loop

What `SweepPhase` has done before index `i`, for any marks: it freed dead records and structs they contain,
and pushed every free index it passed.
-/

namespace NLang.Vm
open Relation NLang.Library.Loops

namespace Heap
variable (tables : TypeTables)

def Dead (h : Heap) (marks : Nat → Bool) (i : Nat) : Prop :=
  1 ≤ i ∧ i < h.size ∧ (h.slot i).isFree = false ∧ marks i = false

def Contains (h : Heap) (i j : Nat) : Prop := ∃ row, Walks tables h i (owned tables h i) (j, row)

def Gone (h h' : Heap) (j : Nat) : Prop :=
  (h'.slot j).isFree = true ∧ (h.slot j).isFree = false

theorem not_isFree_of_struct {slot : Slot} (kind : slot.kind = .struct) : slot.isFree = false := by
  simp [Slot.isFree, kind]

theorem Shrinks.slot_of_live {h h' : Heap} (shrinks : Shrinks h h') {j : Nat}
    (live : (h'.slot j).isFree = false) : h'.slot j = h.slot j := by
  rcases shrinks.slot j with same | cleared
  · exact same
  · rw [cleared] at live
    cases live

theorem Shrinks.contains {h h' : Heap} (shrinks : Shrinks h h') {i j : Nat}
    (live : (h'.slot i).isFree = false) (contains : Contains tables h' i j) :
    Contains tables h i j := by
  obtain ⟨row, walks⟩ := contains
  rw [owned, shrinks.slot_of_live live] at walks
  exact ⟨row, shrinks.walks tables walks⟩

structure Swept (before : Heap) (marks : Nat → Bool) (i : Nat) (h : Heap) : Prop where
  positive : 1 ≤ i
  configured : before.shards ≠ []
  shrinks : Shrinks before h
  doomed : ∀ j, Gone before h j →
    ∃ k, k < i ∧ Dead before marks k ∧ (j = k ∨ Contains tables before k j)
  listed : ∀ j, j ∈ h.freeIndices ↔
    1 ≤ j ∧ j < h.size ∧ (h.slot j).isFree = true ∧ (j < i ∨ (before.slot j).isFree = false)

theorem swept_clearAll {h : Heap} (marks : Nat → Bool) (configured : h.shards ≠ []) :
    Swept tables h marks 1 h.clearAll where
  positive := Nat.le_refl 1
  configured := configured
  shrinks := ⟨rfl, by simp, fun _ => .inl rfl⟩
  doomed := by
    rintro j ⟨free, live⟩
    rw [clearAll_slot, live] at free
    cases free
  listed := by
    intro j
    rw [clearAll_freeIndices]
    refine iff_of_false List.not_mem_nil ?_
    rintro ⟨positive, -, free, early | live⟩
    · omega
    · rw [clearAll_slot, live] at free
      cases free

section Step
variable {tables} {before h h' : Heap} {marks : Nat → Bool} {i : Nat}
variable (swept : Swept tables before marks i h)
include swept

theorem Swept.pushes (free : (h.slot i).isFree = true) (inside : i < h.size) :
    Swept tables before marks (i + 1) (h.heapSweepPush i) where
  positive := by omega
  configured := swept.configured
  shrinks := ⟨swept.shrinks.size, by simp [swept.shrinks.carriers], swept.shrinks.slot⟩
  doomed := by
    intro j gone
    obtain ⟨k, earlier, rest⟩ := swept.doomed j gone
    exact ⟨k, by omega, rest⟩
  listed := by
    intro j
    have pushed := heapSweepPush_freeIndices h i (swept.shrinks.configured swept.configured)
    rw [pushed.mem_iff, List.mem_cons, swept.listed j]
    simp only [heapSweepPush_slot, heapSweepPush_size]
    have positive := swept.positive
    constructor
    · rintro (rfl | ⟨one, bound, isFree, early | live⟩)
      · exact ⟨positive, inside, free, .inl (Nat.lt_succ_self _)⟩
      · exact ⟨one, bound, isFree, .inl (by omega)⟩
      · exact ⟨one, bound, isFree, .inr live⟩
    · rintro ⟨one, bound, isFree, early | live⟩
      · rcases Nat.lt_succ_iff_lt_or_eq.mp early with earlier | rfl
        · exact .inr ⟨one, bound, isFree, .inl earlier⟩
        · exact .inl rfl
      · exact .inr ⟨one, bound, isFree, .inr live⟩

theorem Swept.keeps (live : (h.slot i).isFree = false) : Swept tables before marks (i + 1) h where
  positive := by omega
  configured := swept.configured
  shrinks := swept.shrinks
  doomed := by
    intro j gone
    obtain ⟨k, earlier, rest⟩ := swept.doomed j gone
    exact ⟨k, by omega, rest⟩
  listed := by
    intro j
    rw [swept.listed j]
    constructor
    · rintro ⟨one, bound, isFree, early | alive⟩
      · exact ⟨one, bound, isFree, .inl (by omega)⟩
      · exact ⟨one, bound, isFree, .inr alive⟩
    · rintro ⟨one, bound, isFree, early | alive⟩
      · refine ⟨one, bound, isFree, .inl ?_⟩
        rcases Nat.lt_succ_iff_lt_or_eq.mp early with earlier | rfl
        · exact earlier
        · rw [live] at isFree
          cases isFree
      · exact ⟨one, bound, isFree, .inr alive⟩

theorem Swept.dead (live : (h.slot i).isFree = false) (unmarked : marks i = false)
    (inside : i < h.size) : Dead before marks i := by
  refine ⟨swept.positive, ?_, ?_, unmarked⟩
  · rw [← swept.shrinks.size]
    exact inside
  · rw [← swept.shrinks.slot_of_live live]
    exact live

theorem Swept.owned_eq (live : (h.slot i).isFree = false) :
    owned tables h i = owned tables before i := by
  rw [owned, swept.shrinks.slot_of_live live, owned]

theorem Swept.collects {freed : List Nat} (live : (h.slot i).isFree = false)
    (unmarked : marks i = false) (inside : i < h.size) (collects : Collects tables h h' i freed) :
    Swept tables before marks (i + 1) h' := by
  obtain ⟨frees, walked, -⟩ := collects
  have lost : ∀ n ∈ i :: freed, 1 ≤ n ∧ n < h.size ∧ (h.slot n).isFree = false := by
    intro n member
    rcases List.mem_cons.mp member with rfl | nested
    · exact ⟨swept.positive, inside, live⟩
    · obtain ⟨row, walks⟩ := walked n nested
      obtain ⟨one, bound, kind⟩ := walks.record
      exact ⟨one, bound, not_isFree_of_struct kind⟩
  refine ⟨by omega, swept.configured, swept.shrinks.trans frees.shrinks, ?_, ?_⟩
  · rintro j ⟨free, alive⟩
    by_cases member : j ∈ i :: freed
    · refine ⟨i, Nat.lt_succ_self i, swept.dead live unmarked inside, ?_⟩
      rcases List.mem_cons.mp member with rfl | nested
      · exact .inl rfl
      · exact .inr (swept.shrinks.contains tables live (walked j nested))
    · rw [frees.slot_of_not_mem member] at free
      obtain ⟨k, earlier, rest⟩ := swept.doomed j ⟨free, alive⟩
      exact ⟨k, by omega, rest⟩
  · intro j
    rw [frees.shardFrees.mem_iff, List.mem_append, swept.listed j, frees.size]
    constructor
    · rintro (member | ⟨one, bound, isFree, early⟩)
      · obtain ⟨one, bound, alive⟩ := lost j member
        refine ⟨one, bound, by rw [frees.slot_of_mem member]; rfl, .inr ?_⟩
        rw [← swept.shrinks.slot_of_live alive]
        exact alive
      · refine ⟨one, bound, ?_, early.imp_left (fun h => by omega)⟩
        rw [frees.slot_of_not_mem fun member => by simp [(lost j member).2.2] at isFree]
        exact isFree
    · rintro ⟨one, bound, isFree, early⟩
      by_cases member : j ∈ i :: freed
      · exact .inl member
      · rw [frees.slot_of_not_mem member] at isFree
        refine .inr ⟨one, bound, isFree, early.imp_left fun early => ?_⟩
        have other : j ≠ i := fun same => member (same ▸ List.mem_cons_self)
        omega

theorem Swept.step (inside : i < before.size) (run : sweepSlot tables marks h i = some h') :
    Swept tables before marks (i + 1) h' := by
  have bound : i < h.size := by rw [swept.shrinks.size]; exact inside
  rcases sweepSlot_cases tables (swept.shrinks.configured swept.configured) run with
    ⟨free, rfl⟩ | ⟨live, -, rfl⟩ | ⟨live, unmarked, freed, collects⟩
  · exact swept.pushes free bound
  · exact swept.keeps live
  · exact swept.collects live unmarked bound collects

end Step

theorem swept_sweepPhase {h h' : Heap} {marks : Nat → Bool} (configured : h.shards ≠ [])
    (nonempty : 1 ≤ h.size) (run : sweepPhase tables marks h = some h') :
    Swept tables h marks h.size h' := by
  have done := countedLoop_invariant (Swept tables h marks) h.size
    (fun _ _ _ inside swept step => swept.step inside step) (by omega)
    (swept_clearAll tables marks configured) run
  rwa [Nat.add_sub_cancel' nonempty] at done

/-! ## Typed heaps

When every by-value cell refers to a record of the row it declares, what one release leaves alone cannot be
below anything it freed.
-/

def Typed (h : Heap) : Prop :=
  ∀ i y, h.Holds i (owned tables h i) y → (h.slot y.1).structIdx = y.2

theorem owned_struct {h : Heap} {i row : Nat} (kind : (h.slot i).kind = .struct)
    (typed : (h.slot i).structIdx = row) : owned tables h i = tables.nestedCells row := by
  simp [owned, byValueCells, kind, typed]

theorem depth_lt_of_chain {h : Heap} {x y : Nat × Nat} (chain : TransGen (Edge tables h) x y) :
    tables.depth y.2 < tables.depth x.2 := by
  induction chain with
  | single edge =>
    obtain ⟨k, member, -⟩ := edge
    have smaller := tables.depth_nestedCells member
    exact smaller
  | tail _ edge ih =>
    obtain ⟨k, member, -⟩ := edge
    have smaller := tables.depth_nestedCells member
    exact Nat.lt_trans smaller ih

section Typed
variable {tables} {h : Heap} (typed : Typed tables h)
include typed

theorem Typed.walks {i : Nat} {y : Nat × Nat} (walks : Walks tables h i (owned tables h i) y) :
    (h.slot y.1).structIdx = y.2 := by
  obtain ⟨x, holds, chain⟩ := walks
  induction chain with
  | refl => exact typed i x holds
  | @tail middle last before edge ih =>
    have kind := (Walks.record tables ⟨x, holds, before⟩).2.2
    refine typed middle.1 last ?_
    rw [owned_struct tables kind ih]
    exact edge

theorem Typed.simple (i : Nat) : Simple tables h i (owned tables h i) := by
  constructor
  · intro y walks same
    have kind := walks.record.2.2
    have row := typed.walks walks
    rw [same] at kind row
    rw [owned_struct tables kind rfl] at walks
    have smaller := depth_lt_of_chain tables
      ((walks_nestedCells tables (x := (i, (h.slot i).structIdx))).mp walks)
    rw [row] at smaller
    exact Nat.lt_irrefl _ smaller
  · intro x y walks chain same
    obtain ⟨root, holds, reach⟩ := walks
    have rowX := typed.walks ⟨root, holds, reach⟩
    have rowY := typed.walks ⟨root, holds, reach.trans chain.to_reflTransGen⟩
    have smaller := depth_lt_of_chain tables chain
    rw [same, rowX] at rowY
    rw [rowY] at smaller
    exact Nat.lt_irrefl _ smaller

end Typed

structure Cleared (before : Heap) (marks : Nat → Bool) (i : Nat) (h : Heap) : Prop where
  swept : Swept tables before marks i h
  dead : ∀ k, k < i → Dead before marks k → Gone before h k
  closed : ∀ j, Gone before h j → ∀ y, before.Holds j (owned tables before j) y → Gone before h y.1

section Cleared
variable {tables} {before h h' : Heap} {marks : Nat → Bool} {i : Nat}
variable (typed : Typed tables before) (cleared : Cleared tables before marks i h)
include typed cleared

theorem Cleared.collects {freed : List Nat} (live : (h.slot i).isFree = false)
    (unmarked : marks i = false) (inside : i < h.size) (collects : Collects tables h h' i freed) :
    Cleared tables before marks (i + 1) h' := by
  have swept := cleared.swept
  have shrinks := swept.shrinks
  have simple : Simple tables h i (owned tables h i) := by
    rw [swept.owned_eq live]
    exact shrinks.simple tables (typed.simple i)
  have lost : ∀ n ∈ i :: freed, (h.slot n).isFree = false := by
    intro n member
    rcases List.mem_cons.mp member with rfl | nested
    · exact live
    · obtain ⟨row, walks⟩ := collects.walked n nested
      exact not_isFree_of_struct walks.record.2.2
  have gone_iff : ∀ j, Gone before h' j ↔ Gone before h j ∨ j ∈ i :: freed := by
    intro j
    by_cases member : j ∈ i :: freed
    · refine iff_of_true ⟨by rw [collects.frees.slot_of_mem member]; rfl, ?_⟩ (.inr member)
      rw [← shrinks.slot_of_live (lost j member)]
      exact lost j member
    · simp only [Gone, collects.frees.slot_of_not_mem member, member, or_false]
  -- a struct held in the heap before the sweep is held now, or went with an earlier owner
  have still : ∀ n cells y, (h.slot n).isFree = false → before.Holds n cells y →
      Gone before h y.1 ∨ h.Holds n cells y := by
    intro n cells y alive holds
    obtain ⟨k, member, found⟩ := holds
    obtain ⟨positive, index, bound, kind⟩ := structRef_eq_some.mp found
    by_cases free : (h.slot y.1).isFree = true
    · exact .inl ⟨free, not_isFree_of_struct kind⟩
    · rw [Bool.not_eq_true] at free
      refine .inr ⟨k, member, structRef_eq_some.mpr ?_⟩
      rw [cell, shrinks.slot_of_live alive, shrinks.slot_of_live free, shrinks.size]
      exact ⟨positive, index, bound, kind⟩
  refine ⟨swept.collects live unmarked inside collects, ?_, ?_⟩
  · intro k early dead
    rw [gone_iff]
    rcases Nat.lt_succ_iff_lt_or_eq.mp early with earlier | rfl
    · exact .inl (cleared.dead k earlier dead)
    · exact .inr List.mem_cons_self
  · intro j gone y holds
    rw [gone_iff] at gone ⊢
    rcases gone with earlier | now
    · exact .inl (cleared.closed j earlier y holds)
    · rcases still j _ y (lost j now) holds with early | held
      · exact .inl early
      · refine .inr (List.mem_cons_of_mem _ ?_)
        rcases List.mem_cons.mp now with rfl | nested
        · rw [← swept.owned_eq live] at held
          exact collects.direct simple y held
        · obtain ⟨row, walks, children⟩ := collects.closed simple j nested
          refine children y ?_
          have before_walks := swept.owned_eq live ▸ shrinks.walks tables walks
          rw [owned_struct tables before_walks.record.2.2 (typed.walks before_walks)] at held
          exact held

theorem Cleared.step (inside : i < before.size) (run : sweepSlot tables marks h i = some h') :
    Cleared tables before marks (i + 1) h' := by
  have swept := cleared.swept
  have bound : i < h.size := by rw [swept.shrinks.size]; exact inside
  rcases sweepSlot_cases tables (swept.shrinks.configured swept.configured) run with
    ⟨free, rfl⟩ | ⟨live, marked, rfl⟩ | ⟨live, unmarked, freed, collects⟩
  · refine ⟨swept.pushes free bound, ?_, cleared.closed⟩
    intro k early dead
    rcases Nat.lt_succ_iff_lt_or_eq.mp early with earlier | rfl
    · exact cleared.dead k earlier dead
    · exact ⟨free, dead.2.2.1⟩
  · refine ⟨swept.keeps live, ?_, cleared.closed⟩
    intro k early dead
    rcases Nat.lt_succ_iff_lt_or_eq.mp early with earlier | rfl
    · exact cleared.dead k earlier dead
    · rw [dead.2.2.2] at marked
      cases marked
  · exact cleared.collects typed live unmarked bound collects

theorem Cleared.contains {k j : Nat} (early : k < i) (dead : Dead before marks k)
    (contains : Contains tables before k j) : Gone before h j := by
  obtain ⟨row, x, holds, chain⟩ := contains
  have first := cleared.closed k (cleared.dead k early dead) x holds
  suffices all : ∀ y, ReflTransGen (Edge tables before) x y → Gone before h y.1 from all _ chain
  intro y chain
  induction chain with
  | refl => exact first
  | @tail middle last reach edge ih =>
    have walks : Walks tables before k (owned tables before k) middle := ⟨x, holds, reach⟩
    refine cleared.closed middle.1 ih last ?_
    rw [owned_struct tables walks.record.2.2 (typed.walks walks)]
    exact edge

end Cleared

theorem cleared_clearAll {h : Heap} (marks : Nat → Bool) (configured : h.shards ≠ []) :
    Cleared tables h marks 1 h.clearAll := by
  have swept := swept_clearAll tables marks configured
  have none : ∀ j, ¬ Gone h h.clearAll j := by
    intro j gone
    obtain ⟨k, early, dead, -⟩ := swept.doomed j gone
    have positive := dead.1
    omega
  refine ⟨swept, ?_, fun j gone => absurd gone (none j)⟩
  intro k early dead
  have positive := dead.1
  omega

end Heap
end NLang.Vm
