import NLang.Vm.Sweep

/-!
# What the sweep releases

`Edge` is the step of `FreeNestedStructs` from a record seen at one struct row to a nested record seen at
the row its field declares. A release clears exactly some records that such steps reach, and pushes
each of them once unless a walk comes back to where it is.
-/

namespace NLang.Vm
open Relation NLang.Library.Loops

namespace Heap
variable (tables : TypeTables)

def Holds (h : Heap) (i : Nat) (cells : List (Nat × Nat)) (target : Nat × Nat) : Prop :=
  ∃ k, (k, target.2) ∈ cells ∧ h.structRef (h.cell i k) = some target.1

def Edge (h : Heap) (x y : Nat × Nat) : Prop := h.Holds x.1 (tables.nestedCells x.2) y

def Walks (h : Heap) (i : Nat) (cells : List (Nat × Nat)) (y : Nat × Nat) : Prop :=
  ∃ x, h.Holds i cells x ∧ ReflTransGen (Edge tables h) x y

def Simple (h : Heap) (i : Nat) (cells : List (Nat × Nat)) : Prop :=
  (∀ y, Walks tables h i cells y → y.1 ≠ i) ∧
    ∀ x y, Walks tables h i cells x → TransGen (Edge tables h) x y → y.1 ≠ x.1

theorem structRef_eq_some {h : Heap} {value : Int} {n : Nat} :
    h.structRef value = some n ↔
      0 < value ∧ value.toNat = n ∧ n < h.size ∧ (h.slot n).kind = .struct := by
  unfold structRef
  split
  · rename_i valid
    constructor
    · intro found
      cases found
      exact ⟨valid.1, rfl, valid.2⟩
    · rintro ⟨-, rfl, -⟩
      rfl
  · rename_i invalid
    constructor
    · intro found
      cases found
    · rintro ⟨positive, rfl, inside, kind⟩
      exact absurd ⟨positive, inside, kind⟩ invalid

theorem Holds.record {h : Heap} {i : Nat} {cells : List (Nat × Nat)} {y : Nat × Nat}
    (holds : h.Holds i cells y) : 1 ≤ y.1 ∧ y.1 < h.size ∧ (h.slot y.1).kind = .struct := by
  obtain ⟨k, -, found⟩ := holds
  obtain ⟨positive, index, inside, kind⟩ := structRef_eq_some.mp found
  exact ⟨by omega, inside, kind⟩

theorem Walks.record {h : Heap} {i : Nat} {cells : List (Nat × Nat)} {y : Nat × Nat}
    (walks : Walks tables h i cells y) : 1 ≤ y.1 ∧ y.1 < h.size ∧ (h.slot y.1).kind = .struct := by
  obtain ⟨x, holds, chain⟩ := walks
  cases chain with
  | refl => exact holds.record
  | tail _ last => exact Holds.record last

theorem walks_nestedCells {h : Heap} {x y : Nat × Nat} :
    Walks tables h x.1 (tables.nestedCells x.2) y ↔ TransGen (Edge tables h) x y := by
  rw [TransGen.head'_iff]
  rfl

theorem Simple.nested {h : Heap} {i : Nat} {cells : List (Nat × Nat)} {x : Nat × Nat}
    (simple : Simple tables h i cells) (walks : Walks tables h i cells x) :
    Simple tables h x.1 (tables.nestedCells x.2) := by
  constructor
  · intro y inner
    exact simple.2 x y walks ((walks_nestedCells tables).mp inner)
  · intro y z inner chain
    obtain ⟨root, holds, reach⟩ := walks
    have toY := ((walks_nestedCells tables).mp inner).to_reflTransGen
    exact simple.2 y z ⟨root, holds, reach.trans toY⟩ chain

structure Shrinks (h h' : Heap) : Prop where
  size : h'.size = h.size
  carriers : h'.shards.length = h.shards.length
  slot : ∀ j, h'.slot j = h.slot j ∨ h'.slot j = (h.slot j).cleared

theorem Shrinks.refl (h : Heap) : Shrinks h h := ⟨rfl, rfl, fun _ => .inl rfl⟩

section Shrinks
variable {h h' : Heap} (shrinks : Shrinks h h')
include shrinks

theorem Shrinks.configured (configured : h.shards ≠ []) : h'.shards ≠ [] := by
  have positive := List.length_pos_of_ne_nil configured
  exact List.ne_nil_of_length_pos (by rw [shrinks.carriers]; exact positive)

theorem Shrinks.structRef {value : Int} {n : Nat} (found : h'.structRef value = some n) :
    h.structRef value = some n ∧ h'.slot n = h.slot n := by
  obtain ⟨positive, target, inside, kind⟩ := structRef_eq_some.mp found
  rcases shrinks.slot n with same | cleared
  · rw [same] at kind
    rw [shrinks.size] at inside
    exact ⟨structRef_eq_some.mpr ⟨positive, target, inside, kind⟩, same⟩
  · rw [cleared] at kind
    cases kind

theorem Shrinks.holds {i : Nat} {cells : List (Nat × Nat)} {y : Nat × Nat}
    (holds : h'.Holds i cells y) : h.Holds i cells y := by
  obtain ⟨k, member, found⟩ := holds
  refine ⟨k, member, ?_⟩
  rcases shrinks.slot i with same | cleared
  · have sameCell : h'.cell i k = h.cell i k := by rw [Heap.cell, same, Heap.cell]
    rw [← sameCell]
    exact (shrinks.structRef found).1
  · -- a cleared record has no cells, and the zero read from it refers to nothing
    have zero : h'.cell i k = 0 := by simp [Heap.cell, cleared, Slot.cleared]
    rw [zero] at found
    exact absurd (structRef_eq_some.mp found).1 (Int.lt_irrefl 0)

theorem Shrinks.walks {i : Nat} {cells : List (Nat × Nat)} {y : Nat × Nat}
    (walks : Walks tables h' i cells y) : Walks tables h i cells y := by
  obtain ⟨x, holds, chain⟩ := walks
  exact ⟨x, shrinks.holds holds, ReflTransGen.mono (fun _ _ edge => shrinks.holds edge) _ _ chain⟩

theorem Shrinks.simple {i : Nat} {cells : List (Nat × Nat)} (simple : Simple tables h i cells) :
    Simple tables h' i cells :=
  ⟨fun y walks => simple.1 y (shrinks.walks tables walks),
    fun x y walks chain => simple.2 x y (shrinks.walks tables walks)
      (TransGen.mono (fun _ _ edge => shrinks.holds edge) _ _ chain)⟩

end Shrinks

theorem Shrinks.trans {h h' h'' : Heap} (first : Shrinks h h') (second : Shrinks h' h'') :
    Shrinks h h'' where
  size := second.size.trans first.size
  carriers := second.carriers.trans first.carriers
  slot j := by
    rcases second.slot j with same | cleared
    · rw [same]
      exact first.slot j
    · rcases first.slot j with before | before <;> rw [before] at cleared
      · exact .inr cleared
      · exact .inr cleared

structure Frees (h h' : Heap) (freed : List Nat) : Prop where
  size : h'.size = h.size
  carriers : h'.shards.length = h.shards.length
  slot : ∀ j, h'.slot j = if j ∈ freed then (h.slot j).cleared else h.slot j
  shardFrees : h'.freeIndices.Perm (freed ++ h.freeIndices)

theorem Frees.refl (h : Heap) : Frees h h [] := ⟨rfl, rfl, fun _ => rfl, .refl _⟩

theorem Frees.shrinks {h h' : Heap} {freed : List Nat} (frees : Frees h h' freed) :
    Shrinks h h' where
  size := frees.size
  carriers := frees.carriers
  slot j := by
    rw [frees.slot j]
    split
    · exact .inr rfl
    · exact .inl rfl

theorem Frees.slot_of_not_mem {h h' : Heap} {freed : List Nat} (frees : Frees h h' freed) {j : Nat}
    (kept : j ∉ freed) : h'.slot j = h.slot j := by rw [frees.slot, if_neg kept]

theorem Frees.slot_of_mem {h h' : Heap} {freed : List Nat} (frees : Frees h h' freed) {j : Nat}
    (member : j ∈ freed) : h'.slot j = (h.slot j).cleared := by rw [frees.slot, if_pos member]

theorem Frees.trans {h h' h'' : Heap} {first second : List Nat} (one : Frees h h' first)
    (two : Frees h' h'' second) : Frees h h'' (second ++ first) where
  size := two.size.trans one.size
  carriers := two.carriers.trans one.carriers
  slot j := by
    rw [two.slot, one.slot]
    by_cases late : j ∈ second <;> by_cases early : j ∈ first <;> simp [late, early]
  shardFrees := by
    rw [List.append_assoc]
    exact two.shardFrees.trans (one.shardFrees.append_left second)

theorem freeSlot_frees {h : Heap} (configured : h.shards ≠ []) (n : Nat) :
    Frees h (h.freeSlot n) [n] where
  size := rfl
  carriers := by simp [freeSlot]
  slot j := by
    by_cases same : j = n
    · subst same
      simp [freeSlot]
    · simp [freeSlot, same]
  shardFrees := heapSweepPush_freeIndices _ _ configured

theorem Frees.holds_of_not_mem {h h' : Heap} {freed : List Nat} (frees : Frees h h' freed)
    {i : Nat} {cells : List (Nat × Nat)} {y : Nat × Nat} (kept : i ∉ freed) (target : y.1 ∉ freed)
    (holds : h.Holds i cells y) : h'.Holds i cells y := by
  obtain ⟨k, member, found⟩ := holds
  refine ⟨k, member, ?_⟩
  have sameCell : h'.cell i k = h.cell i k := by rw [Heap.cell, frees.slot_of_not_mem kept, Heap.cell]
  obtain ⟨positive, index, inside, kind⟩ := structRef_eq_some.mp found
  rw [sameCell]
  refine structRef_eq_some.mpr ⟨positive, index, ?_, ?_⟩
  · rw [frees.size]
    exact inside
  · rw [frees.slot_of_not_mem target]
    exact kind

structure Releases (h h' : Heap) (i : Nat) (cells : List (Nat × Nat)) (freed : List Nat) : Prop where
  frees : Frees h h' freed
  walked : ∀ n ∈ freed, ∃ row, Walks tables h i cells (n, row)
  nodup : Simple tables h i cells → freed.Nodup
  direct : Simple tables h i cells → ∀ y, h.Holds i cells y → y.1 ∈ freed
  closed : Simple tables h i cells → ∀ n ∈ freed, ∃ row, Walks tables h i cells (n, row) ∧
    ∀ y, Edge tables h (n, row) y → y.1 ∈ freed

theorem Holds.cons {h : Heap} {i : Nat} {cell : Nat × Nat} {cells : List (Nat × Nat)} {y : Nat × Nat}
    (holds : h.Holds i cells y) : h.Holds i (cell :: cells) y := by
  obtain ⟨k, member, found⟩ := holds
  exact ⟨k, List.mem_cons_of_mem _ member, found⟩

theorem Walks.cons {h : Heap} {i : Nat} {cell : Nat × Nat} {cells : List (Nat × Nat)} {y : Nat × Nat}
    (walks : Walks tables h i cells y) : Walks tables h i (cell :: cells) y := by
  obtain ⟨x, holds, chain⟩ := walks
  exact ⟨x, holds.cons, chain⟩

theorem Simple.tail {h : Heap} {i : Nat} {cell : Nat × Nat} {cells : List (Nat × Nat)}
    (simple : Simple tables h i (cell :: cells)) : Simple tables h i cells :=
  ⟨fun y walks => simple.1 y walks.cons, fun x y walks chain => simple.2 x y walks.cons chain⟩

theorem releaseRef_releases {walk : Heap → Nat → Nat → Heap} {h : Heap} {i : Nat} {cell : Nat × Nat}
    (configured : h.shards ≠ [])
    (nested : ∀ n, ∃ freed, Releases tables h (walk h n cell.2) n (tables.nestedCells cell.2) freed) :
    ∃ freed, Releases tables h (releaseRef walk h (h.cell i cell.1) cell.2) i [cell] freed := by
  have holds_iff : ∀ y, h.Holds i [cell] y ↔
      y.2 = cell.2 ∧ h.structRef (h.cell i cell.1) = some y.1 := by
    intro y
    constructor
    · rintro ⟨k, member, found⟩
      cases List.mem_singleton.mp member
      exact ⟨rfl, found⟩
    · rintro ⟨row, found⟩
      exact ⟨cell.1, by rw [row]; exact List.mem_singleton.mpr rfl, found⟩
  unfold releaseRef
  cases found : h.structRef (h.cell i cell.1) with
  | none =>
    refine ⟨[], .refl h, by simp, by simp, ?_, by simp⟩
    intro _ y holds
    rw [((holds_iff y).mp holds).2] at found
    cases found
  | some n =>
    obtain ⟨freed, inner⟩ := nested n
    have root : h.Holds i [cell] (n, cell.2) := (holds_iff _).mpr ⟨rfl, found⟩
    have enters : Walks tables h i [cell] (n, cell.2) := ⟨_, root, .refl⟩
    -- a walk inside the nested record continues the walk that entered it
    have deepens : ∀ y, Walks tables h n (tables.nestedCells cell.2) y → Walks tables h i [cell] y := by
      intro y walks
      exact ⟨_, root, ((walks_nestedCells tables (x := (n, cell.2))).mp walks).to_reflTransGen⟩
    have own := freeSlot_frees (inner.frees.shrinks.configured configured) n
    refine ⟨n :: freed, inner.frees.trans own, ?_, ?_, ?_, ?_⟩
    · intro m member
      rcases List.mem_cons.mp member with rfl | later
      · exact ⟨_, enters⟩
      · obtain ⟨row, walks⟩ := inner.walked m later
        exact ⟨row, deepens _ walks⟩
    · intro simple
      have innerSimple := simple.nested tables enters
      refine List.nodup_cons.mpr ⟨?_, inner.nodup innerSimple⟩
      intro again
      obtain ⟨row, walks⟩ := inner.walked n again
      exact innerSimple.1 _ walks rfl
    · intro _ y holds
      have same := ((holds_iff y).mp holds).2
      rw [found] at same
      cases same
      exact List.mem_cons_self
    · intro simple m member
      have innerSimple := simple.nested tables enters
      rcases List.mem_cons.mp member with rfl | later
      · exact ⟨cell.2, enters, fun y edge =>
          List.mem_cons_of_mem _ (inner.direct innerSimple y edge)⟩
      · obtain ⟨row, walks, children⟩ := inner.closed innerSimple m later
        exact ⟨row, deepens _ walks, fun y edge => List.mem_cons_of_mem _ (children y edge)⟩

theorem Holds.of_singleton {h : Heap} {i : Nat} {cell : Nat × Nat} {cells : List (Nat × Nat)}
    {y : Nat × Nat} (holds : h.Holds i [cell] y) : h.Holds i (cell :: cells) y := by
  obtain ⟨k, member, found⟩ := holds
  exact ⟨k, by rw [List.mem_singleton.mp member]; exact List.mem_cons_self, found⟩

theorem Walks.of_singleton {h : Heap} {i : Nat} {cell : Nat × Nat} {cells : List (Nat × Nat)}
    {y : Nat × Nat} (walks : Walks tables h i [cell] y) : Walks tables h i (cell :: cells) y := by
  obtain ⟨x, holds, chain⟩ := walks
  exact ⟨x, holds.of_singleton, chain⟩

theorem Releases.cons {h h' h'' : Heap} {i : Nat} {cell : Nat × Nat} {cells : List (Nat × Nat)}
    {first second : List Nat} (one : Releases tables h h' i [cell] first)
    (two : Releases tables h' h'' i cells second) :
    Releases tables h h'' i (cell :: cells) (second ++ first) := by
  have shrinks := one.frees.shrinks
  have headSimple : Simple tables h i (cell :: cells) → Simple tables h i [cell] := fun simple =>
    ⟨fun y walks => simple.1 y walks.of_singleton,
      fun x y walks chain => simple.2 x y walks.of_singleton chain⟩
  have tailSimple : Simple tables h i (cell :: cells) → Simple tables h' i cells := fun simple =>
    shrinks.simple tables simple.tail
  have fresh : ∀ n ∈ second, n ∉ first := by
    intro n late early
    obtain ⟨row, walks⟩ := two.walked n late
    have kind := walks.record.2.2
    rw [one.frees.slot_of_mem early] at kind
    cases kind
  refine ⟨one.frees.trans two.frees, ?_, ?_, ?_, ?_⟩
  · intro n member
    rcases List.mem_append.mp member with late | early
    · obtain ⟨row, walks⟩ := two.walked n late
      exact ⟨row, (shrinks.walks tables walks).cons⟩
    · obtain ⟨row, walks⟩ := one.walked n early
      exact ⟨row, walks.of_singleton⟩
  · intro simple
    refine List.nodup_append.mpr ⟨two.nodup (tailSimple simple), one.nodup (headSimple simple), ?_⟩
    rintro n late m early rfl
    exact fresh n late early
  · intro simple y holds
    obtain ⟨k, member, found⟩ := holds
    by_cases early : y.1 ∈ first
    · exact List.mem_append_right _ early
    rcases List.mem_cons.mp member with rfl | inTail
    · exact absurd (one.direct (headSimple simple) y ⟨_, List.mem_singleton.mpr rfl, found⟩) early
    · -- the owner itself is not released, so its other cells still hold what they held
      have owner : i ∉ first := by
        intro returned
        obtain ⟨row, walks⟩ := one.walked i returned
        exact simple.1 _ walks.of_singleton rfl
      have still := one.frees.holds_of_not_mem owner early ⟨k, inTail, found⟩
      exact List.mem_append_left _ (two.direct (tailSimple simple) y still)
  · intro simple n member
    rcases List.mem_append.mp member with late | early
    · obtain ⟨row, walks, children⟩ := two.closed (tailSimple simple) n late
      refine ⟨row, (shrinks.walks tables walks).cons, ?_⟩
      intro y edge
      by_cases earlier : y.1 ∈ first
      · exact List.mem_append_right _ earlier
      · have still := one.frees.holds_of_not_mem (fresh n late) earlier edge
        exact List.mem_append_left _ (children y still)
    · obtain ⟨row, walks, children⟩ := one.closed (headSimple simple) n early
      exact ⟨row, walks.of_singleton, fun y edge => List.mem_append_right _ (children y edge)⟩

theorem releaseCells_releases {walk : Heap → Nat → Nat → Heap} {i : Nat} (cells : List (Nat × Nat))
    (nested : ∀ cell ∈ cells, ∀ (h : Heap) (n : Nat), h.shards ≠ [] →
      ∃ freed, Releases tables h (walk h n cell.2) n (tables.nestedCells cell.2) freed)
    {h : Heap} (configured : h.shards ≠ []) :
    ∃ freed, Releases tables h (releaseCells walk h i cells) i cells freed := by
  induction cells generalizing h with
  | nil =>
    refine ⟨[], .refl h, by simp, by simp, ?_, by simp⟩
    rintro _ y ⟨k, member, -⟩
    cases member
  | cons cell cells ih =>
    obtain ⟨first, one⟩ := releaseRef_releases tables (i := i) configured
      fun n => nested cell List.mem_cons_self h n configured
    obtain ⟨second, two⟩ := ih (fun c member => nested c (List.mem_cons_of_mem _ member))
      (one.frees.shrinks.configured configured)
    exact ⟨second ++ first, one.cons tables two⟩

theorem freeNestedStructs_releases {h : Heap} (configured : h.shards ≠ []) (i structIdx : Nat) :
    ∃ freed, Releases tables h (freeNestedStructs tables h i structIdx) i
      (tables.nestedCells structIdx) freed := by
  -- by-value containment is well founded, so the rows get smaller
  induction depth : tables.depth structIdx using Nat.strongRecOn generalizing h i structIdx with
  | _ depth ih =>
    rw [freeNestedStructs_eq]
    refine releaseCells_releases tables _ ?_ configured
    intro cell member h n configured
    have smaller := tables.depth_nestedCells member
    exact ih _ (by omega) configured n cell.2 rfl

def byValueCells (slot : Slot) : List (Nat × Nat) :=
  match slot.kind with
  | .cls => tables.ownedCells (sizeCast (slot.cells.getD 0 0))
  | .struct => tables.nestedCells slot.structIdx
  | .array =>
    match tables.arrayTypes[slot.structIdx]?, slot.arrayPayloadBase with
    | some arrayType, some base =>
      if arrayType.elemKind = .struct then
        structElementCells (arrayType.elemTypeIdx.getD 0xFFFF) base (slot.cells.getD 3 0)
      else []
    | _, _ => []
  | _ => []

def owned (h : Heap) (i : Nat) : List (Nat × Nat) := byValueCells tables (h.slot i)

theorem freeOwnedArrayStructElements_some {h h' : Heap} {i : Nat} (kind : (h.slot i).kind = .array)
    (run : freeOwnedArrayStructElements tables h i = some h') :
    h' = releaseCells (freeNestedStructs tables) h i (owned tables h i) := by
  unfold freeOwnedArrayStructElements at run
  unfold owned byValueCells
  cases row : tables.arrayTypes[(h.slot i).structIdx]? with
  | none =>
    simp only [row, Option.some.injEq] at run
    subst run
    simp only [kind, releaseCells, List.foldl_nil]
  | some arrayType =>
    by_cases structs : arrayType.elemKind = .struct
    · simp only [row, if_pos structs] at run
      obtain ⟨base, payload, rfl⟩ := Option.map_eq_some_iff.mp run
      simp only [kind, if_pos structs, payload, cell]
    · simp only [row, if_neg structs, Option.some.injEq] at run
      subst run
      cases payload : (h.slot i).arrayPayloadBase with
      | none => simp only [kind, releaseCells, List.foldl_nil]
      | some base => simp only [kind, if_neg structs, releaseCells, List.foldl_nil]

theorem sweepSlot_some {marks : Nat → Bool} {h h' : Heap} {i : Nat}
    (run : sweepSlot tables marks h i = some h') :
    ((h.slot i).isFree = true ∧ h' = h.heapSweepPush i) ∨
    ((h.slot i).isFree = false ∧ marks i = true ∧ h' = h) ∨
    ((h.slot i).isFree = false ∧ marks i = false ∧ ∃ table, h' =
      (releaseCells (freeNestedStructs tables) { h with table } i (owned tables h i)).freeSlot i) := by
  unfold sweepSlot at run
  by_cases free : (h.slot i).isFree = true
  · rw [if_pos free] at run
    exact .inl ⟨free, (Option.some.inj run).symm⟩
  rw [if_neg free] at run
  rw [Bool.not_eq_true] at free
  by_cases marked : marks i = true
  · rw [if_pos marked] at run
    exact .inr (.inl ⟨free, marked, (Option.some.inj run).symm⟩)
  rw [if_neg marked] at run
  rw [Bool.not_eq_true] at marked
  refine .inr (.inr ⟨free, marked, ?_⟩)
  split at run
  · rename_i kind
    refine ⟨(h.recycleClassContainerHandles i).table, ?_⟩
    rw [← Option.some.inj run, freeOwnedStructs, recycleClassContainerHandles_eq, owned, byValueCells,
      kind]
    rfl
  · rename_i kind
    refine ⟨h.table, ?_⟩
    rw [← Option.some.inj run, freeNestedStructs_eq, owned, byValueCells, kind]
  · rename_i kind
    obtain ⟨released, found, rfl⟩ := Option.map_eq_some_iff.mp run
    exact ⟨h.table, by rw [freeOwnedArrayStructElements_some tables kind found]⟩
  · refine ⟨h.table, ?_⟩
    have none : owned tables h i = [] := by
      unfold owned byValueCells
      split
      · contradiction
      · contradiction
      · contradiction
      · rfl
    rw [← Option.some.inj run, none]
    rfl

structure Collects (h h' : Heap) (i : Nat) (freed : List Nat) : Prop where
  frees : Frees h h' (i :: freed)
  walked : ∀ n ∈ freed, ∃ row, Walks tables h i (owned tables h i) (n, row)
  nodup : Simple tables h i (owned tables h i) → (i :: freed).Nodup
  direct : Simple tables h i (owned tables h i) → ∀ y, h.Holds i (owned tables h i) y → y.1 ∈ freed
  closed : Simple tables h i (owned tables h i) → ∀ n ∈ freed, ∃ row,
    Walks tables h i (owned tables h i) (n, row) ∧ ∀ y, Edge tables h (n, row) y → y.1 ∈ freed

theorem freeSlot_collects {h : Heap} {i : Nat} (table : SideKind → SideTable)
    (configured : h.shards ≠ []) :
    ∃ freed, Collects tables h ((releaseCells (freeNestedStructs tables) { h with table } i
      (owned tables h i)).freeSlot i) i freed := by
  obtain ⟨freed, releases⟩ := releaseCells_releases tables (i := i) (owned tables h i)
    (fun cell _ h n configured => freeNestedStructs_releases tables configured n cell.2)
    (h := { h with table }) configured
  have same : Frees h _ freed :=
    ⟨releases.frees.size, releases.frees.carriers, releases.frees.slot, releases.frees.shardFrees⟩
  have own := freeSlot_frees (same.shrinks.configured configured) i
  refine ⟨freed, same.trans own, releases.walked, ?_, releases.direct, releases.closed⟩
  intro simple
  refine List.nodup_cons.mpr ⟨?_, releases.nodup simple⟩
  intro returned
  obtain ⟨row, walks⟩ := releases.walked i returned
  exact simple.1 _ walks rfl

theorem sweepSlot_cases {marks : Nat → Bool} {h h' : Heap} {i : Nat} (configured : h.shards ≠ [])
    (run : sweepSlot tables marks h i = some h') :
    ((h.slot i).isFree = true ∧ h' = h.heapSweepPush i) ∨
    ((h.slot i).isFree = false ∧ marks i = true ∧ h' = h) ∨
    ((h.slot i).isFree = false ∧ marks i = false ∧ ∃ freed, Collects tables h h' i freed) := by
  rcases sweepSlot_some tables run with pushed | kept | ⟨live, unmarked, table, rfl⟩
  · exact .inl pushed
  · exact .inr (.inl kept)
  · exact .inr (.inr ⟨live, unmarked, freeSlot_collects tables table configured⟩)

end Heap
end NLang.Vm
