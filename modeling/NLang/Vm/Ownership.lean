import NLang.Vm.Alloc
import NLang.Vm.FreeList
import NLang.Vm.MarkCompleteness

/-!
# Struct values and the marks

The release of a dead owner looks at slot kinds and not at marks, so the sweep keeps a marked struct only
if no dead record contains it. Heaps built by the executor refer to records of the declared rows, which makes
that condition exact.
-/

namespace NLang.Vm
open Relation NLang.Library.Loops NLang.Library.Runs

theorem mem_structFields {fields : List FieldEntry} {p structIdx : Nat} :
    (p, structIdx) ∈ structFields fields ↔
      ∃ field, fields[p]? = some field ∧ field.kind = .struct ∧ field.structIdx = some structIdx := by
  unfold structFields
  rw [List.mem_filterMap]
  constructor
  · rintro ⟨⟨field, q⟩, member, found⟩
    have position := List.mem_zipIdx_iff_getElem?.mp member
    simp only at found position
    split at found
    · rename_i kind idx
      cases found
      exact ⟨field, position, kind, idx⟩
    · cases found
  · rintro ⟨field, position, kind, idx⟩
    refine ⟨(field, p), List.mem_zipIdx_iff_getElem?.mpr position, ?_⟩
    simp only [kind, idx]

namespace Heap
variable (tables : TypeTables)

theorem mem_nestedCells {structIdx k s : Nat} (member : (k, s) ∈ tables.nestedCells structIdx) :
    ∃ p field, k = 2 * p ∧ (tables.structRow structIdx).fields[p]? = some field ∧
      field.kind = .struct ∧ field.structIdx = some s := by
  obtain ⟨⟨p, row⟩, inFields, same⟩ := List.mem_map.mp member
  obtain ⟨rfl, rfl⟩ := Prod.mk.inj same
  obtain ⟨field, found⟩ := mem_structFields.mp inFields
  exact ⟨p, field, rfl, found⟩

theorem mem_ownedCells {classIdx k s : Nat} (member : (k, s) ∈ tables.ownedCells classIdx) :
    ∃ p field, k = 2 * p + 1 ∧ (tables.classFields classIdx)[p]? = some field ∧
      field.kind = .struct ∧ field.structIdx = some s := by
  obtain ⟨⟨p, row⟩, inFields, same⟩ := List.mem_map.mp member
  obtain ⟨rfl, rfl⟩ := Prod.mk.inj same
  obtain ⟨field, found⟩ := mem_structFields.mp inFields
  exact ⟨p, field, rfl, found⟩

theorem four_le_arrayPayloadBase {slot : Slot} {base : Nat} (payload : slot.arrayPayloadBase = some base) :
    4 ≤ base := by
  simp only [Slot.arrayPayloadBase] at payload
  split at payload
  · cases payload
  · split at payload
    · cases payload
    · split at payload
      · cases payload
      · cases payload
        simp only [arrayHeaderCells]
        omega

theorem mem_structElementCells {elemTypeIdx base k s : Nat} {length : Int}
    (member : (k, s) ∈ structElementCells elemTypeIdx base length) : base ≤ k ∧ s = elemTypeIdx := by
  obtain ⟨p, -, same⟩ := List.mem_map.mp member
  obtain ⟨rfl, rfl⟩ := Prod.mk.inj same
  exact ⟨Nat.le_add_right _ _, rfl⟩

variable {tables}

theorem byValueCells_functional {slot : Slot} {k s s' : Nat} (one : (k, s) ∈ byValueCells tables slot)
    (two : (k, s') ∈ byValueCells tables slot) : s = s' := by
  have sameField : ∀ (fields : List FieldEntry) (p q : Nat) (field other : FieldEntry), p = q → fields[p]? = some field →
      fields[q]? = some other → field.structIdx = some s → other.structIdx = some s' → s = s' := by
    rintro fields p q field other rfl found found' idx idx'
    rw [found] at found'
    cases found'
    rw [idx] at idx'
    exact Option.some.inj idx'
  cases kind : slot.kind with
  | cls =>
    simp only [byValueCells, kind] at one two
    obtain ⟨p, field, same, found, -, idx⟩ := mem_ownedCells tables one
    obtain ⟨q, other, same', found', -, idx'⟩ := mem_ownedCells tables two
    exact sameField _ p q field other (by omega) found found' idx idx'
  | struct =>
    simp only [byValueCells, kind] at one two
    obtain ⟨p, field, same, found, -, idx⟩ := mem_nestedCells tables one
    obtain ⟨q, other, same', found', -, idx'⟩ := mem_nestedCells tables two
    exact sameField _ p q field other (by omega) found found' idx idx'
  | array =>
    simp only [byValueCells, kind] at one two
    split at one
    · split at one
      · simp_all only [if_true]
        exact (mem_structElementCells one).2.trans (mem_structElementCells two).2.symm
      · cases one
    · cases one
  | _ => simp [byValueCells, kind] at one

theorem getD_set_of_ne {cells : List Int} {k j : Nat} (value : Int) (ne : k ≠ j) :
    (cells.set k value).getD j 0 = cells.getD j 0 := by
  simp [List.getD, List.getElem?_set_ne ne]

theorem arrayPayloadBase_set (slot : Slot) {k : Nat} (value : Int) (ne : k ≠ 2) :
    ({ slot with cells := slot.cells.set k value } : Slot).arrayPayloadBase = slot.arrayPayloadBase := by
  simp only [Slot.arrayPayloadBase, List.length_set, getD_set_of_ne value ne]

theorem byValueCells_set {slot : Slot} {k s : Nat} (value : Int)
    (member : (k, s) ∈ byValueCells tables slot) :
    byValueCells tables { slot with cells := slot.cells.set k value } = byValueCells tables slot := by
  unfold byValueCells at member ⊢
  split at member
  · rename_i kind
    obtain ⟨p, -, rfl, -⟩ := mem_ownedCells tables member
    simp only [kind, getD_set_of_ne value (show 2 * p + 1 ≠ 0 by omega)]
  · rename_i kind
    simp only [kind]
  · rename_i kind
    split at member
    · rename_i arrayType base row payload
      split at member
      · have inside := (mem_structElementCells member).1
        have header := four_le_arrayPayloadBase payload
        have notRank : k ≠ 2 := by omega
        have notLength : k ≠ 3 := by omega
        have payload' := arrayPayloadBase_set slot value notRank
        rw [payload] at payload'
        simp only [kind] at payload'
        simp only [kind, row, payload', getD_set_of_ne value notLength]
      · cases member
    · cases member
  · cases member

theorem arrayPayloadBase_link {slot : Slot} {k s : Nat} (value : Int)
    (member : (k, s) ∈ byValueCells tables slot) (kind : slot.kind = .array) :
    ({ slot with cells := slot.cells.set k value } : Slot).arrayPayloadBase = slot.arrayPayloadBase := by
  simp only [byValueCells, kind] at member
  split at member
  · rename_i arrayType base row payload
    split at member
    · have inside := (mem_structElementCells member).1
      have header := four_le_arrayPayloadBase payload
      exact arrayPayloadBase_set slot value (by omega)
    · cases member
  · cases member

variable (tables) in
def Linked (h : Heap) : Prop :=
  ∀ i k s, (k, s) ∈ owned tables h i →
    h.cell i k = 0 ∨ ∃ n, h.structRef (h.cell i k) = some n ∧ (h.slot n).structIdx = s

variable (tables) in
structure Built (h : Heap) : Prop where
  sound : FreeListSound h []
  linked : Linked tables h
  formed : ArraysFormed h
  beyond : ∀ j, j = 0 ∨ h.size ≤ j → h.slot j = {}

theorem Linked.typed {h : Heap} (linked : Linked tables h) : Typed tables h := by
  rintro i y ⟨k, member, found⟩
  rcases linked i k y.2 member with zero | ⟨n, same, row⟩
  · rw [zero] at found
    exact absurd (structRef_eq_some.mp found).1 (Int.lt_irrefl 0)
  · rw [found] at same
    cases same
    exact row

section Steps
variable {h h' : Heap}

theorem takeHeapSlot_slot {shard quantum i : Nat} (beyond : ∀ j, j = 0 ∨ h.size ≤ j → h.slot j = {})
    (taken : h.takeHeapSlot shard quantum = some (i, h')) :
    h'.slot = h.slot ∧ h.size ≤ h'.size := by
  have grown : (h.growHeapShardBlockLocked shard quantum).slot = h.slot := by
    funext j
    simp only [growHeapShardBlockLocked]
    split
    · rename_i fresh
      exact (beyond j (.inr fresh.1)).symm
    · rfl
  unfold takeHeapSlot at taken
  by_cases empty : h.shards.getD shard [] = []
  · simp only [empty, if_true] at taken
    split at taken
    · cases taken
    · cases taken
      exact ⟨grown, Nat.le_add_right _ _⟩
  · simp only [empty, if_false] at taken
    split at taken
    · cases taken
    · cases taken
      exact ⟨rfl, Nat.le_refl _⟩

theorem structRef_of_struct {value : Int} {n : Nat} (found : h.structRef value = some n)
    (size : h.size ≤ h'.size) (same : (h'.slot n).kind = .struct) : h'.structRef value = some n := by
  obtain ⟨positive, index, inside, -⟩ := structRef_eq_some.mp found
  exact structRef_eq_some.mpr ⟨positive, index, Nat.lt_of_lt_of_le inside size, same⟩

theorem newRecord_built {shard quantum i : Nat} {slot : Slot} (built : Built tables h)
    (inside : shard < h.shards.length) (positive : 0 < quantum) (live : slot.isFree = false)
    (zeros : ∀ cell ∈ byValueCells tables slot, slot.cells.getD cell.1 0 = 0)
    (formed : slot.kind = .array → slot.arrayPayloadBase ≠ none)
    (run : h.newRecord shard quantum slot = some (i, h')) : Built tables h' := by
  obtain ⟨j, taken, popped, -, -, after⟩ := takeHeapSlot_sound built.sound inside positive
  obtain ⟨slots, size⟩ := takeHeapSlot_slot built.beyond popped
  simp only [newRecord, popped, Option.map_some, Option.some.injEq, Prod.mk.injEq] at run
  obtain ⟨rfl, rfl⟩ := run
  obtain ⟨one, fits, isFree⟩ := (after.listed j).mp (.inl List.mem_cons_self)
  have sound := after.store List.mem_cons_self live
  rw [List.erase_cons_head] at sound
  refine ⟨sound, ?_, ?_, ?_⟩
  · intro m k s member
    by_cases same : m = j
    · subst same
      left
      simp only [owned, setSlot_slot_self] at member
      simpa [cell] using zeros (k, s) member
    · simp only [owned, setSlot_slot_of_ne _ _ _ _ same, slots] at member
      simp only [cell, setSlot_slot_of_ne _ _ _ _ same, slots]
      rcases built.linked m k s member with zero | ⟨n, found, row⟩
      · exact .inl zero
      · -- the new record took a free slot, so the struct is elsewhere
        have kind := (structRef_eq_some.mp found).2.2.2
        have apart : n ≠ j := by
          rintro rfl
          rw [slots, not_isFree_of_struct kind] at isFree
          cases isFree
        have sameSlot : (taken.setSlot j slot).slot n = h.slot n := by
          rw [setSlot_slot_of_ne _ _ _ _ apart, slots]
        refine .inr ⟨n, structRef_of_struct found size (by rw [sameSlot]; exact kind), ?_⟩
        rw [sameSlot]
        exact row
  · intro m kind
    by_cases same : m = j
    · subst same
      rw [setSlot_slot_self] at kind ⊢
      exact formed kind
    · rw [setSlot_slot_of_ne _ _ _ _ same, slots] at kind ⊢
      exact built.formed m kind
  · intro m outside
    rw [setSlot_size] at outside
    have apart : m ≠ j := by
      rintro rfl
      omega
    rw [setSlot_slot_of_ne _ _ _ _ apart, slots]
    exact built.beyond m (outside.imp_right (Nat.le_trans size))

theorem storeCell_slot_of_ne (h : Heap) {i j : Nat} (k : Nat) (value : Int) (ne : j ≠ i) :
    (h.storeCell i k value).slot j = h.slot j := by simp [storeCell, ne]

theorem storeCell_slot_self (h : Heap) (i k : Nat) (value : Int) :
    (h.storeCell i k value).slot i = { h.slot i with cells := (h.slot i).cells.set k value } := by
  simp [storeCell]

theorem storeCell_kind (h : Heap) (i k : Nat) (value : Int) (j : Nat) :
    ((h.storeCell i k value).slot j).kind = (h.slot j).kind ∧
      ((h.storeCell i k value).slot j).structIdx = (h.slot j).structIdx := by
  by_cases same : j = i
  · subst same
    rw [storeCell_slot_self]
    exact ⟨rfl, rfl⟩
  · rw [storeCell_slot_of_ne _ _ _ same]
    exact ⟨rfl, rfl⟩

theorem storeCell_built {i k : Nat} {value : Int} (built : Built tables h) (live : (h.slot i).isFree = false)
    (layout : byValueCells tables { h.slot i with cells := (h.slot i).cells.set k value } =
      owned tables h i)
    (formed : (h.slot i).kind = .array →
      ({ h.slot i with cells := (h.slot i).cells.set k value } : Slot).arrayPayloadBase ≠ none)
    (typed : ∀ s, (k, s) ∈ owned tables h i →
      ∃ n, h.structRef value = some n ∧ (h.slot n).structIdx = s) :
    Built tables (h.storeCell i k value) := by
  have kinds := storeCell_kind h i k value
  have refs : ∀ v n, h.structRef v = some n → (h.storeCell i k value).structRef v = some n := by
    intro v n found
    refine structRef_of_struct found (Nat.le_refl _) ?_
    rw [(kinds n).1]
    exact (structRef_eq_some.mp found).2.2.2
  refine ⟨⟨built.sound.configured, built.sound.sentinel, built.sound.nodup, ?_⟩, ?_, ?_, ?_⟩
  · intro j
    have listed := built.sound.listed j
    simp only [Slot.isFree] at listed ⊢
    rw [(kinds j).1]
    exact listed
  · intro m j s member
    have link : ∀ v, (h.cell m j = v ∨ v = value ∧ m = i ∧ k = j) → (j, s) ∈ owned tables h m →
        v = 0 ∨ ∃ n, (h.storeCell i k value).structRef v = some n ∧
          ((h.storeCell i k value).slot n).structIdx = s := by
      rintro v (rfl | ⟨rfl, rfl, rfl⟩) declared
      · rcases built.linked m j s declared with zero | ⟨n, found, row⟩
        · exact .inl zero
        · exact .inr ⟨n, refs _ n found, by rw [(kinds n).2]; exact row⟩
      · obtain ⟨n, found, row⟩ := typed s declared
        exact .inr ⟨n, refs _ n found, by rw [(kinds n).2]; exact row⟩
    by_cases same : m = i
    · subst same
      simp only [owned, storeCell_slot_self] at member
      rw [layout] at member
      refine link _ ?_ member
      simp only [cell, storeCell_slot_self]
      by_cases position : k = j
      · subst position
        by_cases fits : k < (h.slot m).cells.length
        · simp [fits]
        · left
          rw [List.set_eq_of_length_le (by omega)]
      · left
        rw [getD_set_of_ne value position]
    · simp only [owned, storeCell_slot_of_ne _ _ _ same] at member
      refine link _ (.inl ?_) member
      simp only [cell, storeCell_slot_of_ne _ _ _ same]
  · intro j kind
    by_cases same : j = i
    · subst same
      rw [storeCell_slot_self] at kind ⊢
      exact formed kind
    · rw [storeCell_slot_of_ne _ _ _ same] at kind ⊢
      exact built.formed j kind
  · intro j outside
    have apart : j ≠ i := by
      rintro rfl
      rw [built.beyond j outside] at live
      cases live
    rw [storeCell_slot_of_ne _ _ _ apart]
    exact built.beyond j outside

end Steps

variable (tables) in
def MarkedUnshared (h : Heap) (marks : Nat → Bool) : Prop :=
  ∀ i, Dead h marks i → ∀ j, Contains tables h i j → marks j = false

def KeepsMarked (h : Heap) (marks : Nat → Bool) (h' : Heap) : Prop :=
  ∀ j, (h.slot j).isFree = false → marks j = true → h'.slot j = h.slot j

theorem sweepPhase_keepsMarked {h h' : Heap} {marks : Nat → Bool} (configured : h.shards ≠ [])
    (sentinel : 1 ≤ h.size) (unshared : MarkedUnshared tables h marks)
    (run : sweepPhase tables marks h = some h') : KeepsMarked h marks h' := by
  have swept := swept_sweepPhase tables configured sentinel run
  intro j live marked
  by_cases gone : (h'.slot j).isFree = true
  · obtain ⟨k, -, dead, rfl | contains⟩ := swept.doomed j ⟨gone, live⟩
    · rw [dead.2.2.2] at marked
      cases marked
    · rw [unshared k dead j contains] at marked
      cases marked
  · exact swept.shrinks.slot_of_live (by simpa using gone)

theorem cleared_sweepPhase {h h' : Heap} {marks : Nat → Bool} (typed : Typed tables h)
    (configured : h.shards ≠ []) (sentinel : 1 ≤ h.size)
    (run : sweepPhase tables marks h = some h') : Cleared tables h marks h.size h' := by
  have done := countedLoop_invariant (Cleared tables h marks) h.size
    (fun _ _ _ inside cleared step => cleared.step typed inside step)
    (Nat.le_of_eq (Nat.add_sub_cancel' sentinel)) (cleared_clearAll tables marks configured) run
  rwa [Nat.add_sub_cancel' sentinel] at done

theorem markedUnshared_of_keeps {h h' : Heap} {marks : Nat → Bool} (typed : Typed tables h)
    (configured : h.shards ≠ []) (sentinel : 1 ≤ h.size)
    (run : sweepPhase tables marks h = some h') (keeps : KeepsMarked h marks h') :
    MarkedUnshared tables h marks := by
  have cleared := cleared_sweepPhase typed configured sentinel run
  intro i dead j contains
  obtain ⟨gone, live⟩ := cleared.contains typed dead.2.1 dead contains
  by_contra marked
  rw [keeps j live (by simpa using marked), live] at gone
  cases gone

variable (tables) in
def MarksClosed (h : Heap) (strings : StringStore) (marks : Nat → Bool) : Prop :=
  ∀ i j, marks i = true → TraceEdge tables h strings (.record i) (.record j) → marks j = true

theorem mem_testRef_of_structRef {h : Heap} (strings : StringStore) {value : Int} {n : Nat}
    (found : h.structRef value = some n) :
    ∃ action ∈ h.testRef (declaredFieldAcceptsRuntime .struct) value,
      .record n ∈ action.targets h strings := by
  obtain ⟨positive, rfl, inside, kind⟩ := structRef_eq_some.mp found
  have inRange : h.inRange value = true := by simp [Heap.inRange, positive, inside]
  have accepts : declaredFieldAcceptsRuntime .struct (h.refKind value) = true := by
    rw [refKind, kind]
    rfl
  refine ⟨.record value, ?_, ?_⟩
  · simp [testRef, inRange, accepts]
  · simp [MarkAction.targets, MarkAction.recordTargets, inRange]

theorem traceEdge_of_holds {h : Heap} (strings : StringStore) {i : Nat} {y : Nat × Nat}
    (holds : h.Holds i (owned tables h i) y) :
    TraceEdge tables h strings (.record i) (.record y.1) := by
  obtain ⟨k, member, found⟩ := holds
  obtain ⟨action, tested, target⟩ := mem_testRef_of_structRef strings found
  have arm : ∀ actions, h.markRecord tables i = some actions → action ∈ actions →
      TraceEdge tables h strings (.record i) (.record y.1) :=
    fun actions run inArm => ⟨actions, run, action, inArm, target⟩
  cases kind : (h.slot i).kind with
  | cls =>
    simp only [owned, byValueCells, kind] at member
    obtain ⟨p, field, rfl, position, isStruct, -⟩ := mem_ownedCells tables member
    refine arm _ (by rw [markRecord, kind]) ?_
    simp only [List.mem_append, markClassFields]
    refine .inl (.inl (.inl (List.mem_flatMap.mpr ⟨(field, p), ?_, ?_⟩)))
    · exact List.mem_zipIdx_iff_getElem?.mpr position
    · simp only [isStruct]
      exact tested
  | struct =>
    simp only [owned, byValueCells, kind] at member
    obtain ⟨p, field, rfl, position, isStruct, -⟩ := mem_nestedCells tables member
    refine arm _ (by rw [markRecord, kind]) ?_
    refine List.mem_flatMap.mpr ⟨(field, p), List.mem_zipIdx_iff_getElem?.mpr position, ?_⟩
    simp only [isStruct]
    exact tested
  | array =>
    simp only [owned, byValueCells, kind] at member
    split at member
    · rename_i arrayType base row payload
      split at member
      · rename_i structs
        obtain ⟨p, inside, same⟩ := List.mem_map.mp member
        obtain ⟨rfl, -⟩ := Prod.mk.inj same
        refine arm _ (by simp only [markRecord, kind, markArrayElements, row, payload]; rfl) ?_
        refine List.mem_flatMap.mpr ⟨p, inside, ?_⟩
        have oneCell : arrayElemCells .struct = 1 := rfl
        simp only [structs, oneCell, Nat.mul_one]
        exact tested
      · cases member
    · cases member
  | _ => simp [owned, byValueCells, kind] at member

theorem sweepPhase_built {h h' : Heap} {strings : StringStore} {marks : Nat → Bool}
    (built : Built tables h) (closed : MarksClosed tables h strings marks)
    (ordered : OwnersLast tables h marks) (unshared : MarkedUnshared tables h marks)
    (run : sweepPhase tables marks h = some h') : Built tables h' := by
  have configured := built.sound.configured
  have sentinel := built.sound.sentinel
  have typed := built.linked.typed
  have cleared := cleared_sweepPhase typed configured sentinel run
  have keeps := sweepPhase_keepsMarked configured sentinel unshared run
  have shrinks := cleared.swept.shrinks
  refine ⟨sweepPhase_freeListSound tables built.sound ordered run, ?_,
    shrinks.arraysFormed built.formed, ?_⟩
  · intro i k s member
    by_cases free : (h'.slot i).isFree = true
    · have kind : (h'.slot i).kind = .int32 := by simpa [Slot.isFree] using free
      simp [owned, byValueCells, kind] at member
    rw [Bool.not_eq_true] at free
    have same := shrinks.slot_of_live free
    simp only [owned, same] at member
    simp only [cell, same]
    rcases built.linked i k s member with zero | ⟨n, found, row⟩
    · exact .inl zero
    · -- a survivor is marked, so the struct in its cell is marked and stays
      have real : ¬ (i = 0 ∨ h.size ≤ i) := by
        intro outside
        rw [built.beyond i outside] at member
        cases member
      have one : 1 ≤ i := by omega
      have bound : i < h.size := by omega
      have marked : marks i = true := by
        by_contra unmarked
        have gone := cleared.dead i bound ⟨one, bound, by rw [← same]; exact free, by simpa using unmarked⟩
        rw [gone.1] at free
        cases free
      have kept := keeps n (not_isFree_of_struct (structRef_eq_some.mp found).2.2.2)
        (closed i n marked (traceEdge_of_holds strings (y := (n, s)) ⟨k, member, found⟩))
      refine .inr ⟨n, structRef_of_struct found (Nat.le_of_eq shrinks.size.symm) ?_, ?_⟩
      · rw [kept]
        exact (structRef_eq_some.mp found).2.2.2
      · rw [kept]
        exact row
  · intro j outside
    rcases shrinks.slot j with same | cleared
    · rw [same]
      exact built.beyond j (shrinks.size ▸ outside)
    · rw [cleared, built.beyond j (shrinks.size ▸ outside)]
      rfl

theorem init_built (carriers : Nat) (table : SideKind → SideTable) :
    Built tables (init carriers table) where
  sound := init_freeListSound carriers table
  linked i k s member := by cases member
  formed i kind := by cases kind
  beyond _ _ := rfl

end Heap

/-- What the opcodes, the serializer and the collector do to records: store a new record whose by-value cells
are empty, put a struct into a by-value cell of its row (a fresh one, a copy, or one that another record
contains already), store into any other cell, collect. -/
inductive BuildAction where
  | record (shard : Nat) (slot : Slot)
  | link (i k n : Nat)
  | write (i k : Nat) (value : Int)
  | collect (marks : Nat → Bool)

namespace BuildAction
open Heap
variable (tables : TypeTables) (quantum : Nat)

def step (h : Heap) : BuildAction → Option Heap
  | .record shard slot =>
    if shard < h.shards.length ∧ slot.isFree = false ∧
        (∀ cell ∈ byValueCells tables slot, slot.cells.getD cell.1 0 = 0) ∧
        (slot.kind = .array → slot.arrayPayloadBase ≠ none) then
      (h.newRecord shard quantum slot).map (·.2)
    else none
  | .link i k n =>
    if (h.slot i).isFree = false ∧ h.structRef n = some n ∧
        (k, (h.slot n).structIdx) ∈ owned tables h i then
      some (h.storeCell i k n)
    else none
  | .write i k value =>
    let stored : Slot := { h.slot i with cells := (h.slot i).cells.set k value }
    if (h.slot i).isFree = false ∧ (∀ cell ∈ owned tables h i, cell.1 ≠ k) ∧
        byValueCells tables stored = owned tables h i ∧
        ((h.slot i).kind = .array → stored.arrayPayloadBase ≠ none) then
      some (h.storeCell i k value)
    else none
  | .collect marks => sweepPhase tables marks h

def Meets (strings : StringStore) (h : Heap) : BuildAction → Prop
  | .collect marks => MarksClosed tables h strings marks ∧ OwnersLast tables h marks ∧
      MarkedUnshared tables h marks
  | _ => True

variable {tables quantum}

theorem step_built {strings : StringStore} (positive : 0 < quantum) (h : Heap) (action : BuildAction)
    (h' : Heap) (built : Built tables h) (met : Meets tables strings h action)
    (taken : step tables quantum h action = some h') : Built tables h' := by
  cases action with
  | record shard slot =>
    simp only [step] at taken
    split at taken
    · rename_i allowed
      obtain ⟨inside, live, zeros, formed⟩ := allowed
      obtain ⟨⟨i, after⟩, run, rfl⟩ := Option.map_eq_some_iff.mp taken
      exact newRecord_built built inside positive live zeros formed run
    · cases taken
  | link i k n =>
    simp only [step] at taken
    split at taken
    · rename_i allowed
      obtain ⟨live, target, declared⟩ := allowed
      cases taken
      refine storeCell_built built live (byValueCells_set _ declared) ?_ ?_
      · intro kind
        rw [arrayPayloadBase_link _ declared kind]
        exact built.formed i kind
      · intro s member
        exact ⟨n, target, byValueCells_functional declared member⟩
    · cases taken
  | write i k value =>
    simp only [step] at taken
    split at taken
    · rename_i allowed
      obtain ⟨live, apart, layout, formed⟩ := allowed
      cases taken
      refine storeCell_built built live layout formed ?_
      intro s member
      exact absurd rfl (apart (k, s) member)
    · cases taken
  | collect marks =>
    obtain ⟨closed, ordered, unshared⟩ := met
    exact sweepPhase_built built closed ordered unshared taken

end BuildAction

/-- The sweep keeps every marked record exactly when no dead record contains a marked struct. The condition
is enough on any heap; on heaps that refer to records of the declared rows, as all heaps the executor builds
do, it is also necessary. -/
theorem sweep_keeps_marked_iff (tables : TypeTables) :
    (∀ (h h' : Heap) (marks : Nat → Bool), h.shards ≠ [] → 1 ≤ h.size →
      h.sweepPhase tables marks = some h' →
        (h.MarkedUnshared tables marks → h.KeepsMarked marks h') ∧
        (h.Typed tables → (h.KeepsMarked marks h' ↔ h.MarkedUnshared tables marks))) ∧
    ∀ (carriers quantum : Nat) (table : SideKind → SideTable) (strings : StringStore) (h : Heap),
      0 < quantum → Run (BuildAction.step tables quantum) (BuildAction.Meets tables strings)
        (Heap.init carriers table) h →
      ∀ marks, h.MarksClosed tables strings marks → ∃ h', h.sweepPhase tables marks = some h' ∧
        (h.KeepsMarked marks h' ↔ h.MarkedUnshared tables marks) := by
  have exactly : ∀ (h h' : Heap) (marks : Nat → Bool), h.shards ≠ [] → 1 ≤ h.size →
      h.sweepPhase tables marks = some h' →
        (h.MarkedUnshared tables marks → h.KeepsMarked marks h') ∧
        (h.Typed tables → (h.KeepsMarked marks h' ↔ h.MarkedUnshared tables marks)) := by
    intro h h' marks configured sentinel run
    have enough := fun unshared => Heap.sweepPhase_keepsMarked configured sentinel unshared run
    exact ⟨enough, fun typed =>
      ⟨Heap.markedUnshared_of_keeps typed configured sentinel run, enough⟩⟩
  refine ⟨exactly, ?_⟩
  intro carriers quantum table strings h positive run marks _
  have built := run.invariant (Heap.Built tables) (Heap.init_built carriers table)
    (BuildAction.step_built positive)
  obtain ⟨h', swept⟩ := Heap.sweepPhase_total tables marks built.sound.configured built.formed
  exact ⟨h', swept,
    (exactly h h' marks built.sound.configured built.sound.sentinel swept).2 built.linked.typed⟩

def vectorTables : TypeTables where
  structs := [⟨[{ kind := .int32 }]⟩]
  classes := []
  arrayTypes := [{ elemKind := .struct, elemTypeIdx := some 0 }]
  depth := fun _ => 0
  depth_lt := TypeTables.depth_lt_int32

theorem eq_of_recordTarget {h : Heap} {strings : StringStore} {value : Int} {j : Nat}
    (target : .record j ∈ (MarkAction.record value).targets h strings) : j = value.toNat := by
  simp only [MarkAction.targets, MarkAction.recordTargets] at target
  split at target
  · cases List.mem_singleton.mp target
    rfl
  · cases target

theorem marksClosed_below {tables : TypeTables} {h : Heap} {strings : StringStore} {last : Nat}
    (inside : ∀ i ≤ last, ∀ actions, h.markRecord tables i = some actions → ∀ action ∈ actions,
      ∃ value : Int, action = .record value ∧ value.toNat ≤ last) :
    h.MarksClosed tables strings fun i => i ≤ last := by
  intro i j marked edge
  obtain ⟨actions, arm, action, member, target⟩ := edge
  obtain ⟨value, rfl, small⟩ := inside i (of_decide_eq_true marked) actions arm action member
  rw [eq_of_recordTarget target]
  exact decide_eq_true small

/-- A struct, an array that contains it, and a struct that nothing refers to. -/
def linkedActions : List BuildAction :=
  let point : Slot := { kind := .struct, cells := [0, 0] }
  [.record 0 point, .record 0 { kind := .array, cells := [Heap.rtkArrayCode, 0, 1, 1, 1, 0, 0] }, .link 2 6 1,
    .record 0 point]

theorem sweep_keeps_marked_linked :
    ∃ h h', linkedActions.foldlM (BuildAction.step vectorTables 1) (Heap.init 0 fun _ => {}) = some h ∧
      h.cell 2 6 = 1 ∧ h.sweepPhase vectorTables (fun i => i ≤ 2) = some h' ∧
      (h'.slot 3).isFree = true ∧ h.KeepsMarked (fun i => i ≤ 2) h' := by
  refine ⟨_, _, rfl, rfl, rfl, rfl, ?_⟩
  have allowed : ∀ action ∈ linkedActions, ∀ h, BuildAction.Meets vectorTables noStrings h action := by
    simp [linkedActions, BuildAction.Meets]
  have run := Run.refl.actions allowed
    (show linkedActions.foldlM (BuildAction.step vectorTables 1) (Heap.init 0 fun _ => {}) = some _ from rfl)
  obtain ⟨h', swept, exactly⟩ := (sweep_keeps_marked_iff vectorTables).2 0 1 _ noStrings _ (by decide) run
    (fun i => i ≤ 2) <| by
      apply marksClosed_below
      intro i small actions arm action member
      match i, small with
      | 0, _ | 1, _ =>
        cases arm
        cases member
      | 2, _ =>
        cases arm
        cases List.mem_singleton.mp member
        exact ⟨_, rfl, by decide⟩
  cases swept
  apply exactly.mpr
  -- the dead record is the struct, and its row has no by-value field
  rintro i ⟨-, bound, -, dead⟩ j ⟨row, x, ⟨k, member, found⟩, chain⟩
  have third : i = 3 := by
    have above := of_decide_eq_false dead
    have below : i < 4 := bound
    omega
  subst third
  cases member

def materializedHeap : Option Heap := do
  let (array, h) ← (Heap.init 0 fun _ => {}).allocArrayOnHeap vectorTables 0 1 0 [1]
  let (view, h) ← h.allocViewOnHeap vectorTables 0 1 0 [1] [1] 0 array
  let (_, h) ← h.materializeViewRecord vectorTables 0 1 view
  return h

theorem sweepPhase_frees_shared_struct :
    ∃ h h', materializedHeap = some h ∧
      h.MarksClosed vectorTables noStrings (fun i => i ≤ 3) ∧
      h.sweepPhase vectorTables (fun i => i ≤ 3) = some h' ∧
      (h.slot 2).kind = .struct ∧ (h'.slot 2).kind = .int32 ∧
      ¬ h.KeepsMarked (fun i => i ≤ 3) h' := by
  refine ⟨_, _, rfl, ?_, rfl, rfl, rfl, ?_⟩
  · apply marksClosed_below
    intro i small actions arm action member
    have few : i = 0 ∨ i = 2 ∨ i = 1 ∨ i = 3 := by omega
    rcases few with rfl | rfl | rfl | rfl
    · cases arm
      cases member
    · cases arm
      cases member
    · cases arm
      cases List.mem_singleton.mp member
      exact ⟨2, rfl, by decide⟩
    · cases arm
      cases List.mem_singleton.mp member
      exact ⟨1, rfl, by decide⟩
  · intro keeps
    have kept := keeps 2 rfl rfl
    cases congrArg Slot.kind kept

end NLang.Vm
