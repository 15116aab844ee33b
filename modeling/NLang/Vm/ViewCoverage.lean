import NLang.Vm.RecordCopies
import NLang.Vm.Slices

/-!
# Every view covers its owner

Views come from slices and from native code, and a collection frees what it has not marked. A view that survives
keeps its owner, since the marks follow the target; an owner that was freed early is the one way to lose it.
-/

namespace NLang.Vm
open NLang.Library.Loops NLang.Library.Runs NLang.Library.RowMajor

namespace Heap
variable {tables : TypeTables} {h h' : Heap}

structure ViewFormed (tables : TypeTables) (h : Heap) (slot : Slot) : Prop extends ViewRecord tables h slot where
  strides : ∀ stride ∈ slot.viewStrides, fitsInt32 stride = true
  offset : fitsInt32 slot.viewOffset = true

structure ViewsFormed (tables : TypeTables) (h : Heap) : Prop where
  sound : FreeListSound h []
  arrays : ∀ i < h.size, (h.slot i).kind = .array → ArrayRecord tables (h.slot i)
  views : ∀ i < h.size, (h.slot i).kind = .arrayView → ViewFormed tables h (h.slot i)
  sentinel : (h.slot 0).kind ≠ .arrayView

theorem ViewFormed.later {g : Heap} {slot : Slot} (formed : ViewFormed tables h slot) (size : h.size ≤ g.size)
    (same : g.slot slot.viewTarget.toNat = h.slot slot.viewTarget.toNat) : ViewFormed tables g slot :=
  ⟨formed.toViewRecord.later size same, formed.strides, formed.offset⟩

theorem Keeps.known (keeps : Keeps h h') (new : Nat → Prop)
    (only : StructsOnly (fun j => new j ∨ (j < h.size ∧ (h.slot j).isFree = false)) h') {j : Nat} {kind : Rtk}
    (below : j < h'.size) (isKind : (h'.slot j).kind = kind) (live : kind ≠ .int32) (notStruct : kind ≠ .struct) :
    new j ∨ (j < h.size ∧ h'.slot j = h.slot j) := by
  have isLive : (h'.slot j).isFree = false := by simpa [Slot.isFree, isKind] using live
  rcases only j below isLive with (isNew | ⟨inside, old⟩) | isStruct
  · exact .inl isNew
  · exact .inr ⟨inside, keeps.slot j inside old⟩
  · exact absurd (isKind.symm.trans isStruct) notStruct

theorem ViewsFormed.grow (formed : ViewsFormed tables h) (keeps : Keeps h h') (new : Nat → Prop)
    (only : StructsOnly (fun j => new j ∨ (j < h.size ∧ (h.slot j).isFree = false)) h')
    (positive : ∀ j, new j → 0 < j) (arrays : ∀ j, new j → (h'.slot j).kind = .array → ArrayRecord tables (h'.slot j))
    (views : ∀ j, new j → (h'.slot j).kind = .arrayView → ViewFormed tables h' (h'.slot j)) : ViewsFormed tables h' := by
  refine ⟨keeps.sound, fun j below kind => ?_, fun j below kind => ?_, fun kind => ?_⟩
  · rcases keeps.known new only below kind (by decide) (by decide) with isNew | ⟨inside, same⟩
    · exact arrays j isNew kind
    · rw [same] at kind ⊢
      exact formed.arrays j inside kind
  · rcases keeps.known new only below kind (by decide) (by decide) with isNew | ⟨inside, same⟩
    · exact views j isNew kind
    · rw [same] at kind ⊢
      have old := formed.views j inside kind
      exact old.later keeps.size (keeps.slot _ old.target.2 old.owner.live)
  · have sentinel := Nat.lt_of_lt_of_le formed.sound.sentinel keeps.size
    rcases keeps.known new only sentinel kind (by decide) (by decide) with isNew | ⟨-, same⟩
    · exact absurd (positive 0 isNew) (Nat.lt_irrefl 0)
    · exact formed.sentinel (same ▸ kind)

theorem structsOnly_old (h : Heap) {new : Nat → Prop} : StructsOnly (fun j => new j ∨ (j < h.size ∧ (h.slot j).isFree = false)) h :=
  fun _ below live => .inl (.inr ⟨below, live⟩)

section Alloc
variable {shard quantum i : Nat}

theorem ViewsFormed.allocArray {arrayTypeIdx : Nat} {dims : List Int32} (formed : ViewsFormed tables h)
    (made : opAllocArrayN tables shard quantum h arrayTypeIdx dims = some (i, h')) : ViewsFormed tables h' := by
  rw [opAllocArrayN] at made
  split at made
  · cases made
  · rename_i rank
    obtain ⟨keeps, fresh, record, -⟩ := allocArrayOnHeap_record formed.sound (by rw [List.length_map]; omega) made
    refine formed.grow keeps (· = i) (allocArrayOnHeap_structsOnly (structsOnly_old h) (.inl rfl) made)
      (fun _ same => same ▸ fresh.positive) ?_ ?_
    · rintro _ rfl -
      exact record
    · rintro _ rfl kind
      rw [record.kind] at kind
      cases kind

theorem ViewsFormed.allocView {arrayTypeIdx : Nat} {dims strides : List Int} {offset targetIdx : Int} (formed : ViewsFormed tables h)
    (sameLength : strides.length = dims.length) (small : ∀ stride ∈ strides, fitsInt32 stride = true) (fits : fitsInt32 offset = true)
    (made : allocViewOnHeap tables shard quantum h arrayTypeIdx dims strides offset targetIdx = some (i, h')) :
    ViewsFormed tables h' := by
  obtain ⟨keeps, fresh, record, isStrides, isOffset⟩ := allocViewOnHeap_record formed.sound formed.arrays sameLength made
  obtain ⟨_, -, stored⟩ := Option.bind_eq_some_iff.mp made
  refine formed.grow keeps (· = i) (newRecord_structsOnly (structsOnly_old h) (.inl (.inl rfl)) stored)
    (fun _ same => same ▸ fresh.positive) ?_ ?_
  · rintro _ rfl kind
    rw [record.kind] at kind
    cases kind
  · rintro _ rfl -
    exact ⟨record, isStrides ▸ small, isOffset ▸ fits⟩

theorem fitsInt32_cast (value : Int) : fitsInt32 (int32Cast value) = true := by
  rw [fitsInt32, int32Cast, decide_eq_true_eq]
  exact ⟨Int.le_bmod (by decide), Int.bmod_lt (by decide)⟩

theorem fitsInt32_toInt (value : Int32) : fitsInt32 value.toInt = true := by
  rw [fitsInt32, decide_eq_true_eq]
  exact ⟨Int32.le_toInt value, Int32.toInt_lt value⟩

theorem foldOneSliceAxis_fits {len stride : Int} {start stop step : Option Int32} {st st' : SliceFold}
    (fits : ∀ axis ∈ st.axes, fitsInt32 axis.2 = true) (folded : foldOneSliceAxis len stride start stop step st = some st') :
    ∀ axis ∈ st'.axes, fitsInt32 axis.2 = true := by
  rw [foldOneSliceAxis] at folded
  obtain ⟨step', -, folded⟩ := Option.bind_eq_some_iff.mp folded
  split at folded
  · cases folded
  · obtain ⟨start', -, folded⟩ := Option.bind_eq_some_iff.mp folded
    obtain ⟨stop', -, folded⟩ := Option.bind_eq_some_iff.mp folded
    generalize (if decide (0 < step') = true ∧ start' < stop' then (int32Cast (stop' - start' + step' - 1)).tdiv step'
      else if ¬ decide (0 < step') = true ∧ stop' < start' then (int32Cast (start' - stop' - step' - 1)).tdiv (-step') else 0) =
      count at folded
    dsimp only at folded
    split at folded
    · cases folded
    · cases folded
      intro axis member
      rcases List.mem_cons.mp member with rfl | member
      · change fitsInt32 (sliceAxisStride _) = true
        rw [sliceAxisStride]
        split
        · assumption
        · decide
      · exact fits axis member

theorem foldlM_keeps {α β : Type} {f : β → α → Option β} (keeps : β → Prop)
    (step : ∀ b a next, keeps b → f b a = some next → keeps next) {as : List α} {b last : β} (start : keeps b)
    (folded : as.foldlM f b = some last) : keeps last := by
  induction as generalizing b with
  | nil =>
    cases folded
    exact start
  | cons a as ih =>
    obtain ⟨next, first, rest⟩ := Option.bind_eq_some_iff.mp (List.foldlM_cons.symm.trans folded)
    exact ih (step b a next start first) rest

theorem foldSliceAxes_fits {slot : Slot} {axes : List SliceAxis} {st : SliceFold} (folded : foldSliceAxes slot axes = some st) :
    ∀ axis ∈ st.axes, fitsInt32 axis.2 = true := by
  rw [foldSliceAxes] at folded
  refine foldlM_keeps (fun st => ∀ axis ∈ st.axes, fitsInt32 axis.2 = true) ?_ ?_ folded
  · rintro st ⟨axis, dim, stride⟩ next fits first
    cases axis with
    | scalar idx =>
      dsimp only at first
      split at first
      · cases first
      · cases first
        exact fits
    | slice start stop step => exact foldOneSliceAxis_fits fits first
  · exact List.forall_mem_nil _

theorem ViewsFormed.makeArrayView {arrHandle : Int} {arrayTypeIdx : Nat} {axes : List SliceAxis} (formed : ViewsFormed tables h)
    (made : opMakeArrayView tables shard quantum h arrHandle arrayTypeIdx axes = some (i, h')) : ViewsFormed tables h' := by
  rw [opMakeArrayView] at made
  split at made
  · cases made
  · obtain ⟨st, folded, made⟩ := Option.bind_eq_some_iff.mp made
    refine formed.allocView (by simp) (fun stride member => ?_) (fitsInt32_cast _) made
    obtain ⟨axis, inside, rfl⟩ := List.mem_map.mp member
    exact foldSliceAxes_fits folded axis (List.mem_reverse.mp inside)

theorem ViewsFormed.nativeView {targetHandle : Int} {axes : List (Int32 × Int32)} {offset : Int64} (formed : ViewsFormed tables h)
    (made : nativeNewArrayView tables shard quantum h targetHandle axes offset = some (i, h')) : ViewsFormed tables h' := by
  rw [nativeNewArrayView] at made
  split at made
  · cases made
  · rename_i checked
    obtain ⟨typeIdx, -, made⟩ := Option.bind_eq_some_iff.mp made
    refine formed.allocView (by simp) (fun stride member => ?_) (by simp only [not_or, Bool.not_eq_false] at checked; exact checked.2.2.1) made
    obtain ⟨axis, -, rfl⟩ := List.mem_map.mp member
    exact fitsInt32_toInt _

end Alloc

def storable (h : Heap) (i k : Nat) : Bool :=
  match (h.slot i).kind with
  | .int32 | .arrayView => false
  | .array => arrayHeaderCells (h.slot i).rank ≤ k
  | _ => true

theorem ViewsFormed.store {i k : Nat} {value : Int} (formed : ViewsFormed tables h) (allowed : storable h i k = true) :
    ViewsFormed tables (h.storeCell i k value) := by
  have others (j : Nat) (apart : j ≠ i) : (h.storeCell i k value).slot j = h.slot j := by
    rw [storeCell, setSlot_slot_of_ne _ _ _ _ apart]
  have kind : ((h.storeCell i k value).slot i).kind = (h.slot i).kind := by rw [storeCell, setSlot_slot_self]
  have array (below : i < h.size) (isArray : (h.slot i).kind = .array) := by
    have only : OnlyCells [k] (h.slot i) ((h.storeCell i k value).slot i) := by
      refine (Writes.storeCell formed.sound ⟨below, ?_⟩ k value).only
      rw [Slot.isFree, isArray]
      decide
    refine (formed.arrays i below isArray).later only fun cell member => ?_
    rw [storable, isArray] at allowed
    rw [List.mem_singleton.mp member]
    exact of_decide_eq_true allowed
  refine ⟨storeCell_sound formed.sound k value, fun j below isArray => ?_, fun j below isView => ?_, ?_⟩
  · by_cases same : j = i
    · subst same
      exact (array below (kind ▸ isArray)).1
    · rw [others j same] at isArray ⊢
      exact formed.arrays j below isArray
  · have apart : j ≠ i := by
      rintro rfl
      rw [kind] at isView
      rw [storable, isView] at allowed
      cases allowed
    rw [others j apart] at isView ⊢
    have view := formed.views j below isView
    by_cases owner : (h.slot j).viewTarget.toNat = i
    · have isArray : (h.slot i).kind = .array := owner ▸ view.owner.kind
      obtain ⟨record, dims, -, word⟩ := array (owner ▸ view.target.2) isArray
      exact ⟨view.toViewRecord.reshaped (Nat.le_refl _) (owner ▸ record) (by rw [owner, dims]) (by rw [owner, word]),
        view.strides, view.offset⟩
    · exact view.later (Nat.le_refl _) (others _ owner)
  · by_cases zero : 0 = i
    · subst zero
      rw [kind]
      exact formed.sentinel
    · rw [others 0 zero]
      exact formed.sentinel

theorem sweepPhase_marked {marks : Nat → Bool} (configured : h.shards ≠ []) (sentinel : 1 ≤ h.size)
    (run : sweepPhase tables marks h = some h') {i : Nat} (positive : 1 ≤ i) (below : i < h.size)
    (live : (h'.slot i).isFree = false) : marks i = true := by
  have done := countedLoop_invariant
    (fun k g => g.shards ≠ [] ∧ ∀ j, 1 ≤ j → j < k → (g.slot j).isFree = true ∨ marks j = true) h.size
    (fun k g g' _ inv step => ?_) (Nat.le_of_eq (Nat.add_sub_cancel' sentinel)) ⟨by simpa [clearAll] using configured, ?_⟩ run
  · rw [Nat.add_sub_cancel' sentinel] at done
    rcases done.2 i positive below with free | marked
    · rw [live] at free
      cases free
    · exact marked
  · have shrinks := sweepSlot_shrinks tables inv.1 step
    refine ⟨shrinks.configured inv.1, fun j one early => ?_⟩
    rcases Nat.lt_succ_iff_lt_or_eq.mp early with earlier | rfl
    · refine (inv.2 j one earlier).imp_left fun free => ?_
      rcases shrinks.slot j with same | cleared
      · rw [same, free]
      · rw [cleared, Slot.cleared_isFree]
    · rcases sweepSlot_cases tables inv.1 step with ⟨free, rfl⟩ | ⟨-, marked, -⟩ | ⟨-, -, freed, collects⟩
      · exact .inl (by rw [heapSweepPush_slot, free])
      · exact .inr marked
      · exact .inl (by rw [collects.frees.slot_of_mem List.mem_cons_self, Slot.cleared_isFree])
  · intro j one early
    omega

theorem ViewsFormed.markRecord (formed : ViewsFormed tables h) :
    ∀ i < h.size, h.markRecord tables i ≠ none := by
  intro i below failed
  cases kind : (h.slot i).kind with
  | array =>
    have record := formed.arrays i below kind
    obtain ⟨row, at_row, -⟩ := record.row
    rw [Heap.markRecord, kind] at failed
    simp only [markArrayElements, record.typeIdx, at_row, record.payloadBase, Option.map_some] at failed
    cases failed
  | arrayView =>
    have rank := (formed.views i below kind).rank
    rw [Heap.markRecord, kind] at failed
    simp only [markArrayViewTarget] at failed
    split at failed
    · rename_i outside
      change (h.slot i).word 2 < 1 ∨ (kMaxArrayRank : Int) < (h.slot i).word 2 at outside
      omega
    · cases failed
  | _ =>
    rw [Heap.markRecord, kind] at failed
    cases failed

theorem traceEdge_viewTarget {strings : StringStore} {i : Nat} (view : ViewRecord tables h (h.slot i)) :
    TraceEdge tables h strings (.record i) (.record (h.slot i).viewTarget.toNat) := by
  have rank := view.rank
  have target : h.inRange (h.slot i).viewTarget = true := decide_eq_true view.target
  have kind : h.refKind (h.slot i).viewTarget = .array := view.owner.kind
  refine ⟨[.record (h.slot i).viewTarget], ?_, _, List.mem_singleton.mpr rfl, ?_⟩
  · rw [Heap.markRecord, view.kind]
    simp only [markArrayViewTarget]
    rw [if_neg]
    · change some (h.testRef _ (h.slot i).viewTarget) = _
      rw [testRef, target, kind]
      rfl
    · change ¬ ((h.slot i).word 2 < 1 ∨ (kMaxArrayRank : Int) < (h.slot i).word 2)
      omega
  · simp [MarkAction.targets, MarkAction.recordTargets, target]

theorem ViewsFormed.collect {strings : StringStore} {roots : List MarkAction} {s : MarkState} (formed : ViewsFormed tables h)
    (marked : markPhase tables h strings roots = some s)
    (ordered : OwnersLast tables h fun i => i ∈ s.records.marked)
    (run : sweepPhase tables (fun i => i ∈ s.records.marked) h = some h') : ViewsFormed tables h' := by
  have configured := formed.sound.configured
  have sentinel := formed.sound.sentinel
  have swept := swept_sweepPhase tables configured sentinel run
  have shrinks := swept.shrinks
  obtain ⟨s', same, marks⟩ := markPhase_spec strings formed.markRecord roots
  cases marked.symm.trans same
  have kept {i : Nat} {kind : Rtk} (isKind : (h'.slot i).kind = kind) (live : kind ≠ .int32) :
      (h'.slot i).isFree = false ∧ h'.slot i = h.slot i := by
    have isLive : (h'.slot i).isFree = false := by simpa [Slot.isFree, isKind] using live
    exact ⟨isLive, shrinks.slot_of_live isLive⟩
  refine ⟨sweepPhase_freeListSound tables formed.sound ordered run, fun i below kind => ?_, fun i below kind => ?_, fun kind => ?_⟩
  · obtain ⟨-, same⟩ := kept kind (by decide)
    rw [same] at kind ⊢
    exact formed.arrays i (shrinks.size ▸ below) kind
  · obtain ⟨live, same⟩ := kept kind (by decide)
    rw [same] at kind ⊢
    have below := shrinks.size ▸ below
    have view := formed.views i below kind
    have one : 1 ≤ i := by
      by_contra zero
      obtain rfl : i = 0 := by omega
      exact formed.sentinel kind
    have reached := of_decide_eq_true (sweepPhase_marked configured sentinel run one below live)
    have ownerMarked := (marks _).mpr (((marks (.record i)).mp reached).step tables h strings (traceEdge_viewTarget view.toViewRecord))
    refine view.later (Nat.le_of_eq shrinks.size.symm) (shrinks.slot_of_live ?_)
    by_contra freed
    obtain ⟨k, -, dead, same | ⟨row, walks⟩⟩ := swept.doomed _ ⟨by simpa using freed, view.owner.live⟩
    · exact of_decide_eq_false dead.2.2.2 (same ▸ ownerMarked)
    · have kinds := view.owner.kind.symm.trans walks.record.2.2
      cases kinds
  · obtain ⟨-, same⟩ := kept kind (by decide)
    exact formed.sentinel (same ▸ kind)

structure FoldFits (view : Slot) (coords : List Int) : Prop where
  products : ∀ axis ∈ coords.zip view.viewStrides, |axis.1 * axis.2| < 2 ^ 63
  sums : ∀ n, |view.viewOffset + dot (coords.take n) view.viewStrides| < 2 ^ 63

structure Covered (tables : TypeTables) (h : Heap) (view : Slot) : Prop where
  target : 0 < view.viewTarget ∧ view.viewTarget.toNat < h.size
  owner : ArrayRecord tables (h.slot view.viewTarget.toNat)
  flat : ∀ coords, InRange coords view.dims → ∃ flat, elementFlatAddress view coords = some flat ∧
    flat = view.viewOffset + dot coords view.viewStrides ∧ 0 ≤ flat ∧ flat < (h.slot view.viewTarget.toNat).word 3 ∧
    fitsInt32 flat = true ∧ FoldFits view coords

theorem abs_le_of_fits {value : Int} (fits : fitsInt32 value = true) : |value| ≤ 2 ^ 31 := by
  rw [fitsInt32, decide_eq_true_eq] at fits
  exact abs_le.mpr ⟨fits.1, Int.le_of_lt fits.2⟩

theorem foldFits {view : Slot} {coords : List Int} (inRange : InRange coords view.dims) {size : Int}
    (valid : validateArrayDims view.dims = some size) (strides : ∀ stride ∈ view.viewStrides, |stride| ≤ 2 ^ 31)
    (offset : |view.viewOffset| ≤ 2 ^ 31) : FoldFits view coords := by
  obtain ⟨isProd, small, dims⟩ := validateArrayDims_eq valid
  have cap : kMaxArrayElems = 100000000 := rfl
  refine ⟨fun axis member => ?_, fun n => ?_⟩
  · obtain ⟨coord, stride⟩ := List.of_mem_zip member
    have range := coord_range inRange (fun dim inside => (dims dim inside).2) _ coord
    rw [abs_mul, abs_of_nonneg range.1]
    calc axis.1 * |axis.2| ≤ kMaxArrayElems * 2 ^ 31 := mul_le_mul (by omega) (strides _ stride) (abs_nonneg _) (by omega)
      _ < 2 ^ 63 := by decide
  · have sum := abs_dot_le (List.forall₂_take n inRange) strides (by decide)
    have fewer := prod_take_le inRange n
    have bound : ((view.dims.take n).prod - 1) * 2 ^ 31 ≤ kMaxArrayElems * 2 ^ 31 :=
      Int.mul_le_mul_of_nonneg_right (by omega) (by decide)
    calc |view.viewOffset + dot (coords.take n) view.viewStrides|
        ≤ |view.viewOffset| + |dot (coords.take n) view.viewStrides| := abs_add_le _ _
      _ ≤ 2 ^ 31 + kMaxArrayElems * 2 ^ 31 := add_le_add offset (sum.trans bound)
      _ < 2 ^ 63 := by decide

theorem ViewFormed.covered_all {slot : Slot} (view : ViewFormed tables h slot) : Covered tables h slot := by
  refine ⟨view.target, view.owner, fun coords inRange => ?_⟩
  have folded := (ArrayValue.view view.toViewRecord).elementFlatAddress inRange
  rw [affineAddress, if_pos view.kind] at folded
  obtain ⟨nonneg, below⟩ := view.address_range inRange
  obtain ⟨-, small, -⟩ := validateArrayDims_eq view.owner.size
  have cap : kMaxArrayElems = 100000000 := rfl
  exact ⟨_, folded, rfl, nonneg, below, decide_eq_true ⟨by omega, by omega⟩,
    foldFits inRange view.size (fun stride member => abs_le_of_fits (view.strides stride member)) (abs_le_of_fits view.offset)⟩

end Heap

inductive ViewAction where
  | allocArray (shard arrayTypeIdx : Nat) (dims : List Int32)
  | makeView (shard arrayTypeIdx : Nat) (arrHandle : Int) (axes : List Heap.SliceAxis)
  | nativeView (shard : Nat) (targetHandle : Int) (axes : List (Int32 × Int32)) (offset : Int64)
  | record (shard : Nat) (slot : Slot)
  | store (i k : Nat) (value : Int)
  | collect (strings : StringStore) (roots : List MarkAction)

namespace ViewAction
open Heap
variable (tables : TypeTables) (quantum : Nat)

def step (h : Heap) : ViewAction → Option Heap
  | .allocArray shard arrayTypeIdx dims => (opAllocArrayN tables shard quantum h arrayTypeIdx dims).map (·.2)
  | .makeView shard arrayTypeIdx arrHandle axes => (opMakeArrayView tables shard quantum h arrHandle arrayTypeIdx axes).map (·.2)
  | .nativeView shard targetHandle axes offset => (nativeNewArrayView tables shard quantum h targetHandle axes offset).map (·.2)
  | .record shard slot =>
    if slot.isFree = false ∧ slot.kind ≠ .array ∧ slot.kind ≠ .arrayView then (h.newRecord shard quantum slot).map (·.2) else none
  | .store i k value => if storable h i k then some (h.storeCell i k value) else none
  | .collect strings roots =>
    (markPhase tables h strings roots).bind fun s => sweepPhase tables (fun i => i ∈ s.records.marked) h

def Meets (h : Heap) : ViewAction → Prop
  | .collect strings roots =>
    ∀ s, markPhase tables h strings roots = some s → OwnersLast tables h fun i => i ∈ s.records.marked
  | _ => True

variable {tables quantum}

theorem step_formed (h : Heap) (action : ViewAction) (h' : Heap) (formed : ViewsFormed tables h) (met : Meets tables h action)
    (taken : step tables quantum h action = some h') : ViewsFormed tables h' := by
  cases action with
  | allocArray shard arrayTypeIdx dims =>
    obtain ⟨⟨i, g⟩, made, rfl⟩ := Option.map_eq_some_iff.mp taken
    exact formed.allocArray made
  | makeView shard arrayTypeIdx arrHandle axes =>
    obtain ⟨⟨i, g⟩, made, rfl⟩ := Option.map_eq_some_iff.mp taken
    exact formed.makeArrayView made
  | nativeView shard targetHandle axes offset =>
    obtain ⟨⟨i, g⟩, made, rfl⟩ := Option.map_eq_some_iff.mp taken
    exact formed.nativeView made
  | record shard slot =>
    simp only [step] at taken
    split at taken
    · rename_i plain
      obtain ⟨⟨i, g⟩, made, rfl⟩ := Option.map_eq_some_iff.mp taken
      obtain ⟨keeps, fresh, stored⟩ := newRecord_keeps formed.sound plain.1 made
      refine formed.grow keeps (· = i) (newRecord_structsOnly (structsOnly_old h) (.inl (.inl rfl)) made)
        (fun _ same => same ▸ fresh.positive) ?_ ?_
      · rintro _ rfl kind
        exact absurd (stored ▸ kind) plain.2.1
      · rintro _ rfl kind
        exact absurd (stored ▸ kind) plain.2.2
    · cases taken
  | store i k value =>
    simp only [step] at taken
    split at taken
    · rename_i allowed
      cases taken
      exact formed.store allowed
    · cases taken
  | collect strings roots =>
    obtain ⟨s, marked, run⟩ := Option.bind_eq_some_iff.mp taken
    exact formed.collect marked (met s marked) run

theorem init_formed (carriers : Nat) (table : SideKind → SideTable) : ViewsFormed tables (init carriers table) where
  sound := init_freeListSound carriers table
  arrays i _ kind := by cases kind
  views i _ kind := by cases kind
  sentinel kind := by cases kind

end ViewAction

/-- In every run whose collections find the dead owners above what they contain, every view covers its owner. -/
theorem views_covered {tables : TypeTables} {carriers quantum : Nat} {table : SideKind → SideTable} {h : Heap}
    (run : Run (ViewAction.step tables quantum) (ViewAction.Meets tables) (Heap.init carriers table) h) {i : Nat}
    (below : i < h.size) (view : (h.slot i).kind = .arrayView) : Heap.Covered tables h (h.slot i) :=
  ((run.invariant (Heap.ViewsFormed tables) (ViewAction.init_formed carriers table) ViewAction.step_formed).views i below
    view).covered_all

def pointArrays : TypeTables where
  structs := [⟨[{ kind := .int32 }]⟩]
  classes := []
  arrayTypes := [{ elemKind := .struct, elemTypeIdx := some 0 }, { elemKind := .int32 }]
  depth := fun _ => 0
  depth_lt := TypeTables.depth_lt_int32

def slicedActions : List ViewAction :=
  [.allocArray 0 1 [5], .makeView 0 1 1 [.slice none none (some (-1))], .nativeView 0 2 [(3, -2)] 4]

theorem views_covered_sliced :
    ∃ h, slicedActions.foldlM (ViewAction.step pointArrays 4) (Heap.init 0 fun _ => {}) = some h ∧
      Heap.Covered pointArrays h (h.slot 3) ∧ Heap.elementFlatAddress (h.slot 3) [2] = some 0 := by
  refine ⟨_, rfl, ?_, rfl⟩
  have met : ∀ action ∈ slicedActions, ∀ h, ViewAction.Meets pointArrays h action := by simp [slicedActions, ViewAction.Meets]
  have run := Run.refl.actions met
    (show slicedActions.foldlM (ViewAction.step pointArrays 4) (Heap.init 0 fun _ => {}) = some _ from rfl)
  exact views_covered run (by decide) rfl

def doubleActions : List ViewAction :=
  [.allocArray 0 0 [1], .collect noStrings [], .allocArray 0 1 [1], .allocArray 0 1 [1], .allocArray 0 1 [5],
    .makeView 0 1 2 [.slice none none none], .allocArray 0 1 [0]]

theorem view_not_covered :
    ∃ h, Run (ViewAction.step pointArrays 4) (fun _ _ => True) (Heap.init 0 fun _ => {}) h ∧ 1 < h.size ∧
      (h.slot 1).kind = .arrayView ∧ ¬ Heap.Covered pointArrays h (h.slot 1) := by
  have run := Run.refl.actions (fun _ _ _ => trivial)
    (show doubleActions.foldlM (ViewAction.step pointArrays 4) (Heap.init 0 fun _ => {}) = some _ from rfl)
  refine ⟨_, run, by decide, rfl, fun covered => ?_⟩
  obtain ⟨flat, folded, -, nonneg, below, -⟩ := covered.flat [0] (.cons ⟨by decide, by decide⟩ .nil)
  cases folded
  exact absurd below (by decide)

end NLang.Vm
