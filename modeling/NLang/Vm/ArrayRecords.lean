import NLang.Vm.Allocation
import NLang.Vm.ArrayAccess
import NLang.Vm.Ownership

/-!
# Arrays and views that are built

`AllocArrayOnHeap` and `AllocViewOnHeap` lay out their records as the element routes read them.
-/

namespace NLang.Vm.Heap
open NLang.Library.RowMajor

section Header
variable {slot : Slot} {code typeIdx size : Int} {dims tail : List Int}
variable (layout : ∀ k < 4 + dims.length, slot.word k = ([code, typeIdx, (dims.length : Int), size] ++ dims ++ tail).getD k 0)
include layout

theorem header_words : slot.word 1 = typeIdx ∧ slot.word 2 = dims.length ∧ slot.word 3 = size :=
  ⟨layout 1 (by omega), layout 2 (by omega), layout 3 (by omega)⟩

theorem header_rank : slot.rank = dims.length := by
  rw [Slot.rank, (header_words layout).2.1, Int.toNat_natCast]

theorem header_dims : slot.dims = dims := by
  refine List.ext_getElem (by rw [Slot.length_dims, header_rank layout]) fun d inside inside' => ?_
  have at_d := layout (4 + d) (by omega)
  have isWord : slot.dims[d] = slot.word (4 + d) := by simp [Slot.dims]
  rw [isWord, at_d, List.getD_eq_getElem?_getD, List.append_assoc,
    List.getElem?_append_right (by simp), List.length_cons, List.length_cons, List.length_cons, List.length_cons, List.length_nil,
    Nat.add_sub_cancel_left, List.getElem?_append_left inside', List.getElem?_eq_getElem inside', Option.getD_some]

end Header

section Build
variable {tables : TypeTables} {shard quantum : Nat} {h h' : Heap} {i : Nat}

theorem arrayHeaderCells_ge (rank : Nat) : 4 + rank ≤ arrayHeaderCells rank := Nat.le_add_right _ _

theorem allocArrayOnHeap_record {arrayTypeIdx : Nat} {dims : List Int} (sound : FreeListSound h [])
    (rank : 1 ≤ dims.length ∧ dims.length ≤ kMaxArrayRank)
    (made : allocArrayOnHeap tables shard quantum h arrayTypeIdx dims = some (i, h')) :
    Keeps h h' ∧ Fresh h h' i ∧ ArrayRecord tables (h'.slot i) ∧ (h'.slot i).dims = dims ∧ (h'.slot i).word 1 = arrayTypeIdx := by
  rw [allocArrayOnHeap] at made
  split at made
  · rename_i row size at_row valid
    obtain ⟨⟨j, g⟩, taken, made⟩ := Option.bind_eq_some_iff.mp made
    obtain ⟨g', filled, made⟩ := Option.bind_eq_some_iff.mp made
    cases made
    obtain ⟨keeps, fresh, stored⟩ := newRecord_keeps sound rfl taken
    have makes : ∀ (cells : List (Nat × Nat)) (cell : Nat × Nat), cell ∈ cells → ∀ (f f' : Heap) (inner : Nat), FreeListSound f [] →
        allocStructOnHeap tables shard quantum f cell.2 = some (inner, f') → Keeps f f' :=
      fun _ _ _ f f' inner sound run => (allocStructWithin_keeps _ sound run).1
    obtain ⟨keeps', fresh', only⟩ := fillCells_keeps (makes _) keeps fresh filled
    have payload : ∀ k < arrayHeaderCells dims.length, (h'.slot i).cells.getD k 0 = (g.slot i).cells.getD k 0 := by
      intro k below
      refine only.others k fun member => ?_
      obtain ⟨cell, inside, rfl⟩ := List.mem_map.mp member
      split at inside
      · exact absurd (mem_structElementCells inside).1 (by omega)
      · cases inside
    have layout : ∀ k < 4 + dims.length, (h'.slot i).word k =
        ([rtkArrayCode, (arrayTypeIdx : Int), (dims.length : Int), size] ++ dims ++
          (List.replicate (arrayHeaderCells dims.length - (4 + dims.length)) 0 ++
            List.replicate (size.toNat * arrayElemCells row.elemKind) 0)).getD k 0 := by
      intro k below
      rw [Slot.word, payload k (Nat.lt_of_lt_of_le below (arrayHeaderCells_ge _)), stored]
      simp only [List.append_assoc]
    obtain ⟨typeWord, rankWord, sizeWord⟩ := header_words layout
    have isDims := header_dims layout
    refine ⟨keeps', fresh', ⟨?_, ?_, ?_, ?_, row, ?_, ?_⟩, isDims, typeWord⟩
    · rw [only.kind, stored]
    · rw [rankWord]
      omega
    · rw [isDims, sizeWord, valid]
    · rw [only.structIdx, stored, typeWord, Int.toNat_natCast]
    · rw [typeWord, Int.toNat_natCast, at_row]
    · rw [only.length, stored, header_rank layout, sizeWord]
      have header := arrayHeaderCells_ge dims.length
      simp
      omega
  · cases made

theorem words_stretch {slot : Slot} {front stretch back : List Int} (cells : slot.cells = front ++ stretch ++ back) :
    ((List.range stretch.length).map fun d => slot.word (front.length + d)) = stretch := by
  refine List.ext_getElem (by simp) fun d inside inside' => ?_
  rw [List.getElem_map, List.getElem_range, Slot.word, cells, List.append_assoc, List.getD_eq_getElem?_getD,
    List.getElem?_append_right (Nat.le_add_right _ _), Nat.add_sub_cancel_left, List.getElem?_append_left inside',
    List.getElem?_eq_getElem inside', Option.getD_some]

theorem word_append {slot : Slot} {front back : List Int} (cells : slot.cells = front ++ back) (k : Nat) :
    slot.word (front.length + k) = back.getD k 0 := by
  rw [Slot.word, cells, List.getD_eq_getElem?_getD, List.getElem?_append_right (Nat.le_add_right _ _), Nat.add_sub_cancel_left,
    List.getD_eq_getElem?_getD]

theorem validateViewCreation_ok {arrayTypeIdx target : Nat} {dims strides : List Int} {offset targetIdx size : Int}
    (valid : validateViewCreation tables h arrayTypeIdx dims strides offset targetIdx = some (target, size)) :
    (1 ≤ dims.length ∧ dims.length ≤ kMaxArrayRank) ∧ validateArrayDims dims = some size ∧ 0 < target ∧ target < h.size ∧
      (h.slot target).kind = .array ∧
      (0 < size → 0 ≤ (viewCoverage dims strides offset).1 ∧ (viewCoverage dims strides offset).2 < (h.slot target).word 3) ∧
      ∃ row ownerRow, tables.arrayTypes[arrayTypeIdx]? = some row ∧
        tables.arrayTypes[((h.slot target).word 1).toNat]? = some ownerRow ∧ row.elemKind = ownerRow.elemKind := by
  rw [validateViewCreation] at valid
  dsimp only at valid
  split at valid
  · cases valid
  · rename_i shape
    generalize peeled : (if h.refKind targetIdx = .arrayView then
      h.cell targetIdx.toNat (arrayViewTargetCell (h.cell targetIdx.toNat 2).toNat) else targetIdx) = owner at valid
    split at valid
    · cases valid
    · rename_i isArray
      split at valid
      · rename_i size' callerRow ownerRow dimsValid at_caller at_owner
        split at valid
        · cases valid
        · rename_i matching
          split at valid
          · cases valid
          · rename_i covers
            obtain ⟨rfl, rfl⟩ := Prod.mk.inj (Option.some.inj valid)
            simp only [not_or, Bool.not_eq_false, not_not, not_and] at shape isArray matching covers
            have inside := isArray.1
            rw [Heap.inRange, decide_eq_true_eq] at inside
            exact ⟨⟨by omega, by omega⟩, dimsValid, by omega, inside.2, isArray.2,
              fun some_element => ⟨by have := covers some_element; omega, by have := (covers some_element).2; exact Int.not_le.mp this⟩,
              callerRow, ownerRow, at_caller, at_owner, matching.2.1⟩
      · cases valid

structure ViewLayout (slot : Slot) (arrayTypeIdx target : Nat) (dims strides : List Int) (offset size : Int) : Prop where
  kind : slot.kind = .arrayView
  typeWord : slot.word 1 = arrayTypeIdx
  rankWord : slot.word 2 = dims.length
  sizeWord : slot.word 3 = size
  dims : slot.dims = dims
  strides : slot.viewStrides = strides
  offset : slot.viewOffset = offset
  target : slot.viewTarget = target

theorem allocViewOnHeap_layout {arrayTypeIdx : Nat} {dims strides : List Int} {offset targetIdx : Int} (sound : FreeListSound h [])
    (sameLength : strides.length = dims.length)
    (made : allocViewOnHeap tables shard quantum h arrayTypeIdx dims strides offset targetIdx = some (i, h')) :
    ∃ target size, validateViewCreation tables h arrayTypeIdx dims strides offset targetIdx = some (target, size) ∧
      Keeps h h' ∧ Fresh h h' i ∧ ViewLayout (h'.slot i) arrayTypeIdx target dims strides offset size := by
  obtain ⟨⟨target, size⟩, valid, made⟩ := Option.bind_eq_some_iff.mp made
  obtain ⟨keeps, fresh, stored⟩ := newRecord_keeps sound rfl made
  have cells : (h'.slot i).cells =
      [rtkArrayViewCode, (arrayTypeIdx : Int), (dims.length : Int), size] ++ dims ++ strides ++ [offset, (target : Int)] := by
    rw [stored]
  have layout : ∀ k < 4 + dims.length, (h'.slot i).word k =
      ([rtkArrayViewCode, (arrayTypeIdx : Int), (dims.length : Int), size] ++ dims ++ (strides ++ [offset, (target : Int)])).getD k 0 := by
    intro k _
    rw [Slot.word, cells, List.append_assoc (_ ++ dims)]
  obtain ⟨typeWord, rankWord, sizeWord⟩ := header_words layout
  have isRank := header_rank layout
  have isStrides : (h'.slot i).viewStrides = strides := by
    have stretch := words_stretch cells
    rwa [sameLength, ← isRank, List.length_append, ← isRank] at stretch
  have front : ([rtkArrayViewCode, (arrayTypeIdx : Int), (dims.length : Int), size] ++ dims ++ strides).length =
      4 + 2 * (h'.slot i).rank := by
    rw [isRank, List.length_append, List.length_append, sameLength]
    simp only [List.length_cons, List.length_nil]
    omega
  have tail := word_append cells
  rw [front] at tail
  have isTarget : (h'.slot i).viewTarget = target := by
    rw [Slot.viewTarget, arrayViewTargetCell, Nat.add_right_comm 4 1]
    exact tail 1
  exact ⟨target, size, valid, keeps, fresh, by rw [stored], typeWord, rankWord, sizeWord, header_dims layout, isStrides, tail 0, isTarget⟩

theorem allocViewOnHeap_record {arrayTypeIdx : Nat} {dims strides : List Int} {offset targetIdx : Int} (sound : FreeListSound h [])
    (arrays : ∀ j < h.size, (h.slot j).kind = .array → ArrayRecord tables (h.slot j)) (sameLength : strides.length = dims.length)
    (made : allocViewOnHeap tables shard quantum h arrayTypeIdx dims strides offset targetIdx = some (i, h')) :
    Keeps h h' ∧ Fresh h h' i ∧ ViewRecord tables h' (h'.slot i) ∧ (h'.slot i).viewStrides = strides ∧
      (h'.slot i).viewOffset = offset := by
  obtain ⟨target, size, valid, keeps, fresh, layout⟩ := allocViewOnHeap_layout sound sameLength made
  obtain ⟨rank, dimsValid, positive, inside, kind, covers, row, ownerRow, at_row, at_owner, sameKind⟩ := validateViewCreation_ok valid
  have owner := keeps.slot target inside (by rw [Slot.isFree, kind]; decide)
  have sameOwner : h'.slot (h'.slot i).viewTarget.toNat = h.slot target := by rw [layout.target, Int.toNat_natCast, owner]
  refine ⟨keeps, fresh, ⟨layout.kind, by rw [layout.rankWord]; omega, by rw [layout.dims, layout.sizeWord, dimsValid], ?_, ?_, ?_, ?_⟩,
    layout.strides, layout.offset⟩
  · rw [layout.target, Int.toNat_natCast]
    exact ⟨by omega, Nat.lt_of_lt_of_le inside keeps.size⟩
  · rw [sameOwner]
    exact arrays target inside kind
  · rw [sameOwner, layout.typeWord, Int.toNat_natCast]
    exact ⟨row, ownerRow, at_row, at_owner, sameKind⟩
  · rw [sameOwner, layout.sizeWord, layout.dims, layout.strides, layout.offset]
    exact covers

end Build

section Stay
variable {tables : TypeTables} {h g : Heap} {slot : Slot}

theorem ArrayRecord.live (record : ArrayRecord tables slot) : slot.isFree = false := by
  rw [Slot.isFree, record.kind]
  decide

theorem ArrayValue.live (value : ArrayValue tables h slot) : slot.isFree = false := by
  cases value with
  | array record => exact record.live
  | view record =>
    rw [Slot.isFree, record.kind]
    decide

theorem ArrayRecord.later {slot' : Slot} {cells : List Nat} (record : ArrayRecord tables slot) (only : OnlyCells cells slot slot')
    (away : ∀ k ∈ cells, arrayHeaderCells slot.rank ≤ k) :
    ArrayRecord tables slot' ∧ slot'.dims = slot.dims ∧ slot'.rank = slot.rank ∧ slot'.word 1 = slot.word 1 := by
  have header : 4 + slot.rank ≤ arrayHeaderCells slot.rank := arrayHeaderCells_ge _
  have word (k : Nat) (below : k < 4 + slot.rank) : slot'.word k = slot.word k :=
    only.others k fun member => by have := away k member; omega
  have rank : slot'.rank = slot.rank := by rw [Slot.rank, word 2 (by omega), Slot.rank]
  have dims : slot'.dims = slot.dims := by
    rw [Slot.dims, Slot.dims, rank]
    refine List.map_congr_left fun d member => word (4 + d) ?_
    have := List.mem_range.mp member
    omega
  refine ⟨⟨only.kind.trans record.kind, ?_, ?_, ?_, ?_⟩, dims, rank, word 1 (by omega)⟩
  · rw [word 2 (by omega)]
    exact record.rank
  · rw [dims, word 3 (by omega)]
    exact record.size
  · rw [only.structIdx, record.typeIdx, word 1 (by omega)]
  · obtain ⟨row, at_row, length⟩ := record.row
    exact ⟨row, by rw [word 1 (by omega), at_row], by rw [only.length, rank, word 3 (by omega), length]⟩

theorem ViewRecord.reshaped (record : ViewRecord tables h slot) (size : h.size ≤ g.size)
    (owner : ArrayRecord tables (g.slot slot.viewTarget.toNat))
    (dims : (g.slot slot.viewTarget.toNat).dims = (h.slot slot.viewTarget.toNat).dims)
    (word : (g.slot slot.viewTarget.toNat).word 1 = (h.slot slot.viewTarget.toNat).word 1) : ViewRecord tables g slot where
  kind := record.kind
  rank := record.rank
  size := record.size
  target := ⟨record.target.1, Nat.lt_of_lt_of_le record.target.2 size⟩
  owner := owner
  row := by
    rw [word]
    exact record.row
  covered := by
    rw [(validateArrayDims_eq owner.size).1, dims, ← (validateArrayDims_eq record.owner.size).1]
    exact record.covered

theorem ViewRecord.later (record : ViewRecord tables h slot) (size : h.size ≤ g.size)
    (same : g.slot slot.viewTarget.toNat = h.slot slot.viewTarget.toNat) : ViewRecord tables g slot :=
  record.reshaped size (same ▸ record.owner) (by rw [same]) (by rw [same])

theorem ArrayValue.owner {i : Nat} (value : ArrayValue tables h (h.slot i)) (inside : i < h.size) :
    h.ownerOf i < h.size ∧ ArrayRecord tables (h.slot (h.ownerOf i)) := by
  rw [ownerOf]
  cases value with
  | array record =>
    rw [if_neg (by rw [record.kind]; decide)]
    exact ⟨inside, record⟩
  | view record =>
    rw [if_pos record.kind]
    exact ⟨record.target.2, record.owner⟩

theorem ArrayValue.later {i : Nat} (value : ArrayValue tables h (h.slot i)) (inside : i < h.size) (size : h.size ≤ g.size)
    (same : ∀ j < h.size, (h.slot j).isFree = false → g.slot j = h.slot j) :
    ArrayValue tables g (g.slot i) ∧ g.ownerOf i = h.ownerOf i := by
  have kept := same i inside value.live
  obtain ⟨ownerInside, owner⟩ := value.owner inside
  have keptOwner := same _ ownerInside owner.live
  refine ⟨?_, by rw [ownerOf, ownerOf, kept]⟩
  rw [kept]
  cases value with
  | array record => exact .array record
  | view record =>
    rw [ownerOf, if_pos record.kind] at keptOwner
    exact .view (record.later size keptOwner)

end Stay

end NLang.Vm.Heap
