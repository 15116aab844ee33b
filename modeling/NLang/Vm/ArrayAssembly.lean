import NLang.Vm.ArrayRecords
import NLang.Vm.RecordCopies

/-!
# Copies of array elements

The routes that copy elements in row-major order: the serializer's copy of a view (`MaterializeViewRecord`) and the
assembly of an array from its rows (`VmExecutorOpsAssemble.cpp`).
-/

namespace NLang.Vm.Heap
open NLang.Library.RowMajor

/-- `SnapshotAssembleRows`: the dimensions of the assembled array. `none` is an exception. -/
def snapshotAssembleRows (h : Heap) (rank : Nat) (rowHandles : List Int) : Option (List Int) :=
  let widths := fun handle : Int => (List.range (rank - 1)).map fun d => (h.slot handle.toNat).word (4 + d)
  if rowHandles.all fun handle => h.inRange handle ∧ isArrayValue (h.slot handle.toNat) ∧
      (h.slot handle.toNat).word 2 = rank - 1 ∧ widths handle = widths (rowHandles.headD 0) then
    some (rowHandles.length :: widths (rowHandles.headD 0))
  else none

def structElems (arrayType : CompiledArrayType) : Option Nat :=
  match arrayType.elemKind, arrayType.elemTypeIdx with
  | .struct, some elemTypeIdx => some elemTypeIdx
  | _, _ => none

section Assembly
variable (tables : TypeTables) (shard quantum : Nat) (arrayType : CompiledArrayType)

def copyStructElement (elemTypeIdx i dst record src : Nat) (h : Heap) : Option Heap :=
  (deepCopyStruct tables shard quantum h (h.cell record src) elemTypeIdx).map fun (copy, h) => h.storeCell i dst copy

def copyAssembleViewRow (i rowSlot rowElems destBase rowOrdinal : Nat) (h : Heap) : Option Heap := do
  let (owner, srcBase) ← h.elementPayloadRecord rowSlot
  let view := h.slot rowSlot
  let cells := arrayElemCells arrayType.elemKind
  (List.range rowElems).foldlM (fun h e =>
    let addr := (viewFlatElementAddress view e).toNat
    match structElems arrayType with
    | none => some (h.copyBlock i (destBase + (rowOrdinal * rowElems + e) * cells) owner (srcBase + addr * cells) cells)
    | some elemTypeIdx => copyStructElement tables shard quantum elemTypeIdx i (destBase + rowOrdinal * rowElems + e) owner
        (srcBase + addr) h) h

def copyAssembleRow (i r : Nat) (rowHandle : Int) (h : Heap) : Option Heap :=
  let destBase := arrayHeaderCells arrayType.rank
  let rowBase := arrayHeaderCells (arrayType.rank - 1)
  let cells := arrayElemCells arrayType.elemKind
  let rowSlot := rowHandle.toNat
  let rowElems := ((h.slot rowSlot).word 3).toNat
  if (h.slot rowSlot).kind = .arrayView then copyAssembleViewRow tables shard quantum arrayType i rowSlot rowElems destBase r h
  else
    match structElems arrayType with
    | none => some (h.copyBlock i (destBase + r * rowElems * cells) rowSlot rowBase (rowElems * cells))
    | some elemTypeIdx => (List.range rowElems).foldlM (fun h e =>
      copyStructElement tables shard quantum elemTypeIdx i (destBase + r * rowElems + e) rowSlot (rowBase + e) h) h

def copyAssembleRows (i : Nat) (rowHandles : List Int) (h : Heap) : Option Heap :=
  (List.range rowHandles.length).foldlM (fun h r =>
    copyAssembleRow tables shard quantum arrayType i r (rowHandles.getD r 0) h) h

def opAssembleArrayN (h : Heap) (arrayTypeIdx : Nat) (rowHandles : List Int) : Option (Nat × Heap) :=
  match tables.arrayTypes[arrayTypeIdx]? with
  | none => none
  | some arrayType =>
    if arrayType.rank < 2 ∨ kMaxArrayRank < arrayType.rank ∨ rowHandles = [] then none
    else do
      let dims ← snapshotAssembleRows h arrayType.rank rowHandles
      let (i, h) ← allocArrayOnHeap tables shard quantum h arrayTypeIdx dims
      let h ← copyAssembleRows tables shard quantum arrayType i rowHandles h
      return (i, h)

end Assembly

def ElementCopied (tables : TypeTables) (h : Heap) (elems : Option Nat) (i dst record src cells : Nat) (g : Heap) : Prop :=
  match elems with
  | none => ∀ c < cells, g.cell i (dst + c) = h.cell record (src + c)
  | some s => StructValue tables h s (h.cell record src) →
      StructCopy tables h g (fun j => ¬ (j < h.size ∧ (h.slot j).isFree = false) ∧ j ≠ i) s (h.cell record src) (g.cell i dst)

section Rows
variable {tables : TypeTables} {shard quantum : Nat} {h start g g' : Heap} {elems : Option Nat} {i dst record src cells : Nat}

theorem ElementCopied.later (copied : ElementCopied tables h elems i dst record src cells g) {written : List Nat}
    (one : ∀ s, elems = some s → cells = 1)
    (writes : Writes i written g g') (away : ∀ k ∈ written, k < dst ∨ dst + cells ≤ k) :
    ElementCopied tables h elems i dst record src cells g' := by
  have same : ∀ c < cells, g'.cell i (dst + c) = g.cell i (dst + c) := by
    intro c below
    rw [cell, writes.only.others (dst + c) fun member => ?_]
    · rfl
    · have := away _ member
      omega
  cases elems with
  | none => exact fun c below => (same c below).trans (copied c below)
  | some s =>
    intro value
    have at_dst := same 0 (by rw [one s rfl]; exact Nat.one_pos)
    rw [Nat.add_zero] at at_dst
    rw [at_dst]
    exact (copied value).later writes.size (fun _ new => new) fun j below live new => writes.others j below live new.2

theorem Writes.keeps {written : List Nat} (kept : Keeps h start) (fresh : Fresh h start i) (writes : Writes i written start g) :
    Keeps h g := by
  refine ⟨writes.sound, Nat.le_trans kept.size writes.size, fun j below live => ?_⟩
  have same := kept.slot j below live
  rw [writes.others j (Nat.lt_of_lt_of_le below kept.size) (same ▸ live) (fresh.ne below live), same]

variable (kept : Keeps h start) (fresh : Fresh h start i) (source : record < h.size ∧ (h.slot record).isFree = false)
include kept fresh source

theorem copyBlock_copied {written : List Nat} (src : Nat) (writes : Writes i written start g) (room : dst + cells ≤ (g.slot i).cells.length) :
    Writes i (List.range' dst cells) g (g.copyBlock i dst record src cells) ∧
      ∀ c < cells, (g.copyBlock i dst record src cells).cell i (dst + c) = h.cell record (src + c) := by
  have keeps := writes.keeps kept fresh
  have same := keeps.slot record source.1 source.2
  obtain ⟨grows, copied⟩ := copyBlock_spec src keeps.sound writes.after
    ⟨Nat.lt_of_lt_of_le source.1 keeps.size, same ▸ source.2, fresh.ne source.1 source.2⟩ room
  exact ⟨grows, fun c below => by rw [copied c below, cell, cell, same]⟩

theorem copyStructElement_copied {written : List Nat} {s : Nat} (writes : Writes i written start g) (room : dst < (g.slot i).cells.length)
    (ran : copyStructElement tables shard quantum s i dst record src g = some g') :
    Writes i (List.range' dst 1) g g' ∧ ElementCopied tables h (some s) i dst record src 1 g' := by
  have keeps := writes.keeps kept fresh
  have same := keeps.slot record source.1 source.2
  obtain ⟨⟨copy, f⟩, made, rfl⟩ := Option.map_eq_some_iff.mp ran
  have at_src : g.cell record src = h.cell record src := by rw [cell, cell, same]
  rw [at_src] at made
  have grown := (deepCopyWithin_keeps _ keeps.sound made).1
  have grows := Writes.ofKeeps grown writes.after
  have stores := Writes.storeCell grows.sound grows.after dst (copy : Int)
  refine ⟨grows.step stores, fun value => ?_⟩
  have stored : (f.storeCell i dst copy).cell i dst = copy := cell_storeCell_self (by rw [grows.only.length]; exact room) _
  rw [stored]
  refine (deepCopyWithin_copy keeps.sound keeps value made).later (Nat.le_refl _) (fun j new => ⟨?_, ?_⟩) fun j below live new => ?_
  · rintro ⟨below, live⟩
    exact new ⟨Nat.lt_of_lt_of_le below keeps.size, keeps.slot j below live ▸ live⟩
  · rintro rfl
    exact new writes.after
  · refine stores.others j below live fun same => ?_
    exact new (same ▸ writes.after)

omit kept fresh source in
theorem elements_copied (base : Nat) {count : Nat} (address : Nat → Nat) {step : Nat → Heap → Option Heap} {written : List Nat}
    (writes : Writes i written start g) (room : base + count * cells ≤ (g.slot i).cells.length) (one : ∀ s, elems = some s → cells = 1)
    (each : ∀ e < count, ∀ f f' written, Writes i written start f → base + e * cells + cells ≤ (f.slot i).cells.length →
      step e f = some f' → Writes i (List.range' (base + e * cells) cells) f f' ∧
        ElementCopied tables h elems i (base + e * cells) record (address e) cells f')
    (ran : (List.range count).foldlM (fun f e => step e f) g = some g') :
    Writes i (List.range' base (count * cells)) g g' ∧
      ∀ e < count, ElementCopied tables h elems i (base + e * cells) record (address e) cells g' := by
  refine writes_loop base cells (fun e f => ElementCopied tables h elems i (base + e * cells) record (address e) cells f)
    (fun e below f f' reached run => each e below f f' _ (writes.step reached) ?_ run)
    (fun e f f' _ _ _ grows away copied => copied.later one grows away) writes.sound writes.after ran
  have next : (e + 1) * cells ≤ count * cells := Nat.mul_le_mul_right cells below
  rw [Nat.succ_mul] at next
  rw [reached.only.length]
  omega

end Rows

def flatAddress (slot : Slot) (flat : Nat) : Nat :=
  if slot.kind = .arrayView then (viewFlatElementAddress slot flat).toNat else flat

def RowCopied (tables : TypeTables) (h : Heap) (arrayType : CompiledArrayType) (i r row : Nat) (g : Heap) : Prop :=
  ∀ e < ((h.slot row).word 3).toNat, ElementCopied tables h (structElems arrayType) i
    (arrayHeaderCells arrayType.rank + (r * ((h.slot row).word 3).toNat + e) * arrayElemCells arrayType.elemKind) (h.ownerOf row)
    (arrayHeaderCells (h.slot (h.ownerOf row)).rank + flatAddress (h.slot row) e * arrayElemCells arrayType.elemKind)
    (arrayElemCells arrayType.elemKind) g

theorem structElems_cells {arrayType : CompiledArrayType} {s : Nat} (elems : structElems arrayType = some s) :
    arrayElemCells arrayType.elemKind = 1 := by
  unfold structElems at elems
  split at elems
  · rename_i kind _
    rw [kind]
    rfl
  · cases elems

section Assembled
variable {tables : TypeTables} {shard quantum : Nat} {h start g g' : Heap} {arrayType : CompiledArrayType} {i r row : Nat}

theorem copyAssembleRow_copied {written : List Nat} {handle : Int} (isRow : handle.toNat = row) (kept : Keeps h start) (fresh : Fresh h start i) (writes : Writes i written start g)
    (value : ArrayValue tables h (h.slot row)) (inside : row < h.size) (rank : (h.slot row).rank = arrayType.rank - 1)
    (room : arrayHeaderCells arrayType.rank + (r + 1) * (((h.slot row).word 3).toNat * arrayElemCells arrayType.elemKind) ≤
      (g.slot i).cells.length)
    (ran : copyAssembleRow tables shard quantum arrayType i r handle g = some g') :
    Writes i (List.range' (arrayHeaderCells arrayType.rank + r * (((h.slot row).word 3).toNat * arrayElemCells arrayType.elemKind))
        (((h.slot row).word 3).toNat * arrayElemCells arrayType.elemKind)) g g' ∧
      RowCopied tables h arrayType i r row g' := by
  have keeps := writes.keeps kept fresh
  have same := keeps.slot row inside value.live
  obtain ⟨ownerInside, owner⟩ := value.owner inside
  obtain ⟨later, sameOwner⟩ := value.later inside keeps.size keeps.slot
  have sameBase := keeps.slot _ ownerInside owner.live
  have payload := later.elementPayloadRecord
  rw [sameOwner, sameBase] at payload
  rw [copyAssembleRow, isRow, same] at ran
  generalize isElems : ((h.slot row).word 3).toNat = rowElems at *
  generalize isCells : arrayElemCells arrayType.elemKind = cells at *
  have place (e : Nat) : arrayHeaderCells arrayType.rank + (r * rowElems + e) * cells =
      arrayHeaderCells arrayType.rank + r * (rowElems * cells) + e * cells := by ring
  have enough : arrayHeaderCells arrayType.rank + r * (rowElems * cells) + rowElems * cells ≤ (g.slot i).cells.length := by
    rw [Nat.succ_mul] at room
    omega
  have assembled (copied : ∀ e < rowElems, ElementCopied tables h (structElems arrayType) i
      (arrayHeaderCells arrayType.rank + r * (rowElems * cells) + e * cells) (h.ownerOf row)
      (arrayHeaderCells (h.slot (h.ownerOf row)).rank + flatAddress (h.slot row) e * cells) cells g') :
      RowCopied tables h arrayType i r row g' := by
    intro e below
    rw [isElems, isCells, place e]
    exact copied e (isElems ▸ below)
  have one (s : Nat) (elems : structElems arrayType = some s) : cells = 1 := isCells ▸ structElems_cells elems
  have source := And.intro ownerInside owner.live
  by_cases kind : (h.slot row).kind = .arrayView
  · rw [if_pos kind, copyAssembleViewRow, payload, Option.bind_eq_bind, Option.bind_some] at ran
    rw [same, isCells] at ran
    refine (fun looped => ⟨looped.1, assembled looped.2⟩) 
      (elements_copied _ (fun e => arrayHeaderCells (h.slot (h.ownerOf row)).rank + flatAddress (h.slot row) e * cells) writes enough one
        (fun e below f f' _ reached room run => ?_) ran)
    have address : (viewFlatElementAddress (h.slot row) e).toNat = flatAddress (h.slot row) e := by rw [flatAddress, if_pos kind]
    dsimp only at run
    rw [address, place e] at run
    cases elems : structElems arrayType with
    | none =>
      rw [elems] at run
      cases run
      exact copyBlock_copied kept fresh source _ reached room
    | some s =>
      obtain rfl := one s elems
      rw [elems] at run
      simp only [Nat.mul_one] at reached room ⊢
      exact copyStructElement_copied kept fresh source reached room run
  · rw [if_neg kind] at ran
    have own : h.ownerOf row = row := by rw [ownerOf, if_neg kind]
    have address (e : Nat) : flatAddress (h.slot row) e = e := by rw [flatAddress, if_neg kind]
    rw [own] at assembled
    rw [← rank] at ran
    cases elems : structElems arrayType with
    | none =>
      rw [elems] at ran assembled
      cases ran
      obtain ⟨grows, copied⟩ :=
        copyBlock_copied kept fresh ⟨inside, value.live⟩ (arrayHeaderCells (h.slot row).rank) writes enough
      rw [← Nat.mul_assoc] at grows copied ⊢
      refine ⟨grows, assembled fun e below c belowC => ?_⟩
      rw [address, Nat.add_assoc, Nat.add_assoc _ (e * cells), ← Nat.mul_assoc]
      refine copied (e * cells + c) ?_
      have next : (e + 1) * cells ≤ rowElems * cells := Nat.mul_le_mul_right cells below
      rw [Nat.succ_mul] at next
      omega
    | some s =>
      obtain rfl := one s elems
      rw [elems] at ran assembled
      simp only [Nat.mul_one, address] at enough assembled ⊢
      have looped : Writes i (List.range' (arrayHeaderCells arrayType.rank + r * rowElems) (rowElems * 1)) g g' ∧
          ∀ e < rowElems, ElementCopied tables h (some s) i (arrayHeaderCells arrayType.rank + r * rowElems + e * 1) row
            (arrayHeaderCells (h.slot row).rank + e) 1 g' := by
        refine elements_copied _ _ writes (by omega) (fun _ _ => rfl) (fun e below f f' _ reached room run => ?_) ran
        rw [Nat.mul_one] at room ⊢
        exact copyStructElement_copied kept fresh ⟨inside, value.live⟩ reached room run
      simp only [Nat.mul_one] at looped
      exact ⟨looped.1, assembled looped.2⟩

theorem RowCopied.later (copied : RowCopied tables h arrayType i r row g) {written : List Nat} (writes : Writes i written g g')
    (away : ∀ k ∈ written,
      k < arrayHeaderCells arrayType.rank + r * (((h.slot row).word 3).toNat * arrayElemCells arrayType.elemKind) ∨
        arrayHeaderCells arrayType.rank + r * (((h.slot row).word 3).toNat * arrayElemCells arrayType.elemKind) +
          ((h.slot row).word 3).toNat * arrayElemCells arrayType.elemKind ≤ k) :
    RowCopied tables h arrayType i r row g' := by
  intro e below
  refine (copied e below).later (fun _ elems => structElems_cells elems) writes fun k member => ?_
  have next := Nat.mul_le_mul_right (arrayElemCells arrayType.elemKind) (Nat.succ_le_of_lt below)
  have apart := away k member
  rw [Nat.succ_mul] at next
  rw [Nat.add_mul, Nat.mul_assoc]
  omega

theorem copyAssembleRows_copied {rows : List Int} {size : Nat} (kept : Keeps h start) (fresh : Fresh h start i)
    (values : ∀ handle ∈ rows, handle.toNat < h.size ∧ ArrayValue tables h (h.slot handle.toNat) ∧
      (h.slot handle.toNat).rank = arrayType.rank - 1 ∧ ((h.slot handle.toNat).word 3).toNat = size)
    (room : arrayHeaderCells arrayType.rank + rows.length * (size * arrayElemCells arrayType.elemKind) ≤ (start.slot i).cells.length)
    (ran : copyAssembleRows tables shard quantum arrayType i rows start = some g') :
    Writes i (List.range' (arrayHeaderCells arrayType.rank) (rows.length * (size * arrayElemCells arrayType.elemKind))) start g' ∧
      ∀ r < rows.length, RowCopied tables h arrayType i r (rows.getD r 0).toNat g' := by
  have row (r : Nat) (below : r < rows.length) := values (rows.getD r 0) (by simp [below])
  have looped := writes_loop (arrayHeaderCells arrayType.rank) (size * arrayElemCells arrayType.elemKind)
    (fun r g => r < rows.length → RowCopied tables h arrayType i r (rows.getD r 0).toNat g) ?_ ?_ kept.sound
    ⟨fresh.inside, fresh.live⟩ ran
  · exact ⟨looped.1, fun r below => looped.2 r below below⟩
  · intro r below f f' reached run
    obtain ⟨inside, value, rank, isSize⟩ := row r below
    have next : (r + 1) * (size * arrayElemCells arrayType.elemKind) ≤ rows.length * (size * arrayElemCells arrayType.elemKind) :=
      Nat.mul_le_mul_right _ below
    have copied := copyAssembleRow_copied rfl kept fresh reached value inside rank (by rw [isSize, reached.only.length]; omega) run
    rw [isSize] at copied
    exact ⟨copied.1, fun _ => copied.2⟩
  · intro r f f' _ written _ writes away copied below
    refine (copied below).later writes ?_
    rw [(row r below).2.2.2]
    exact away

theorem snapshotAssembleRows_eq {rank : Nat} {rows dims : List Int} (positive : 1 ≤ rank)
    (snapshot : snapshotAssembleRows h rank rows = some dims) {handle : Int} (member : handle ∈ rows) :
    handle.toNat < h.size ∧ (h.slot handle.toNat).rank = rank - 1 ∧ dims = (rows.length : Int) :: (h.slot handle.toNat).dims := by
  rw [snapshotAssembleRows] at snapshot
  dsimp only at snapshot
  split at snapshot
  · rename_i agree
    obtain ⟨ranged, -, word, widths⟩ := of_decide_eq_true (List.all_eq_true.mp agree handle member)
    have rank_eq : (h.slot handle.toNat).rank = rank - 1 := by
      rw [Slot.rank, word]
      omega
    rw [Heap.inRange, decide_eq_true_eq] at ranged
    refine ⟨ranged.2, rank_eq, ?_⟩
    rw [← Option.some.inj snapshot, ← widths, Slot.dims, rank_eq]
  · cases snapshot

theorem opAssembleArrayN_copied {arrayTypeIdx : Nat} {rows : List Int} (sound : FreeListSound h [])
    (values : ∀ handle ∈ rows, ArrayValue tables h (h.slot handle.toNat))
    (made : opAssembleArrayN tables shard quantum h arrayTypeIdx rows = some (i, g)) :
    ∃ arrayType, tables.arrayTypes[arrayTypeIdx]? = some arrayType ∧ Keeps h g ∧ Fresh h g i ∧ ArrayRecord tables (g.slot i) ∧
      (g.slot i).word 1 = arrayTypeIdx ∧ (g.slot i).rank = arrayType.rank ∧
      ∀ r < rows.length, (g.slot i).dims = (rows.length : Int) :: (h.slot (rows.getD r 0).toNat).dims ∧
        (rows.getD r 0).toNat < h.size ∧ RowCopied tables h arrayType i r (rows.getD r 0).toNat g := by
  rw [opAssembleArrayN] at made
  cases at_type : tables.arrayTypes[arrayTypeIdx]? with
  | none => rw [at_type] at made; cases made
  | some arrayType =>
    rw [at_type] at made
    dsimp only at made
    split at made
    · cases made
    · rename_i shape
      obtain ⟨dims, snapshot, made⟩ := Option.bind_eq_some_iff.mp made
      obtain ⟨⟨j, start⟩, allocated, made⟩ := Option.bind_eq_some_iff.mp made
      obtain ⟨last, copied, made⟩ := Option.bind_eq_some_iff.mp made
      cases made
      refine ⟨arrayType, rfl, ?_⟩
      have agree {handle : Int} (member : handle ∈ rows) := snapshotAssembleRows_eq (by omega) snapshot member
      obtain ⟨first, inRows⟩ := List.exists_mem_of_ne_nil rows (by tauto)
      obtain ⟨-, rank, isDims⟩ := agree inRows
      have length : dims.length = arrayType.rank := by
        rw [isDims, List.length_cons, Slot.length_dims, rank]
        omega
      obtain ⟨kept, fresh, record, sameDims, typeWord⟩ := allocArrayOnHeap_record sound (by omega) allocated
      obtain ⟨row, at_row, cells⟩ := record.row
      rw [typeWord, Int.toNat_natCast, at_type, Option.some.injEq] at at_row
      subst at_row
      have sameRank : (start.slot j).rank = arrayType.rank := by rw [← length, ← sameDims, Slot.length_dims]
      have sizes {handle : Int} (member : handle ∈ rows) : (h.slot handle.toNat).word 3 = dims.tail.prod := by
        rw [(validateArrayDims_eq (values handle member).size).1, (agree member).2.2, List.tail_cons]
      have size : ((start.slot j).word 3).toNat = rows.length * dims.tail.prod.toNat := by
        have isProd := (validateArrayDims_eq record.size).1
        rw [sameDims, isDims, List.prod_cons] at isProd
        rw [isProd, isDims, List.tail_cons, Int.toNat_mul (by omega), Int.toNat_natCast]
        exact List.prod_nonneg fun dim member => ((validateArrayDims_eq (values first inRows).size).2.2 dim member).1
      have room : arrayHeaderCells arrayType.rank + rows.length * (dims.tail.prod.toNat * arrayElemCells arrayType.elemKind) ≤
          (start.slot j).cells.length := by
        rw [cells, size, sameRank, Nat.mul_assoc]
      obtain ⟨writes, rowsCopied⟩ := copyAssembleRows_copied kept fresh (fun handle member =>
        ⟨(agree member).1, values handle member, (agree member).2.1, congrArg Int.toNat (sizes member)⟩) room copied
      obtain ⟨assembled, finalDims, finalRank, finalWord⟩ := record.later writes.only fun k member => by
        rw [sameRank]
        exact (List.mem_range'_1.mp member).1
      refine ⟨writes.keeps kept fresh, ⟨fresh.free, fresh.positive, writes.after.1, writes.after.2⟩, assembled, finalWord.trans typeWord,
        finalRank.trans sameRank, fun r below => ?_⟩
      have inRows : rows.getD r 0 ∈ rows := by simp [below]
      exact ⟨by rw [finalDims, sameDims, (agree inRows).2.2], (agree inRows).1, rowsCopied r below⟩

end Assembled

theorem materializeViewRecord_copied {tables : TypeTables} {shard quantum i k : Nat} {h g : Heap} (sound : FreeListSound h [])
    (inside : i < h.size) (record : ViewRecord tables h (h.slot i)) {row : CompiledArrayType}
    (at_row : tables.arrayTypes[((h.slot i).word 1).toNat]? = some row)
    (made : materializeViewRecord tables shard quantum h i = some (k, g)) :
    Fresh h g k ∧ ArrayRecord tables (g.slot k) ∧ (g.slot k).dims = (h.slot i).dims ∧
      (g.slot k).word 1 = (((h.slot i).word 1).toNat : Int) ∧ Keeps h g ∧
      ∀ e < ((h.slot i).word 3).toNat, ∀ c < arrayElemCells row.elemKind,
        g.cell k (arrayHeaderCells (h.slot i).rank + e * arrayElemCells row.elemKind + c) =
          h.cell (h.ownerOf i) (arrayHeaderCells (h.slot (h.ownerOf i)).rank +
            flatAddress (h.slot i) e * arrayElemCells row.elemKind + c) := by
  have value : ArrayValue tables h (h.slot i) := .view record
  obtain ⟨ownerInside, owner⟩ := value.owner inside
  have isOwner : h.ownerOf i = (h.slot i).viewTarget.toNat := by rw [ownerOf, if_pos record.kind]
  rw [materializeViewRecord] at made
  split at made
  · cases made
  · rw [Int.toNat_natCast] at made
    obtain ⟨⟨k', start⟩, allocated, made⟩ := Option.bind_eq_some_iff.mp made
    change allocArrayOnHeap tables shard quantum h ((h.slot i).word 1).toNat (h.slot i).dims = some (k', start) at allocated
    have rank : 1 ≤ (h.slot i).dims.length ∧ (h.slot i).dims.length ≤ kMaxArrayRank := by
      have := record.rank
      rw [Slot.length_dims, Slot.rank]
      omega
    obtain ⟨kept, fresh, array, sameDims, typeWord⟩ := allocArrayOnHeap_record sound rank allocated
    obtain ⟨row', at_row', cells⟩ := array.row
    rw [typeWord, Int.toNat_natCast, at_row, Option.some.injEq] at at_row'
    subst at_row'
    have sameOwner := kept.slot _ ownerInside owner.live
    have sameRank : (start.slot k').rank = (h.slot i).rank := by rw [← Slot.length_dims, sameDims, Slot.length_dims]
    have sameSize : (start.slot k').word 3 = (h.slot i).word 3 := by
      rw [(validateArrayDims_eq array.size).1, (validateArrayDims_eq record.size).1, sameDims]
    have base : (start.slot (h.slot i).viewTarget.toNat).arrayPayloadBase =
        some (arrayHeaderCells (h.slot (h.ownerOf i)).rank) := by
      rw [← isOwner, sameOwner, owner.payloadBase]
    obtain ⟨base', payload, made⟩ := Option.bind_eq_some_iff.mp made
    cases payload.symm.trans base
    have at_cell : tables.arrayTypes[((h.slot i).cells.getD 1 0).toNat]? = some row := at_row
    rw [at_cell] at made
    obtain ⟨rfl, filled⟩ := Prod.mk.inj (Option.some.inj made)
    have ran : (List.range ((h.slot i).word 3).toNat).foldlM (fun f e => some (f.copyBlock k'
        (arrayHeaderCells (h.slot i).rank + e * arrayElemCells row.elemKind) (h.slot i).viewTarget.toNat
        (arrayHeaderCells (h.slot (h.ownerOf i)).rank + (viewFlatElementAddress (h.slot i) e).toNat * arrayElemCells row.elemKind)
        (arrayElemCells row.elemKind))) start = some g := by
      rw [← filled]
      exact List.foldlM_pure
    rw [← isOwner] at ran
    have address (e : Nat) : (viewFlatElementAddress (h.slot i) e).toNat = flatAddress (h.slot i) e := by
      rw [flatAddress, if_pos record.kind]
    simp only [address] at ran
    have looped : Writes k' (List.range' (arrayHeaderCells (h.slot i).rank)
          (((h.slot i).word 3).toNat * arrayElemCells row.elemKind)) start g ∧
        ∀ e < ((h.slot i).word 3).toNat, ElementCopied tables h none k'
          (arrayHeaderCells (h.slot i).rank + e * arrayElemCells row.elemKind) (h.ownerOf i)
          (arrayHeaderCells (h.slot (h.ownerOf i)).rank + flatAddress (h.slot i) e * arrayElemCells row.elemKind)
          (arrayElemCells row.elemKind) g := by
      refine elements_copied _ _ (.refl kept.sound ⟨fresh.inside, fresh.live⟩) (by rw [cells, sameRank, sameSize])
        (fun _ elems => by cases elems) (fun e below f f' _ reached room run => ?_) ran
      cases run
      exact copyBlock_copied kept fresh ⟨ownerInside, owner.live⟩ _ reached room
    obtain ⟨writes, copied⟩ := looped
    obtain ⟨final, finalDims, -, finalWord⟩ := array.later writes.only fun c member => by
      rw [sameRank]
      exact (List.mem_range'_1.mp member).1
    exact ⟨⟨fresh.free, fresh.positive, writes.after.1, writes.after.2⟩, final, finalDims.trans sameDims, finalWord.trans typeWord,
      writes.keeps kept fresh, copied⟩

end NLang.Vm.Heap
