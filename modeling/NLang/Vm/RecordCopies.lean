import NLang.Vm.Allocation
import NLang.Vm.Ownership

/-!
# Copies into a new record

A copy fills a record that nobody else knows yet. Between its stores it may allocate further records, so what it
leaves alone is every other live record and the other cells of its own.
-/

namespace NLang.Vm.Heap

theorem OnlyCells.refl (slot : Slot) : OnlyCells [] slot slot := ⟨rfl, rfl, rfl, fun _ _ => rfl⟩

theorem OnlyCells.mono {cells cells' : List Nat} {slot slot' : Slot} (only : OnlyCells cells slot slot') (more : cells ⊆ cells') :
    OnlyCells cells' slot slot' :=
  ⟨only.kind, only.structIdx, only.length, fun k away => only.others k fun member => away (more member)⟩

theorem OnlyCells.step {cells cells' : List Nat} {slot slot' slot'' : Slot} (first : OnlyCells cells slot slot')
    (second : OnlyCells cells' slot' slot'') : OnlyCells (cells ++ cells') slot slot'' := by
  refine ⟨second.kind.trans first.kind, second.structIdx.trans first.structIdx, second.length.trans first.length, fun k away => ?_⟩
  rw [List.mem_append, not_or] at away
  rw [second.others k away.2, first.others k away.1]

structure Writes (i : Nat) (cells : List Nat) (g g' : Heap) : Prop where
  sound : FreeListSound g' []
  size : g.size ≤ g'.size
  inside : i < g.size ∧ (g.slot i).isFree = false
  others : ∀ j < g.size, (g.slot j).isFree = false → j ≠ i → g'.slot j = g.slot j
  only : OnlyCells cells (g.slot i) (g'.slot i)

namespace Writes
variable {i : Nat} {cells cells' : List Nat} {g g' g'' : Heap}

theorem refl (sound : FreeListSound g []) (inside : i < g.size ∧ (g.slot i).isFree = false) : Writes i [] g g :=
  ⟨sound, Nat.le_refl _, inside, fun _ _ _ _ => rfl, .refl _⟩

theorem mono (writes : Writes i cells g g') (more : cells ⊆ cells') : Writes i cells' g g' :=
  ⟨writes.sound, writes.size, writes.inside, writes.others, writes.only.mono more⟩

theorem after (writes : Writes i cells g g') : i < g'.size ∧ (g'.slot i).isFree = false := by
  refine ⟨Nat.lt_of_lt_of_le writes.inside.1 writes.size, ?_⟩
  have live := writes.inside.2
  rw [Slot.isFree] at live ⊢
  rw [writes.only.kind, live]

theorem step (first : Writes i cells g g') (second : Writes i cells' g' g'') : Writes i (cells ++ cells') g g'' := by
  refine ⟨second.sound, Nat.le_trans first.size second.size, first.inside, fun j below live apart => ?_, first.only.step second.only⟩
  have same := first.others j below live apart
  rw [second.others j (Nat.lt_of_lt_of_le below first.size) (same ▸ live) apart, same]

theorem ofKeeps (keeps : Keeps g g') (inside : i < g.size ∧ (g.slot i).isFree = false) : Writes i [] g g' :=
  ⟨keeps.sound, keeps.size, inside, fun j below live _ => keeps.slot j below live, by rw [keeps.slot i inside.1 inside.2]; exact .refl _⟩

theorem storeCell (sound : FreeListSound g []) (inside : i < g.size ∧ (g.slot i).isFree = false) (k : Nat) (value : Int) :
    Writes i [k] g (g.storeCell i k value) := by
  refine ⟨storeCell_sound sound k value, Nat.le_refl _, inside, fun j _ _ apart => ?_, ?_, ?_, ?_, fun other away => ?_⟩
  · rw [Heap.storeCell, setSlot_slot_of_ne _ _ _ _ apart]
  all_goals rw [Heap.storeCell, setSlot_slot_self]
  · exact List.length_set
  · simp [List.getD_eq_getElem?_getD, Ne.symm (List.ne_of_not_mem_cons away)]

end Writes

theorem cell_storeCell_self {h : Heap} {i k : Nat} (inside : k < (h.slot i).cells.length) (value : Int) :
    (h.storeCell i k value).cell i k = value := by
  rw [cell, storeCell, setSlot_slot_self]
  simp [List.getD_eq_getElem?_getD, inside]

section Loop
variable {i count : Nat} {step : Nat → Heap → Option Heap} {start last : Heap} (base width : Nat) (Done : Nat → Heap → Prop)

theorem writes_loop
    (each : ∀ e < count, ∀ g g', Writes i (List.range' base (e * width)) start g → step e g = some g' →
      Writes i (List.range' (base + e * width) width) g g' ∧ Done e g')
    (stable : ∀ e g g' written cells, Writes i written start g → Writes i cells g g' →
      (∀ k ∈ cells, k < base + e * width ∨ base + e * width + width ≤ k) → Done e g → Done e g')
    (sound : FreeListSound start []) (inside : i < start.size ∧ (start.slot i).isFree = false)
    (ran : (List.range count).foldlM (fun g e => step e g) start = some last) :
    Writes i (List.range' base (count * width)) start last ∧ ∀ e < count, Done e last := by
  induction count generalizing last with
  | zero =>
    cases ran
    exact ⟨(Writes.refl sound inside).mono (List.nil_subset _), fun e below => absurd below (Nat.not_lt_zero e)⟩
  | succ count ih =>
    rw [List.range_succ, List.foldlM_append] at ran
    obtain ⟨middle, before, ran⟩ := Option.bind_eq_some_iff.mp ran
    rw [List.foldlM_cons] at ran
    obtain ⟨_, ran, same⟩ := Option.bind_eq_some_iff.mp ran
    cases same
    obtain ⟨written, done⟩ := ih (fun e below => each e (by omega)) before
    obtain ⟨writes, doneLast⟩ := each count (by omega) middle last written ran
    refine ⟨(written.step writes).mono fun k member => ?_, fun e below => ?_⟩
    · rw [Nat.succ_mul, ← List.range'_append_1]
      exact member
    · rcases Nat.lt_succ_iff_lt_or_eq.mp below with earlier | rfl
      · refine stable e middle last _ _ written writes (fun k member => .inr ?_) (done e earlier)
        have next : (e + 1) * width ≤ count * width := Nat.mul_le_mul_right width earlier
        rw [Nat.succ_mul] at next
        have := List.mem_range'_1.mp member
        omega
      · exact doneLast

end Loop

def copyBlock (h : Heap) (i dst record src count : Nat) : Heap :=
  (List.range count).foldl (fun h c => h.storeCell i (dst + c) (h.cell record (src + c))) h

theorem copyBlock_spec {h : Heap} {i record dst count : Nat} (src : Nat) (sound : FreeListSound h [])
    (inside : i < h.size ∧ (h.slot i).isFree = false) (source : record < h.size ∧ (h.slot record).isFree = false ∧ record ≠ i)
    (room : dst + count ≤ (h.slot i).cells.length) :
    Writes i (List.range' dst count) h (h.copyBlock i dst record src count) ∧
      ∀ c < count, (h.copyBlock i dst record src count).cell i (dst + c) = h.cell record (src + c) := by
  have ran : (List.range count).foldlM (fun (g : Heap) c => some (g.storeCell i (dst + c) (g.cell record (src + c)))) h =
      some (h.copyBlock i dst record src count) := List.foldlM_pure
  have looped := writes_loop dst 1 (fun c g => g.cell i (dst + c) = h.cell record (src + c)) ?_ ?_ sound inside ran
  · rw [Nat.mul_one] at looped
    exact looped
  · rintro c below g _ written ⟨rfl⟩
    rw [Nat.mul_one] at written ⊢
    have stored := Writes.storeCell written.sound written.after (dst + c) (g.cell record (src + c))
    refine ⟨stored, ?_⟩
    rw [cell_storeCell_self (by rw [written.only.length]; omega), cell, written.others record source.1 source.2.1 source.2.2, cell]
  · intro c g g' _ cells written writes away done
    rw [cell, writes.only.others (dst + c) fun member => ?_]
    · exact done
    · have := away _ member
      omega

section Structs
variable (tables : TypeTables)

inductive StructValue (h : Heap) : Nat → Int → Prop where
  | record {s : Nat} {a : Int} (inside : 0 ≤ a ∧ a.toNat < h.size) (kind : (h.slot a.toNat).kind = .struct)
      (length : (h.slot a.toNat).cells.length = 2 * (tables.structRow s).fields.length)
      (nested : ∀ cell ∈ tables.nestedCells s, StructValue h cell.2 (h.cell a.toNat cell.1)) : StructValue h s a

inductive StructCopy (h h' : Heap) (new : Nat → Prop) : Nat → Int → Int → Prop where
  | record {s : Nat} {a b : Int} (inside : 0 < b ∧ b.toNat < h'.size) (fresh : new b.toNat)
      (kind : (h'.slot b.toNat).kind = .struct ∧ (h'.slot b.toNat).structIdx = s)
      (length : (h'.slot b.toNat).cells.length = (h.slot a.toNat).cells.length)
      (cells : ∀ k, k ∉ (tables.nestedCells s).map (·.1) → h'.cell b.toNat k = h.cell a.toNat k)
      (nested : ∀ cell ∈ tables.nestedCells s, StructCopy h h' new cell.2 (h.cell a.toNat cell.1) (h'.cell b.toNat cell.1)) :
      StructCopy h h' new s a b

variable {tables} {h g g' : Heap} {new : Nat → Prop} {s : Nat} {a b : Int}

theorem StructCopy.later (copy : StructCopy tables h g new s a b) {new' : Nat → Prop} (size : g.size ≤ g'.size)
    (weaker : ∀ j, new j → new' j)
    (same : ∀ j < g.size, (g.slot j).isFree = false → new j → g'.slot j = g.slot j) : StructCopy tables h g' new' s a b := by
  induction copy with
  | @record s a b inside fresh kind length cells nested ih =>
    have kept := same b.toNat inside.2 (by rw [Slot.isFree, kind.1]; decide) fresh
    have cell (k : Nat) : g'.cell b.toNat k = g.cell b.toNat k := by rw [Heap.cell, kept, Heap.cell]
    refine .record ⟨inside.1, Nat.lt_of_lt_of_le inside.2 size⟩ (weaker _ fresh) (kept ▸ kind) (kept ▸ length) (fun k away => ?_)
      fun inner member => ?_
    · rw [cell, cells k away]
    · rw [cell]
      exact ih inner member

theorem fillCells_writes {make : Heap → Nat × Nat → Option (Nat × Heap)} {start last : Heap} {i : Nat} {cells : List (Nat × Nat)}
    (Made : Heap → Nat × Nat → Int → Prop)
    (makes : ∀ cell ∈ cells, ∀ g g' inner written, Writes i written start g → make g cell = some (inner, g') →
      Keeps g g' ∧ Made g' cell inner)
    (stable : ∀ cell value g g' written, Writes i written g g' → Made g cell value → Made g' cell value)
    (functional : ∀ one ∈ cells, ∀ other ∈ cells, one.1 = other.1 → one = other)
    (room : ∀ cell ∈ cells, cell.1 < (start.slot i).cells.length)
    (sound : FreeListSound start []) (inside : i < start.size ∧ (start.slot i).isFree = false)
    (filled : start.fillCells make i cells = some last) :
    Writes i (cells.map (·.1)) start last ∧ ∀ cell ∈ cells, Made last cell (last.cell i cell.1) := by
  induction cells generalizing start with
  | nil =>
    cases filled
    exact ⟨.refl sound inside, fun _ member => nomatch member⟩
  | cons cell cells ih =>
    rw [fillCells, List.foldlM_cons] at filled
    obtain ⟨_, first, filled⟩ := Option.bind_eq_some_iff.mp filled
    obtain ⟨⟨inner, g⟩, made, rfl⟩ := Option.map_eq_some_iff.mp first
    obtain ⟨grown, isMade⟩ := makes cell (.head _) start g inner [] (.refl sound inside) made
    have kept := Writes.ofKeeps grown inside
    have stored := Writes.storeCell kept.sound kept.after cell.1 (inner : Int)
    have writes := kept.step stored
    obtain ⟨rest, madeRest⟩ := ih
      (fun other member f f' inner written grows run => makes other (.tail _ member) f f' inner _ (writes.step grows) run)
      (fun one inOne other inOther => functional one (.tail _ inOne) other (.tail _ inOther))
      (fun other member => by rw [writes.only.length]; exact room other (.tail _ member)) stored.sound writes.after filled
    refine ⟨(writes.step rest).mono (by simp), fun other member => ?_⟩
    by_cases again : other ∈ cells
    · exact madeRest other again
    · obtain rfl : other = cell := (List.mem_cons.mp member).resolve_right again
      have kept_cell : last.cell i other.1 = inner := by
        rw [Heap.cell, rest.only.others other.1 fun inRest => ?_]
        · exact cell_storeCell_self (by rw [kept.only.length]; exact room other (.head _)) _
        · obtain ⟨twin, inTwin, same⟩ := List.mem_map.mp inRest
          exact again (functional twin (.tail _ inTwin) other (.head _) same ▸ inTwin)
      rw [kept_cell]
      exact stable other inner _ _ _ (stored.step rest) isMade

theorem nestedCells_functional {one other : Nat × Nat} (inOne : one ∈ tables.nestedCells s) (inOther : other ∈ tables.nestedCells s)
    (same : one.1 = other.1) : one = other := by
  obtain ⟨p, field, isP, found, -, idx⟩ := mem_nestedCells tables inOne
  obtain ⟨q, field', isQ, found', -, idx'⟩ := mem_nestedCells tables inOther
  obtain rfl : p = q := by omega
  cases found.symm.trans found'
  exact Prod.ext same (Option.some.inj (idx.symm.trans idx'))

theorem deepCopyWithin_copy {shard quantum bound i : Nat} (sound : FreeListSound g []) (kept : Keeps h g)
    (value : StructValue tables h s a) (made : deepCopyWithin tables shard quantum bound g a s = some (i, g')) :
    StructCopy tables h g' (fun j => ¬ (j < g.size ∧ (g.slot j).isFree = false)) s a i := by
  induction bound generalizing g g' a s i with
  | zero => cases made
  | succ bound ih =>
    obtain ⟨inside, kind, length, nested⟩ := value
    rw [deepCopyWithin] at made
    split at made
    · cases made
    · obtain ⟨⟨j, start⟩, taken, made⟩ := Option.bind_eq_some_iff.mp made
      obtain ⟨_, filled, made⟩ := Option.bind_eq_some_iff.mp made
      cases made
      have same : g.slot a.toNat = h.slot a.toNat := kept.slot a.toNat inside.2 (by rw [Slot.isFree, kind]; decide)
      rw [same] at taken filled
      obtain ⟨keeps, fresh, stored⟩ := newRecord_keeps sound rfl taken
      have looped := fillCells_writes (fun f cell inner => StructCopy tables h f
          (fun k => ¬ (k < g.size ∧ (g.slot k).isFree = false) ∧ k ≠ i) cell.2 (h.cell a.toNat cell.1) inner) ?_ ?_ (fun one inOne other inOther => nestedCells_functional inOne inOther)
        ?_ keeps.sound ⟨fresh.inside, fresh.live⟩ filled
      · obtain ⟨writes, copies⟩ := looped
        have only := writes.only
        rw [stored] at only
        refine .record ⟨by have := fresh.positive; omega, writes.after.1⟩ fresh.free ⟨only.kind, only.structIdx⟩ only.length (fun k away => ?_)
          fun cell member => (copies cell member).later (Nat.le_refl _) (fun _ new => new.1) fun _ _ _ _ => rfl
        rw [Heap.cell, Int.toNat_natCast, only.others k away, Heap.cell]
      · intro cell member f f' inner written writes run
        have keepsInner := deepCopyWithin_keeps bound writes.sound run
        refine ⟨keepsInner.1, ?_⟩
        have reached : Keeps g f := by
          refine ⟨writes.sound, Nat.le_trans keeps.size writes.size, fun k below live => ?_⟩
          have same := keeps.slot k below live
          rw [writes.others k (Nat.lt_of_lt_of_le below keeps.size) (same ▸ live) (fresh.ne below live), same]
        refine (ih writes.sound (kept.step reached) (nested cell member) run).later (Nat.le_refl _) (fun k new => ⟨?_, ?_⟩)
          fun _ _ _ _ => rfl
        · rintro ⟨below, live⟩
          exact new ⟨Nat.lt_of_lt_of_le below reached.size, by rw [reached.slot k below live]; exact live⟩
        · rintro rfl
          exact new writes.after
      · intro cell value f f' written writes copy
        refine copy.later writes.size (fun _ new => new) fun k below live new => writes.others k below live new.2
      · intro cell member
        obtain ⟨p, field, isCell, found, -⟩ := mem_nestedCells tables member
        obtain ⟨below, -⟩ := List.getElem?_eq_some_iff.mp found
        rw [stored]
        dsimp only
        rw [length]
        omega

end Structs

end NLang.Vm.Heap
