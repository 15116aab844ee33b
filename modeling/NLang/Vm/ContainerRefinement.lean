import NLang.Library.MapHistories
import NLang.Vm.ContainerHandles

/-!
# Container operations on their models

The entries of a Dict stand for rows of keys and values, and each operation does to the rows what it does to a map. The
elements of a List stand for keys.
-/

namespace NLang.Vm
open NLang.Library.Fuelled NLang.Library.MapHistories

def EntryOf (h : Heap) (strings : StringHeap) (entry : Int × Int) (row : DictKey × Int) : Prop :=
  IsKey h strings entry.1 row.1 ∧ entry.2 = row.2

namespace Heap

section Loops
variable {h : Heap} {strings : StringHeap} {k : Int} {key : DictKey} {entries : List (Int × Int)}
  {rows : List (DictKey × Int)}
variable (isKey : IsKey h strings k key) (areEntries : List.Forall₂ (EntryOf h strings) entries rows)
include isKey areEntries

theorem dictSetLoop_computes (v : Int) : ∃ entries', Computes (fun fuel => h.dictSetLoop strings fuel k v entries) entries' ∧
    List.Forall₂ (EntryOf h strings) entries' (put rows key v) := by
  induction areEntries with
  | nil => exact ⟨_, computes_some _, .cons ⟨isKey, rfl⟩ .nil⟩
  | @cons entry row entries rows isEntry rest ih =>
    let after : Bool → Nat → Option (List (Int × Int)) := fun equal fuel =>
      if equal then some ((entry.1, v) :: entries) else (h.dictSetLoop strings fuel k v entries).map (entry :: ·)
    have first := dictKeysEqual_computes isEntry.1 isKey
    by_cases found : row.1 = key
    · rw [decide_eq_true found] at first
      have stops : Computes (after true) ((entry.1, v) :: entries) := computes_some _
      refine ⟨_, first.bind stops, ?_⟩
      rw [put, if_pos found]
      exact .cons ⟨isEntry.1, rfl⟩ rest
    · rw [decide_eq_false found] at first
      obtain ⟨entries', later, kept⟩ := ih
      have goesOn : Computes (after false) (entry :: entries') := later.map (entry :: ·)
      refine ⟨_, first.bind goesOn, ?_⟩
      rw [put, if_neg found]
      exact .cons isEntry kept

theorem dictFindLoop_computes : Computes (fun fuel => h.dictFindLoop strings fuel k entries) (lookup rows key) := by
  induction areEntries with
  | nil => exact computes_some _
  | @cons entry row entries rows isEntry rest ih =>
    let after : Bool → Nat → Option (Option Int) := fun equal fuel =>
      if equal then some (some entry.2) else h.dictFindLoop strings fuel k entries
    have first := dictKeysEqual_computes isEntry.1 isKey
    rw [lookup]
    by_cases found : row.1 = key
    · rw [decide_eq_true found] at first
      have stops : Computes (after true) (some entry.2) := computes_some _
      rw [if_pos found, ← isEntry.2]
      exact first.bind stops
    · rw [decide_eq_false found] at first
      have goesOn : Computes (after false) (lookup rows key) := ih
      rw [if_neg found]
      exact first.bind goesOn

theorem dictRemoveLoop_computes : ∃ entries', Computes (fun fuel => h.dictRemoveLoop strings fuel k entries)
    (if (lookup rows key).isSome then 1 else 0, entries') ∧
      List.Forall₂ (EntryOf h strings) entries' (erase rows key) := by
  induction areEntries with
  | nil => exact ⟨_, computes_some _, .nil⟩
  | @cons entry row entries rows isEntry rest ih =>
    let after : Bool → Nat → Option (Int × List (Int × Int)) := fun equal fuel =>
      if equal then some (1, entries)
      else (h.dictRemoveLoop strings fuel k entries).map fun found => (found.1, entry :: found.2)
    have first := dictKeysEqual_computes isEntry.1 isKey
    rw [lookup, erase]
    by_cases found : row.1 = key
    · rw [decide_eq_true found] at first
      have stops : Computes (after true) (1, entries) := computes_some _
      rw [if_pos found, if_pos found]
      exact ⟨_, first.bind stops, rest⟩
    · rw [decide_eq_false found] at first
      obtain ⟨entries', later, kept⟩ := ih
      rw [if_neg found, if_neg found]
      let keep : Int × List (Int × Int) → Int × List (Int × Int) := fun found => (found.1, entry :: found.2)
      have goesOn : Computes (after false) (if (lookup rows key).isSome then 1 else 0, entry :: entries') :=
        later.map keep
      exact ⟨_, first.bind goesOn, .cons isEntry kept⟩

end Loops

section Dict
variable {h : Heap} {strings : StringHeap} {i : Nat} {k handle : Int} {key : DictKey} {entries : List (Int × Int)}
  {rows : List (DictKey × Int)}
variable (owner : Owner h .dict i handle) (slot : h.sideSlot .dict handle = unpairs entries)
variable (areEntries : List.Forall₂ (EntryOf h strings) entries rows)
include owner slot areEntries

omit areEntries owner in
theorem dictEntries_of_slot : h.dictEntries handle = entries := by rw [dictEntries, slot, pairs_unpairs]

theorem dictCount_eq : h.dictCount i = .ok ↑rows.length := by
  unfold dictCount readDictHandle
  rw [owner.readHandle, ← areEntries.length_eq]
  dsimp only [bind, Except.bind, pure, Except.pure]
  rw [dictEntries_of_slot slot]

variable (isKey : IsKey h strings k key)
include isKey

theorem dictGet_computes (classes : ExceptionClasses) : Computes (fun fuel => h.dictGet classes strings fuel i k)
    (match lookup rows key with
      | some value => .ok value
      | none => .error (.raised classes.exceptionClassIdx "NLang VM: Dict key not found")) := by
  simp only [dictGet, readDictHandle, owner.readHandle, dictEntries_of_slot slot]
  exact (dictFindLoop_computes isKey areEntries).map _

theorem dictContainsKey_computes : Computes (fun fuel => h.dictContainsKey strings fuel i k)
    (.ok (if (lookup rows key).isSome then 1 else 0)) := by
  simp only [dictContainsKey, readDictHandle, owner.readHandle, dictEntries_of_slot slot]
  exact (dictFindLoop_computes isKey areEntries).map _

theorem dictSet_computes (v : Int) : ∃ entries',
    Computes (fun fuel => h.dictSet strings fuel i k v) (.ok (h.setDictEntries handle entries')) ∧
      List.Forall₂ (EntryOf h strings) entries' (put rows key v) := by
  simp only [dictSet, readDictHandle, owner.readHandle, dictEntries_of_slot slot]
  obtain ⟨entries', looped, kept⟩ := dictSetLoop_computes isKey areEntries v
  exact ⟨entries', looped.map _, kept⟩

theorem dictRemove_computes : ∃ entries', Computes (fun fuel => h.dictRemove strings fuel i k)
    (.ok (if (lookup rows key).isSome then 1 else 0, h.setDictEntries handle entries')) ∧
      List.Forall₂ (EntryOf h strings) entries' (erase rows key) := by
  simp only [dictRemove, readDictHandle, owner.readHandle, dictEntries_of_slot slot]
  obtain ⟨entries', looped, kept⟩ := dictRemoveLoop_computes isKey areEntries
  exact ⟨entries', looped.map _, kept⟩

omit areEntries isKey slot in
theorem dictClear_eq : h.dictClear i = .ok (h.setDictEntries handle []) := by
  unfold dictClear readDictHandle
  rw [owner.readHandle]
  rfl

end Dict

section List
variable {h : Heap} {i : Nat} {handle : Int} {elements : List Int} (classes : ExceptionClasses)
variable (owner : Owner h .list i handle) (slot : h.sideSlot .list handle = elements)
include owner slot

theorem listAdd_eq (value : Int) : h.listAdd i value = .ok (h.setSideSlot .list handle (elements ++ [value])) := by
  unfold listAdd readListHandle
  rw [owner.readHandle, ← slot]
  rfl

theorem listSet_eq (idx value : Int) : h.listSet classes i idx value =
    (checkListIndex classes elements idx).map fun _ =>
      h.setSideSlot .list handle (elements.set idx.toNat value) := by
  unfold listSet readListHandle
  rw [owner.readHandle, ← slot]
  rfl

theorem listRemoveAt_eq (idx : Int) : h.listRemoveAt classes i idx =
    (checkListIndex classes elements idx).map fun _ => h.setSideSlot .list handle (elements.eraseIdx idx.toNat) := by
  unfold listRemoveAt readListHandle
  rw [owner.readHandle, ← slot]
  rfl

omit slot in
theorem listClear_eq : h.listClear i = .ok (h.setSideSlot .list handle []) := by
  unfold listClear readListHandle
  rw [owner.readHandle]
  rfl

variable {strings : StringHeap} {value : Int} {key : DictKey} {keys : List DictKey}
variable (isValue : IsKey h strings value key) (areElements : List.Forall₂ (IsKey h strings) elements keys)
include isValue areElements

theorem listIndexOf_computes : Computes (fun fuel => h.listIndexOf i strings fuel value)
    (.ok (match keys.findIdx? (· = key) with
      | some p => ↑p
      | none => -1)) := by
  simp only [listIndexOf, readListHandle, owner.readHandle, slot]
  have found := (findListElement_computes isValue areElements 0).map fun p : Int => (.ok p : Except Fault Int)
  cases place : keys.findIdx? (· = key) with
  | none => simpa [place] using found
  | some p => simpa [place] using found

theorem listContains_computes : Computes (fun fuel => h.listContains i strings fuel value)
    (.ok (if key ∈ keys then 1 else 0)) := by
  simp only [listContains, readListHandle, owner.readHandle, slot]
  have found := (findListElement_computes isValue areElements 0).map fun p : Int =>
    (.ok (if 0 ≤ p then 1 else 0) : Except Fault Int)
  cases place : keys.findIdx? (· = key) with
  | none =>
    have absent : key ∉ keys := fun member =>
      absurd (List.findIdx?_eq_none_iff.mp place key member) (by simp)
    simpa [place, absent] using found
  | some p =>
    have present : key ∈ keys := by
      obtain ⟨inside, equal, -⟩ := List.findIdx?_eq_some_iff_getElem.mp place
      exact (of_decide_eq_true equal) ▸ List.getElem_mem inside
    simpa [place, present] using found

end List

end Heap

end NLang.Vm
