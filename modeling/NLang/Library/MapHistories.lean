import Mathlib

/-!
# Histories of a map

What the events of a history say about a map, the newest event first: a key has the value of the last write that no
removal follows, and its place is that of the write that put it in. Rows record a history when they hold these values in
the order of the places.
-/

namespace NLang.Library.MapHistories
variable {κ ν : Type} [DecidableEq κ]

inductive MapEvent (κ ν : Type) where
  | set (key : κ) (value : ν)
  | remove (key : κ)
  | clear
  deriving DecidableEq

def lastSet : List (MapEvent κ ν) → κ → Option ν
  | [], _ => none
  | .set k v :: history, key => if k = key then some v else lastSet history key
  | .remove k :: history, key => if k = key then none else lastSet history key
  | .clear :: _, _ => none

def insertedAt : List (MapEvent κ ν) → κ → Option Nat
  | [], _ => none
  | .set k _ :: history, key =>
    if k = key then some ((insertedAt history key).getD history.length) else insertedAt history key
  | .remove k :: history, key => if k = key then none else insertedAt history key
  | .clear :: _, _ => none

def Earlier (history : List (MapEvent κ ν)) (a b : κ) : Prop :=
  ∃ m n, insertedAt history a = some m ∧ insertedAt history b = some n ∧ m < n

section Inserted
variable {history : List (MapEvent κ ν)} {key : κ} {m : Nat}

theorem insertedAt_lt (inserted : insertedAt history key = some m) : m < history.length := by
  induction history generalizing m with
  | nil => cases inserted
  | cons event history ih =>
    rw [List.length_cons]
    cases event with
    | set k v =>
      simp only [insertedAt] at inserted
      split at inserted
      · cases inserted
        cases before : insertedAt history key with
        | none => exact Nat.lt_succ_self _
        | some n => exact Nat.lt_succ_of_lt (ih before)
      · exact Nat.lt_succ_of_lt (ih inserted)
    | remove k =>
      simp only [insertedAt] at inserted
      split at inserted
      · cases inserted
      · exact Nat.lt_succ_of_lt (ih inserted)
    | clear => cases inserted

theorem isSome_insertedAt : (insertedAt history key).isSome = (lastSet history key).isSome := by
  induction history with
  | nil => rfl
  | cons event history ih =>
    cases event with
    | set k v =>
      simp only [insertedAt, lastSet]
      split
      · rfl
      · exact ih
    | remove k =>
      simp only [insertedAt, lastSet]
      split
      · rfl
      · exact ih
    | clear => rfl

theorem insertedAt_set_of_isSome {k : κ} {v : ν} (present : (insertedAt history k).isSome = true) :
    insertedAt (.set k v :: history) key = insertedAt history key := by
  simp only [insertedAt]
  by_cases same : k = key
  · subst same
    obtain ⟨m, inserted⟩ := Option.isSome_iff_exists.mp present
    rw [if_pos rfl, inserted, Option.getD_some]
  · rw [if_neg same]

theorem insertedAt_set_of_ne {k : κ} {v : ν} (apart : k ≠ key) :
    insertedAt (.set k v :: history) key = insertedAt history key := if_neg apart

theorem insertedAt_remove_of_ne {k : κ} (apart : k ≠ key) :
    insertedAt (.remove k :: history : List (MapEvent κ ν)) key = insertedAt history key := if_neg apart

end Inserted

def lookup : List (κ × ν) → κ → Option ν
  | [], _ => none
  | (k, v) :: rows, key => if k = key then some v else lookup rows key

def put : List (κ × ν) → κ → ν → List (κ × ν)
  | [], key, value => [(key, value)]
  | (k, v) :: rows, key, value => if k = key then (k, value) :: rows else (k, v) :: put rows key value

def erase : List (κ × ν) → κ → List (κ × ν)
  | [], _ => []
  | (k, v) :: rows, key => if k = key then rows else (k, v) :: erase rows key

section Rows
variable (rows : List (κ × ν)) (key other : κ) (value : ν)

theorem isSome_lookup : (lookup rows key).isSome = true ↔ key ∈ rows.map Prod.fst := by
  induction rows with
  | nil => simp [lookup]
  | cons row rows ih =>
    simp only [lookup, List.map_cons, List.mem_cons]
    by_cases same : row.1 = key
    · simp [same]
    · rw [if_neg same, ih]
      exact ⟨.inr, fun either => either.elim (fun equal => absurd equal.symm same) id⟩

theorem lookup_put : lookup (put rows key value) other = if key = other then some value else lookup rows other := by
  induction rows with
  | nil => rfl
  | cons row rows ih =>
    simp only [put]
    by_cases here : row.1 = key
    · rw [if_pos here]
      simp only [lookup, here]
      by_cases same : key = other
      · rw [if_pos same, if_pos same]
      · rw [if_neg same, if_neg same, if_neg same]
    · rw [if_neg here]
      simp only [lookup, ih]
      by_cases this : row.1 = other
      · have apart : key ≠ other := fun equal => here (this.trans equal.symm)
        rw [if_pos this, if_neg apart, if_pos this]
      · rw [if_neg this, if_neg this]

theorem put_keys_of_mem (present : key ∈ rows.map Prod.fst) :
    (put rows key value).map Prod.fst = rows.map Prod.fst := by
  induction rows with
  | nil => cases present
  | cons row rows ih =>
    simp only [put]
    by_cases here : row.1 = key
    · rw [if_pos here]
      rfl
    · rw [if_neg here, List.map_cons, List.map_cons]
      rcases List.mem_cons.mp present with same | later
      · exact absurd same.symm here
      · rw [ih later]

theorem put_keys_of_not_mem (absent : key ∉ rows.map Prod.fst) :
    (put rows key value).map Prod.fst = rows.map Prod.fst ++ [key] := by
  induction rows with
  | nil => rfl
  | cons row rows ih =>
    rw [List.map_cons, List.mem_cons, not_or] at absent
    obtain ⟨apart, later⟩ := absent
    simp only [put]
    rw [if_neg fun here => apart here.symm, List.map_cons, List.map_cons, ih later, List.cons_append]

theorem erase_sublist : (erase rows key).Sublist rows := by
  induction rows with
  | nil => exact .slnil
  | cons row rows ih =>
    simp only [erase]
    by_cases here : row.1 = key
    · rw [if_pos here]
      exact List.sublist_cons_self _ _
    · rw [if_neg here]
      exact ih.cons_cons _

theorem lookup_erase_of_ne (apart : key ≠ other) : lookup (erase rows key) other = lookup rows other := by
  induction rows with
  | nil => rfl
  | cons row rows ih =>
    simp only [erase]
    by_cases here : row.1 = key
    · rw [if_pos here, lookup, if_neg fun this => apart (here.symm.trans this)]
    · rw [if_neg here, lookup, lookup, ih]

theorem not_mem_erase (nodup : (rows.map Prod.fst).Nodup) : key ∉ (erase rows key).map Prod.fst := by
  induction rows with
  | nil => exact List.not_mem_nil
  | cons row rows ih =>
    obtain ⟨fresh, rest⟩ := List.nodup_cons.mp nodup
    simp only [erase]
    by_cases here : row.1 = key
    · rw [if_pos here]
      rwa [here] at fresh
    · rw [if_neg here, List.map_cons, List.mem_cons, not_or]
      exact ⟨fun same => here same.symm, ih rest⟩

end Rows

structure Records (rows : List (κ × ν)) (history : List (MapEvent κ ν)) : Prop where
  value : ∀ key, lookup rows key = lastSet history key
  order : (rows.map Prod.fst).Pairwise (Earlier history)

section Records
variable {rows : List (κ × ν)} {history : List (MapEvent κ ν)}

theorem records_nil : Records ([] : List (κ × ν)) [] := ⟨fun _ => rfl, .nil⟩

theorem records_clear : Records ([] : List (κ × ν)) (.clear :: history) := ⟨fun _ => rfl, .nil⟩

variable (records : Records rows history)
include records

theorem Records.nodup : (rows.map Prod.fst).Nodup := by
  refine records.order.imp fun earlier same => ?_
  obtain ⟨m, n, first, second, less⟩ := earlier
  subst same
  rw [first] at second
  cases second
  exact Nat.lt_irrefl m less

theorem Records.isSome_insertedAt {key : κ} :
    (insertedAt history key).isSome = true ↔ key ∈ rows.map Prod.fst := by
  rw [MapHistories.isSome_insertedAt, ← records.value, isSome_lookup]

theorem Records.set (key : κ) (value : ν) : Records (put rows key value) (.set key value :: history) where
  value other := by rw [lookup_put, lastSet, records.value]
  order := by
    by_cases present : key ∈ rows.map Prod.fst
    · rw [put_keys_of_mem rows key value present]
      refine records.order.imp fun earlier => ?_
      unfold Earlier
      rwa [insertedAt_set_of_isSome (records.isSome_insertedAt.mpr present),
        insertedAt_set_of_isSome (records.isSome_insertedAt.mpr present)]
    · rw [put_keys_of_not_mem rows key value present, List.pairwise_append]
      have kept : ∀ a ∈ rows.map Prod.fst, insertedAt (.set key value :: history) a = insertedAt history a := by
        intro a member
        apply insertedAt_set_of_ne
        rintro rfl
        exact present member
      refine ⟨?_, List.pairwise_singleton _ _, ?_⟩
      · refine records.order.imp_of_mem fun memberA memberB earlier => ?_
        unfold Earlier
        rwa [kept _ memberA, kept _ memberB]
      · intro a member b last
        rw [List.mem_singleton] at last
        subst last
        obtain ⟨m, inserted⟩ := Option.isSome_iff_exists.mp (records.isSome_insertedAt.mpr member)
        have absent : insertedAt history b = none := by
          rw [← Option.not_isSome_iff_eq_none, records.isSome_insertedAt]
          exact present
        refine ⟨m, history.length, (kept a member).trans inserted, ?_, insertedAt_lt inserted⟩
        rw [insertedAt, if_pos rfl, absent, Option.getD_none]

theorem Records.remove (key : κ) : Records (erase rows key) (.remove key :: history) where
  value other := by
    rw [lastSet]
    by_cases same : key = other
    · subst same
      rw [if_pos rfl, ← Option.not_isSome_iff_eq_none, isSome_lookup]
      exact not_mem_erase rows key records.nodup
    · rw [if_neg same, lookup_erase_of_ne rows key other same, records.value]
  order := by
    have sorted := records.order.sublist ((erase_sublist rows key).map Prod.fst)
    have kept : ∀ a ∈ (erase rows key).map Prod.fst,
        insertedAt (.remove key :: history) a = insertedAt history a := by
      intro a member
      apply insertedAt_remove_of_ne
      rintro rfl
      exact not_mem_erase rows key records.nodup member
    refine sorted.imp_of_mem fun memberA memberB earlier => ?_
    unfold Earlier
    rwa [kept _ memberA, kept _ memberB]

end Records

end NLang.Library.MapHistories
