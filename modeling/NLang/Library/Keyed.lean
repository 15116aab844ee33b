import Mathlib

/-!
# Rows under keys

Lists of rows that are looked up by a key, where the first row under a key is the one that is found.
-/

namespace NLang.Library.Keyed

variable {α κ : Type} [DecidableEq κ] (key : α → κ)

def lookup (rows : List α) (k : κ) : Option α := rows.find? (key · = k)

def updateFirst (rows : List α) (k : κ) (change : α → α) : List α :=
  match rows.findIdx? (key · = k) with
  | none => rows
  | some row => rows.modify row change

variable {key}

theorem updateFirst_cons (row : α) (rows : List α) (k : κ) (change : α → α) :
    updateFirst key (row :: rows) k change =
      if key row = k then change row :: rows else row :: updateFirst key rows k change := by
  unfold updateFirst
  rw [List.findIdx?_cons]
  by_cases here : key row = k
  · simp [here]
  · simp only [here, decide_false, Bool.false_eq_true, if_false]
    cases rows.findIdx? (key · = k) <;> rfl

theorem lookup_updateFirst (rows : List α) (k : κ) {change : α → α} (keeps : ∀ row, key (change row) = key row)
    (other : κ) :
    lookup key (updateFirst key rows k change) other =
      if other = k then (lookup key rows k).map change else lookup key rows other := by
  induction rows with
  | nil => simp [lookup, updateFirst]
  | cons row rows ih =>
    rw [updateFirst_cons]
    unfold lookup at ih ⊢
    by_cases here : key row = k
    · rw [if_pos here]
      by_cases same : other = k
      · subst same
        rw [if_pos rfl, List.find?_cons_of_pos (by simp [keeps, here]), List.find?_cons_of_pos (by simp [here])]
        rfl
      · have apart : key row ≠ other := fun equal => same (equal.symm.trans here)
        rw [if_neg same, List.find?_cons_of_neg (by simp [keeps, apart]), List.find?_cons_of_neg (by simp [apart])]
    · rw [if_neg here]
      by_cases this : key row = other
      · have apart : other ≠ k := fun equal => here (this.trans equal)
        rw [if_neg apart, List.find?_cons_of_pos (by simp [this]), List.find?_cons_of_pos (by simp [this])]
      · rw [List.find?_cons_of_neg (by simp [this]), ih, List.find?_cons_of_neg (by simp [here]),
          List.find?_cons_of_neg (by simp [this])]

theorem lookup_foldl_updateFirst {β : Type} {writerKey : β → κ} {change : β → α → α}
    (keeps : ∀ writer row, key (change writer row) = key row) (rows : List α) (writers : List β) (k : κ) :
    lookup key (writers.foldl (fun rows writer => updateFirst key rows (writerKey writer) (change writer)) rows) k =
      (lookup key rows k).map fun row =>
        (writers.filter (writerKey · = k)).foldl (fun row writer => change writer row) row := by
  induction writers generalizing rows with
  | nil => simp
  | cons writer writers ih =>
    rw [List.foldl_cons, ih, lookup_updateFirst rows (writerKey writer) (keeps writer)]
    by_cases same : k = writerKey writer
    · subst same
      rw [if_pos rfl, List.filter_cons_of_pos (by simp), Option.map_map]
      rfl
    · rw [if_neg same, List.filter_cons_of_neg (by simpa using fun equal => same equal.symm)]

end NLang.Library.Keyed
