import Mathlib

/-!
# Interned rows

A table that holds every row once. A row is looked up before it is appended, so that a row keeps its place and its place
tells it from the others.
-/

namespace NLang.Library

section Intern
variable {α : Type} [DecidableEq α]

def intern (table : List α) (row : α) : List α × Nat :=
  match table.findIdx? (· = row) with
  | some existing => (table, existing)
  | none => (table ++ [row], table.length)

variable {table : List α} {row : α}

theorem intern_extends (table : List α) (row : α) : table <+: (intern table row).1 := by
  unfold intern
  split
  · exact List.prefix_rfl
  · exact List.prefix_append ..

theorem intern_at (table : List α) (row : α) : (intern table row).1[(intern table row).2]? = some row := by
  unfold intern
  split
  · rename_i existing found
    obtain ⟨inside, same, -⟩ := List.findIdx?_eq_some_iff_getElem.mp found
    rw [List.getElem?_eq_getElem inside, of_decide_eq_true same]
  · exact List.getElem?_concat_length

theorem mem_intern {other : α} : other ∈ (intern table row).1 ↔ other ∈ table ∨ other = row := by
  unfold intern
  split
  · rename_i existing found
    obtain ⟨inside, same, -⟩ := List.findIdx?_eq_some_iff_getElem.mp found
    refine ⟨.inl, fun member => member.elim id ?_⟩
    rintro rfl
    exact of_decide_eq_true same ▸ List.getElem_mem inside
  · simp

theorem intern_nodup (nodup : table.Nodup) : (intern table row).1.Nodup := by
  unfold intern
  split
  · exact nodup
  · rename_i absent
    refine List.nodup_append.mpr ⟨nodup, List.nodup_singleton row, ?_⟩
    intro other member last isLast
    rw [List.mem_singleton.mp isLast]
    exact of_decide_eq_false (List.findIdx?_eq_none_iff.mp absent other member)

end Intern

theorem place_eq_iff {α : Type} {table : List α} (nodup : table.Nodup) {i j : Nat} {a b : α} (at_i : table[i]? = some a)
    (at_j : table[j]? = some b) : i = j ↔ a = b := by
  constructor
  · rintro rfl
    exact Option.some.inj (at_i.symm.trans at_j)
  · rintro rfl
    exact (List.getElem?_inj (List.getElem?_eq_some_iff.mp at_i).1 nodup).mp (at_i.trans at_j.symm)

theorem length_le_of_nodup {numbers : List Nat} {bound : Nat} (nodup : numbers.Nodup)
    (below : ∀ n ∈ numbers, n < bound) : numbers.length ≤ bound := by
  have contained : numbers ⊆ List.range bound := fun n member => List.mem_range.mpr (below n member)
  have := (List.subperm_of_subset nodup contained).length_le
  rwa [List.length_range] at this

end NLang.Library
