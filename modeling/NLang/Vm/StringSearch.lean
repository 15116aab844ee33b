import NLang.Library.Occurrences
import NLang.Library.Words

/-!
# Split and replace

The loops of `INTR_String_Split` and `INTR_String_Replace`. A loop is run for a number of rounds, and gives nothing where
these are not enough.
-/

namespace NLang.Vm.StringSearch
open NLang.Library.Words NLang.Library.Occurrences

inductive StringError where
  | emptySeparator
  | emptySearchedText

section Loops
variable (s sep newStr : Bytes)

def splitLoop : Nat → Nat → List Bytes → Option (List Bytes)
  | 0, _, _ => none
  | rounds + 1, pos, parts =>
    match find s sep pos with
    | none => some (parts ++ [s.drop pos])
    | some hit => splitLoop rounds (hit + sep.length) (parts ++ [(s.drop pos).take (hit - pos)])

def replaceLoop : Nat → Nat → Bytes → Option Bytes
  | 0, _, _ => none
  | rounds + 1, pos, out =>
    match find s sep pos with
    | none => some (out ++ s.drop pos)
    | some hit => replaceLoop rounds (hit + sep.length) (out ++ (s.drop pos).take (hit - pos) ++ newStr)

def split (rounds : Nat) : Option (Except StringError (List Bytes)) :=
  if sep = [] then some (.error .emptySeparator) else (splitLoop s sep rounds 0 []).map .ok

def replace (rounds : Nat) : Option (Except StringError Bytes) :=
  if sep = [] then some (.error .emptySearchedText) else (replaceLoop s sep newStr rounds 0 []).map .ok

end Loops

section Scans
variable {s sep newStr out : Bytes} {pos rounds : Nat} {parts done : List Bytes}

theorem exists_parts (some_ : sep ≠ []) (inside : pos ≤ s.length) (enough : s.length < pos + rounds) :
    ∃ parts, Parts s sep pos parts ∧ parts.length ≤ rounds := by
  induction rounds generalizing pos with
  | zero => omega
  | succ rounds ih =>
    cases found : find s sep pos with
    | none => exact ⟨_, .last found, by simp⟩
    | some hit =>
      obtain ⟨low, occurs, -⟩ := find_some found
      have fits := occurs.fits some_
      have more := List.length_pos_iff.mpr some_
      obtain ⟨rest, scan, few⟩ := ih fits (by omega)
      exact ⟨_, .cut found scan, by simpa using few⟩

theorem splitLoop_parts (scan : Parts s sep pos parts) (enough : parts.length ≤ rounds) :
    splitLoop s sep rounds pos done = some (done ++ parts) := by
  induction scan generalizing rounds done with
  | last absent =>
    obtain ⟨rounds, rfl⟩ := Nat.exists_eq_add_of_le' enough
    rw [List.length_singleton, splitLoop, absent]
  | cut found _ ih =>
    obtain ⟨rounds, rfl⟩ := Nat.exists_eq_add_of_le' enough
    rw [List.length_cons, ← Nat.add_assoc, splitLoop, found]
    exact (ih (Nat.le_add_left ..)).trans (congrArg some (by simp))

theorem replaceLoop_parts (scan : Parts s sep pos parts) (enough : parts.length ≤ rounds) :
    replaceLoop s sep newStr rounds pos out = some (out ++ newStr.intercalate parts) := by
  induction scan generalizing rounds out with
  | last absent =>
    obtain ⟨rounds, rfl⟩ := Nat.exists_eq_add_of_le' enough
    rw [List.length_singleton, replaceLoop, absent]
    simp [List.intercalate]
  | @cut pos hit rest found others ih =>
    obtain ⟨rounds, rfl⟩ := Nat.exists_eq_add_of_le' enough
    rw [List.length_cons, ← Nat.add_assoc, replaceLoop, found]
    refine (ih (Nat.le_add_left ..)).trans (congrArg some ?_)
    cases rest with
    | nil => exact absurd rfl others.ne_nil
    | cons next rest => rw [intercalate_cons, List.append_assoc, List.append_assoc]

end Scans

/-- The parts of a split are the text, cut at the leftmost occurrences; a replacement joins them with the new text. -/
theorem split_replace_agree (s sep newStr : Bytes) (some_ : sep ≠ []) : ∃ parts,
    (∀ rounds, s.length < rounds → split s sep rounds = some (.ok parts) ∧
      replace s sep newStr rounds = some (.ok (newStr.intercalate parts)) ∧ replace s sep sep rounds = some (.ok s)) ∧
    sep.intercalate parts = s ∧ (∀ part ∈ parts, ¬ sep <:+: part) ∧ Leftmost s sep 0 (cuts sep 0 parts) := by
  obtain ⟨parts, scan, few⟩ := @exists_parts s sep 0 (s.length + 1) some_ (Nat.zero_le _) (by omega)
  have joined : sep.intercalate parts = s := by
    rw [scan.join, List.drop_zero]
  refine ⟨parts, ?_, joined, scan.free some_, scan.leftmost some_⟩
  intro rounds enough
  have fewer : parts.length ≤ rounds := by omega
  have replaced (by_ : Bytes) : replace s sep by_ rounds = some (.ok (by_.intercalate parts)) := by
    rw [replace, if_neg some_, replaceLoop_parts scan fewer, List.nil_append]
    rfl
  refine ⟨?_, replaced newStr, ?_⟩
  · rw [split, if_neg some_, splitLoop_parts scan fewer, List.nil_append]
    rfl
  · rw [replaced sep, joined]

theorem overlapping_agree : ∃ parts, split [97, 97, 97, 98] [97, 97] 5 = some (.ok parts) ∧
    replace [97, 97, 97, 98] [97, 97] [120] 5 = some (.ok (List.intercalate [120] parts)) ∧
    List.intercalate [97, 97] parts = [97, 97, 97, 98] ∧ (∀ part ∈ parts, ¬ [97, 97] <:+: part) := by
  obtain ⟨parts, loops, joined, free, -⟩ := split_replace_agree [97, 97, 97, 98] [97, 97] [120] (by decide)
  obtain ⟨isSplit, isReplaced, -⟩ := loops 5 (by decide)
  exact ⟨parts, isSplit, isReplaced, joined, free⟩

end NLang.Vm.StringSearch
