import Mathlib

/-!
# Occurrences of a word

The scan that cuts a text at the leftmost occurrence of a word, goes on behind it and ends where there is none. The parts
between the cuts do not contain the word, and joined with it they are the text.
-/

namespace NLang.Library.Occurrences
variable {α : Type} {text word : List α} {pos i j : Nat}

def OccursAt (text word : List α) (i : Nat) : Prop := word <+: text.drop i

theorem OccursAt.fits (occurs : OccursAt text word i) (some_ : word ≠ []) : i + word.length ≤ text.length := by
  have length := occurs.length_le
  have pos := List.length_pos_iff.mpr some_
  rw [List.length_drop] at length
  omega

theorem occurs_of_infix {stop : Nat} (inside : word <:+: (text.drop pos).take stop) :
    ∃ i, pos ≤ i ∧ OccursAt text word i ∧ i + word.length ≤ pos + stop := by
  obtain ⟨before, after, same⟩ := inside
  have total := congrArg List.length same
  simp only [List.length_append, List.length_take] at total
  refine ⟨pos + before.length, Nat.le_add_right .., ?_, by omega⟩
  have part : (text.drop pos).take stop = before ++ (word ++ after) := by rw [← same, List.append_assoc]
  have whole : text.drop pos = before ++ (word ++ (after ++ (text.drop pos).drop stop)) := by
    rw [← List.append_assoc word, ← List.append_assoc before, ← part, List.take_append_drop]
  rw [OccursAt, ← List.drop_drop, whole, List.drop_left]
  exact List.prefix_append ..

theorem take_hit {hit : Nat} (low : pos ≤ hit) (occurs : OccursAt text word hit) :
    (text.drop pos).take (hit - pos) ++ (word ++ text.drop (hit + word.length)) = text.drop pos := by
  obtain ⟨rest, whole⟩ := occurs
  have behind : text.drop (hit + word.length) = rest := by
    rw [← List.drop_drop, ← whole, List.drop_left]
  have here : (text.drop pos).drop (hit - pos) = word ++ rest := by
    rw [List.drop_drop, Nat.add_sub_cancel' low, whole]
  rw [behind, ← here, List.take_append_drop]

theorem intercalate_cons {part next : List α} {parts : List (List α)} : word.intercalate (part :: next :: parts) = part ++ (word ++ word.intercalate (next :: parts)) := by
  simp [List.intercalate, List.intersperse]

section Find
variable [DecidableEq α]

instance (text word : List α) (i : Nat) : Decidable (OccursAt text word i) := inferInstanceAs (Decidable (_ <+: _))

def find (text word : List α) (pos : Nat) : Option Nat :=
  (List.range' pos (text.length + 1 - pos)).find? fun i => OccursAt text word i

theorem find_none (absent : find text word pos = none) (some_ : word ≠ []) (behind : pos ≤ i) : ¬ OccursAt text word i := by
  intro occurs
  have fits := occurs.fits some_
  have none := List.find?_eq_none.mp absent i (List.mem_range'_1.mpr ⟨behind, by omega⟩)
  exact none (decide_eq_true occurs)

theorem find_some (found : find text word pos = some i) : pos ≤ i ∧ OccursAt text word i ∧
    ∀ j, pos ≤ j → j < i → ¬ OccursAt text word j := by
  obtain ⟨occurs, before, after, split, none⟩ := List.find?_eq_some_iff_append.mp found
  have sorted : (before ++ i :: after).Pairwise (· < ·) := by
    rw [← split]
    exact List.pairwise_lt_range'
  have inside : i ∈ List.range' pos (text.length + 1 - pos) := by
    rw [split]
    exact List.mem_append_right _ (.head _)
  obtain ⟨low, high⟩ := List.mem_range'_1.mp inside
  refine ⟨low, of_decide_eq_true occurs, ?_⟩
  intro j behind smaller
  have member : j ∈ before ++ i :: after := by
    rw [← split]
    exact List.mem_range'_1.mpr ⟨behind, by omega⟩
  rcases List.mem_append.mp member with early | late
  · simpa using none j early
  · have order := (List.pairwise_append.mp sorted).2.1
    rcases List.mem_cons.mp late with same | later
    · omega
    · have := List.rel_of_pairwise_cons order later
      omega

end Find

inductive Parts [DecidableEq α] (text word : List α) : Nat → List (List α) → Prop where
  | last {pos : Nat} (absent : find text word pos = none) : Parts text word pos [text.drop pos]
  | cut {pos hit : Nat} {rest : List (List α)} (found : find text word pos = some hit)
      (others : Parts text word (hit + word.length) rest) : Parts text word pos ((text.drop pos).take (hit - pos) :: rest)

/-- Each of the positions is the first occurrence behind the one before it, and there is none behind the last. -/
inductive Leftmost (text word : List α) : Nat → List Nat → Prop where
  | done {pos : Nat} (absent : ∀ i, pos ≤ i → ¬ OccursAt text word i) : Leftmost text word pos []
  | hit {pos i : Nat} {rest : List Nat} (behind : pos ≤ i) (occurs : OccursAt text word i)
      (first : ∀ j, pos ≤ j → j < i → ¬ OccursAt text word j) (others : Leftmost text word (i + word.length) rest) :
      Leftmost text word pos (i :: rest)

def cuts (word : List α) : Nat → List (List α) → List Nat
  | _, [] => []
  | _, [_] => []
  | pos, part :: next :: parts => (pos + part.length) :: cuts word (pos + part.length + word.length) (next :: parts)

section Results
variable [DecidableEq α] {parts : List (List α)}

theorem Parts.ne_nil (scan : Parts text word pos parts) : parts ≠ [] := by
  cases scan <;> exact List.cons_ne_nil _ _

theorem Parts.free (scan : Parts text word pos parts) (some_ : word ≠ []) : ∀ part ∈ parts, ¬ word <:+: part := by
  induction scan with
  | @last pos absent =>
    intro part member inside
    cases List.mem_singleton.mp member
    rw [← List.take_length (l := text.drop pos)] at inside
    obtain ⟨i, behind, occurs, -⟩ := occurs_of_infix inside
    exact find_none absent some_ behind occurs
  | @cut pos hit rest found _ ih =>
    intro part member inside
    obtain ⟨low, -, first⟩ := find_some found
    cases member with
    | head =>
      obtain ⟨i, behind, occurs, before⟩ := occurs_of_infix inside
      have pos := List.length_pos_iff.mpr some_
      exact first i behind (by omega) occurs
    | tail _ member => exact ih part member inside

theorem Parts.join (scan : Parts text word pos parts) : word.intercalate parts = text.drop pos := by
  induction scan with
  | last => simp [List.intercalate]
  | @cut pos hit rest found others ih =>
    obtain ⟨low, occurs, -⟩ := find_some found
    cases rest with
    | nil => exact absurd rfl others.ne_nil
    | cons next rest => rw [intercalate_cons, ih, take_hit low occurs]

theorem Parts.leftmost (scan : Parts text word pos parts) (some_ : word ≠ []) : Leftmost text word pos (cuts word pos parts) := by
  induction scan with
  | last absent => exact .done fun i behind => find_none absent some_ behind
  | @cut pos hit rest found others ih =>
    obtain ⟨low, occurs, first⟩ := find_some found
    have fits := occurs.fits some_
    have length : pos + ((text.drop pos).take (hit - pos)).length = hit := by
      rw [List.length_take, List.length_drop]
      omega
    cases rest with
    | nil => exact absurd rfl others.ne_nil
    | cons next rest =>
      rw [cuts, length]
      exact .hit low occurs first ih

end Results

end NLang.Library.Occurrences
