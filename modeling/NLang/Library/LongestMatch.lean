import Mathlib

/-!
# Longest match

Rules with patterns of a fixed length. Of the rules whose pattern the input starts with, the longest is selected, and of
the longest the first.
-/

namespace NLang.Library.LongestMatch

structure Rule (σ α : Type*) where
  pattern : List (σ → Bool)
  action : α

variable {σ α : Type*}

def Fits (pattern : List (σ → Bool)) (symbols : List σ) : Prop :=
  List.Forall₂ (fun test symbol => test symbol = true) pattern symbols

def accepts : List (σ → Bool) → List σ → Bool
  | [], _ => true
  | _ :: _, [] => false
  | test :: tests, symbol :: input => test symbol && accepts tests input

def select (input : List σ) : List (Rule σ α) → Option (Rule σ α)
  | [] => none
  | rule :: rules =>
    match select input rules with
    | none => if accepts rule.pattern input then some rule else none
    | some later =>
      if accepts rule.pattern input && decide (later.pattern.length ≤ rule.pattern.length) then some rule
      else some later

variable {pattern : List (σ → Bool)} {symbols input rest : List σ} {rule other : Rule σ α} {rules : List (Rule σ α)}

theorem accepts_iff : accepts pattern input = true ↔ ∃ taken rest, Fits pattern taken ∧ input = taken ++ rest := by
  induction pattern generalizing input with
  | nil => exact ⟨fun _ => ⟨[], input, .nil, rfl⟩, fun _ => rfl⟩
  | cons test tests ih =>
    cases input with
    | nil =>
      constructor
      · intro none_
        cases none_
      · rintro ⟨taken, rest, fits, split⟩
        cases fits with
        | cons _ _ => cases split
    | cons symbol input =>
      rw [accepts, Bool.and_eq_true, ih]
      constructor
      · rintro ⟨first, taken, rest, fits, rfl⟩
        exact ⟨symbol :: taken, rest, .cons first fits, rfl⟩
      · rintro ⟨taken, rest, fits, split⟩
        cases fits with
        | cons first fits =>
          obtain ⟨rfl, rfl⟩ := List.cons.inj split
          exact ⟨first, _, rest, fits, rfl⟩

theorem accepts_append (fits : Fits pattern symbols) : accepts pattern (symbols ++ rest) = true :=
  accepts_iff.mpr ⟨symbols, rest, fits, rfl⟩

theorem fits_take (accepted : accepts pattern input = true) : Fits pattern (input.take pattern.length) := by
  obtain ⟨taken, rest, fits, rfl⟩ := accepts_iff.mp accepted
  rwa [List.Forall₂.length_eq fits, List.take_left]

theorem select_eq_none (stuck : select input rules = none) : ∀ rule ∈ rules, accepts rule.pattern input = false := by
  induction rules with
  | nil => exact List.forall_mem_nil _
  | cons rule rules ih =>
    cases later : select input rules with
    | some found =>
      simp only [select, later] at stuck
      split at stuck <;> cases stuck
    | none =>
      simp only [select, later] at stuck
      refine List.forall_mem_cons.mpr ⟨?_, ih later⟩
      by_contra accepted
      rw [Bool.not_eq_false] at accepted
      rw [if_pos accepted] at stuck
      cases stuck

theorem select_spec (selected : select input rules = some rule) :
    rule ∈ rules ∧ accepts rule.pattern input = true ∧
      ∀ other ∈ rules, accepts other.pattern input = true → other.pattern.length ≤ rule.pattern.length := by
  induction rules generalizing rule with
  | nil => cases selected
  | cons first rules ih =>
    cases later : select input rules with
    | none =>
      simp only [select, later] at selected
      split at selected
      case isTrue accepted =>
        cases selected
        refine ⟨List.mem_cons_self, accepted, List.forall_mem_cons.mpr ⟨fun _ => Nat.le_refl _, ?_⟩⟩
        intro other listed accepted'
        rw [select_eq_none later other listed] at accepted'
        cases accepted'
      case isFalse => cases selected
    | some found =>
      obtain ⟨listed, accepted, longest⟩ := ih later
      simp only [select, later] at selected
      split at selected
      case isTrue better =>
        cases selected
        rw [Bool.and_eq_true, decide_eq_true_iff] at better
        refine ⟨List.mem_cons_self, better.1, List.forall_mem_cons.mpr ⟨fun _ => Nat.le_refl _, ?_⟩⟩
        intro other listed' accepted'
        exact Nat.le_trans (longest other listed' accepted') better.2
      case isFalse worse =>
        cases selected
        rw [Bool.and_eq_true, decide_eq_true_iff, not_and, Nat.not_le] at worse
        exact ⟨List.mem_cons_of_mem _ listed, accepted,
          List.forall_mem_cons.mpr ⟨fun accepted' => Nat.le_of_lt (worse accepted'), longest⟩⟩

theorem select_first {before after : List (Rule σ α)} (accepted : accepts rule.pattern input = true)
    (shorter : ∀ other ∈ before, accepts other.pattern input = true → other.pattern.length < rule.pattern.length)
    (others : ∀ other ∈ after, accepts other.pattern input = true → other.pattern.length ≤ rule.pattern.length) :
    select input (before ++ rule :: after) = some rule := by
  induction before with
  | nil =>
    rw [List.nil_append, select]
    cases later : select input after with
    | none => exact if_pos accepted
    | some found =>
      obtain ⟨listed, accepted', -⟩ := select_spec later
      refine if_pos ?_
      rw [accepted, Bool.true_and, decide_eq_true_iff]
      exact others found listed accepted'
  | cons first before ih =>
    rw [List.forall_mem_cons] at shorter
    rw [List.cons_append, select, ih shorter.2]
    refine if_neg ?_
    rw [Bool.and_eq_true, decide_eq_true_iff]
    rintro ⟨accepted', longer⟩
    exact absurd (shorter.1 accepted') (Nat.not_lt.mpr longer)

end NLang.Library.LongestMatch
