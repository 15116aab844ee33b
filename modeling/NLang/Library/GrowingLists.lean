import Mathlib

/-!
# Walks over a growing list

A loop over the indices of a list to which its body may append, such as a breadth-first discovery.
-/

namespace NLang.Library

section Walk
variable {σ α : Type} (items : σ → List α) (visit : σ → α → σ)

def walkFrom : Nat → Nat → σ → Option σ
  | 0, i, s => if (items s).length ≤ i then some s else none
  | fuel + 1, i, s =>
    match (items s)[i]? with
    | none => some s
    | some item => walkFrom fuel (i + 1) (visit s item)

variable {items visit} {inv : Nat → σ → Prop}

theorem walkFrom_invariant (step : ∀ i s item, (items s)[i]? = some item → inv i s → inv (i + 1) (visit s item))
    {fuel i : Nat} {s last : σ} (start : inv i s) (walked : walkFrom items visit fuel i s = some last) :
    ∃ visited, (items last).length ≤ visited ∧ inv visited last := by
  induction fuel generalizing i s with
  | zero =>
    rw [walkFrom] at walked
    split at walked
    · cases walked
      exact ⟨i, ‹_›, start⟩
    · cases walked
  | succ fuel ih =>
    rw [walkFrom] at walked
    cases found : (items s)[i]? with
    | none =>
      rw [found] at walked
      cases walked
      exact ⟨i, List.getElem?_eq_none_iff.mp found, start⟩
    | some item =>
      rw [found] at walked
      exact ih (step i s item found start) walked

theorem walkFrom_total (step : ∀ i s item, (items s)[i]? = some item → inv i s → inv (i + 1) (visit s item))
    {most : Nat} (bounded : ∀ i s, inv i s → (items s).length ≤ most) {fuel i : Nat} {s : σ} (start : inv i s)
    (enough : most ≤ i + fuel) : ∃ last, walkFrom items visit fuel i s = some last := by
  induction fuel generalizing i s with
  | zero =>
    have ended : (items s).length ≤ i := Nat.le_trans (bounded i s start) enough
    exact ⟨s, by rw [walkFrom, if_pos ended]⟩
  | succ fuel ih =>
    cases found : (items s)[i]? with
    | none => exact ⟨s, by rw [walkFrom, found]⟩
    | some item =>
      obtain ⟨last, walked⟩ := ih (step i s item found start) (by omega)
      exact ⟨last, by rw [walkFrom, found]; exact walked⟩

end Walk
end NLang.Library
