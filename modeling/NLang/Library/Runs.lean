import Mathlib

/-!
# Runs of a transition system

States reached by the actions of a partial step function, when every action taken meets a condition on the
state it is taken in.
-/

namespace NLang.Library.Runs
variable {σ α : Type}

inductive Run (step : σ → α → Option σ) (meets : σ → α → Prop) (start : σ) : σ → Prop where
  | refl : Run step meets start start
  | tail {s s' : σ} {action : α} : Run step meets start s → meets s action →
      step s action = some s' → Run step meets start s'

theorem Run.invariant {step : σ → α → Option σ} {meets : σ → α → Prop} {start s : σ}
    (inv : σ → Prop) (holds : inv start)
    (preserved : ∀ s action s', inv s → meets s action → step s action = some s' → inv s')
    (run : Run step meets start s) : inv s := by
  induction run with
  | refl => exact holds
  | tail _ met taken ih => exact preserved _ _ _ ih met taken

theorem Run.actions {step : σ → α → Option σ} {meets : σ → α → Prop} {start s s' : σ} {actions : List α}
    (run : Run step meets start s) (met : ∀ action ∈ actions, ∀ s, meets s action)
    (taken : actions.foldlM step s = some s') : Run step meets start s' := by
  induction actions generalizing s with
  | nil =>
    cases taken
    exact run
  | cons action rest ih =>
    obtain ⟨middle, first, later⟩ := Option.bind_eq_some_iff.mp taken
    have allowed := met action List.mem_cons_self s
    exact ih (.tail run allowed first) (fun other member => met other (List.mem_cons_of_mem _ member)) later

theorem Run.checked {step : σ → α → Option σ} {meets : σ → α → Prop} {start s s' : σ} {actions : List α}
    {check : σ → α → Bool} (sound : ∀ s action, check s action = true → meets s action)
    (run : Run step meets start s)
    (taken : actions.foldlM (fun s action => if check s action = true then step s action else none) s = some s') :
    Run step meets start s' := by
  induction actions generalizing s with
  | nil =>
    cases taken
    exact run
  | cons action rest ih =>
    obtain ⟨middle, first, later⟩ := Option.bind_eq_some_iff.mp taken
    change (if check s action = true then step s action else none) = some middle at first
    by_cases passed : check s action = true
    · rw [if_pos passed] at first
      exact ih (.tail run (sound s action passed) first) later
    · rw [if_neg passed] at first
      cases first

end NLang.Library.Runs
