import Mathlib

/-!
# Computations that may fail

When a computation in two parts succeeds, and when it fails.
-/

namespace NLang.Library

section Bind
variable {ε α β : Type} {first : Except ε α} {next : α → Except ε β}

theorem except_bind_ok {last : β} : (first >>= next) = .ok last ↔ ∃ mid, first = .ok mid ∧ next mid = .ok last := by
  cases first with
  | error error => exact ⟨nofun, fun ⟨_, failed, _⟩ => nomatch failed⟩
  | ok mid => exact ⟨fun done => ⟨mid, rfl, done⟩, fun ⟨_, same, done⟩ => by cases same; exact done⟩

theorem except_bind_error {failure : ε} :
    (first >>= next) = .error failure ↔ first = .error failure ∨ ∃ mid, first = .ok mid ∧ next mid = .error failure := by
  cases first with
  | error error =>
    refine ⟨fun failed => .inl (by cases failed; rfl), ?_⟩
    rintro (failed | ⟨_, done, _⟩)
    · cases failed
      rfl
    · cases done
  | ok mid =>
    refine ⟨fun failed => .inr ⟨mid, rfl, failed⟩, ?_⟩
    rintro (failed | ⟨_, same, failed⟩)
    · cases failed
    · cases same
      exact failed

theorem except_map_ok {change : α → β} {last : β} :
    first.map change = .ok last ↔ ∃ mid, first = .ok mid ∧ change mid = last := by
  cases first with
  | error error => exact ⟨nofun, fun ⟨_, failed, _⟩ => nomatch failed⟩
  | ok mid =>
    constructor
    · intro done
      cases done
      exact ⟨mid, rfl, rfl⟩
    · rintro ⟨_, same, rfl⟩
      cases same
      rfl

theorem except_toOption_eq_some {a : α} : first.toOption = some a ↔ first = .ok a := by
  cases first with
  | error error => exact ⟨nofun, nofun⟩
  | ok b => exact ⟨fun same => congrArg Except.ok (Option.some.inj same), fun same => by cases same; rfl⟩

end Bind

end NLang.Library
