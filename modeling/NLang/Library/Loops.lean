import Mathlib

/-!
# Counted loops

The invariant rule of a loop `for (i = start; i < start + count; ++i)` whose body may fail.
-/

namespace NLang.Library.Loops
variable {σ : Type}

def countedLoop (body : σ → Nat → Option σ) (start count : Nat) (s : σ) : Option σ :=
  (List.range' start count).foldlM body s

@[simp] theorem countedLoop_zero (body : σ → Nat → Option σ) (start : Nat) (s : σ) :
    countedLoop body start 0 s = some s := rfl

theorem countedLoop_succ (body : σ → Nat → Option σ) (start count : Nat) (s : σ) :
    countedLoop body start (count + 1) s =
      (body s start).bind (countedLoop body (start + 1) count) := by
  simp [countedLoop, List.range'_succ]
  rfl

theorem countedLoop_invariant {body : σ → Nat → Option σ} (inv : Nat → σ → Prop) (stop : Nat)
    (step : ∀ i s s', i < stop → inv i s → body s i = some s' → inv (i + 1) s')
    {start count : Nat} {s s' : σ} (bound : start + count ≤ stop) (holds : inv start s)
    (run : countedLoop body start count s = some s') : inv (start + count) s' := by
  induction count generalizing start s with
  | zero =>
    cases run
    exact holds
  | succ count ih =>
    rw [countedLoop_succ] at run
    obtain ⟨next, first, rest⟩ := Option.bind_eq_some_iff.mp run
    have holdsNext := step start s next (by omega) holds first
    have finished := ih (by omega) holdsNext rest
    rwa [Nat.add_right_comm] at finished

theorem countedLoop_total {body : σ → Nat → Option σ} (inv : σ → Prop)
    (step : ∀ i s, inv s → ∃ s', body s i = some s' ∧ inv s')
    (start count : Nat) {s : σ} (holds : inv s) :
    ∃ s', countedLoop body start count s = some s' := by
  induction count generalizing start s with
  | zero => exact ⟨s, rfl⟩
  | succ count ih =>
    obtain ⟨next, first, holdsNext⟩ := step start s holds
    obtain ⟨final, rest⟩ := ih (start + 1) holdsNext
    exact ⟨final, by rw [countedLoop_succ, first]; exact rest⟩

theorem foldl_range_invariant {body : σ → Nat → σ} (inv : Nat → σ → Prop) (stop : Nat)
    (step : ∀ i s, i < stop → inv i s → inv (i + 1) (body s i)) {start count : Nat} {s : σ}
    (bound : start + count ≤ stop) (holds : inv start s) :
    inv (start + count) ((List.range' start count).foldl body s) := by
  induction count generalizing start s with
  | zero => exact holds
  | succ count ih =>
    have finished := ih (by omega) (step start s (by omega) holds)
    rw [Nat.add_right_comm] at finished
    rwa [List.range'_succ, List.foldl_cons]

end NLang.Library.Loops
