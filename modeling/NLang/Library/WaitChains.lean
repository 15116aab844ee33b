import Mathlib

/-!
# Chains of waiting parties

A relation whose steps climb a bounded ranking has no cycles, and every chain along it can be followed to an end.
-/

namespace NLang.Library.WaitChains
open Relation

variable {α : Type} {blocks : α → α → Prop} {rank : α → Nat} {bound : Nat}

theorem chain_ends (climbs : ∀ a b c, blocks a b → blocks b c → rank a < rank b) (below : ∀ a b, blocks a b → rank a < bound)
    (a : α) : ∃ last, ReflTransGen blocks a last ∧ ∀ b, ¬ blocks last b := by
  have follow : ∀ steps a, (∀ b, blocks a b → bound ≤ rank a + steps) → ∃ last, ReflTransGen blocks a last ∧ ∀ b, ¬ blocks last b := by
    intro steps
    induction steps with
    | zero =>
      intro a room
      exact ⟨a, .refl, fun b waits => absurd (room b waits) (Nat.not_le.mpr (below a b waits))⟩
    | succ steps ih =>
      intro a room
      by_cases stops : ∀ b, ¬ blocks a b
      · exact ⟨a, .refl, stops⟩
      · obtain ⟨b, waits⟩ := not_forall_not.mp stops
        obtain ⟨last, path, ends⟩ := ih b fun c later => by
          have := room b waits
          have := climbs a b c waits later
          omega
        exact ⟨last, .head waits path, ends⟩
  exact follow bound a fun b _ => Nat.le_add_left _ _

end NLang.Library.WaitChains
