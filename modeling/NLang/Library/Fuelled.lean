import Mathlib

/-!
# Computations with fuel

A loop of the source runs on fuel, and `none` is a loop that needs more. It computes a value when every result it gives
is that value and enough fuel gives one.
-/

namespace NLang.Library.Fuelled
variable {α β : Type}

structure Computes (f : Nat → Option α) (a : α) : Prop where
  sound : ∀ fuel x, f fuel = some x → x = a
  enough : ∃ n, ∀ fuel, n ≤ fuel → f fuel = some a

theorem computes_some (a : α) : Computes (fun _ => some a) a where
  sound _ _ done := (Option.some.inj done).symm
  enough := ⟨0, fun _ _ => rfl⟩

theorem Computes.unique {f : Nat → Option α} {a b : α} (first : Computes f a) (second : Computes f b) : a = b := by
  obtain ⟨n, gives⟩ := first.enough
  exact second.sound n a (gives n (Nat.le_refl n))

theorem Computes.bind {f : Nat → Option α} {g : α → Nat → Option β} {a : α} {b : β} (first : Computes f a)
    (second : Computes (g a) b) : Computes (fun fuel => (f fuel).bind fun x => g x fuel) b where
  sound := by
    intro fuel y done
    obtain ⟨x, gave, rest⟩ := Option.bind_eq_some_iff.mp done
    rw [first.sound fuel x gave] at rest
    exact second.sound fuel y rest
  enough := by
    obtain ⟨n, gives⟩ := first.enough
    obtain ⟨m, gives'⟩ := second.enough
    refine ⟨max n m, fun fuel large => ?_⟩
    rw [gives fuel (Nat.le_trans (Nat.le_max_left n m) large), Option.bind_some]
    exact gives' fuel (Nat.le_trans (Nat.le_max_right n m) large)

theorem Computes.round {f g : Nat → Option α} {a : α} (zero : f 0 = none) (next : ∀ n, f (n + 1) = g n)
    (later : Computes g a) : Computes f a where
  sound := by
    intro fuel x done
    cases fuel with
    | zero =>
      rw [zero] at done
      cases done
    | succ n =>
      rw [next] at done
      exact later.sound n x done
  enough := by
    obtain ⟨n, gives⟩ := later.enough
    refine ⟨n + 1, fun fuel large => ?_⟩
    obtain ⟨m, rfl⟩ := Nat.exists_eq_succ_of_ne_zero (Nat.ne_of_gt (Nat.lt_of_lt_of_le (Nat.succ_pos n) large))
    rw [next]
    exact gives m (Nat.le_of_succ_le_succ large)

theorem Computes.map {f : Nat → Option α} {a : α} (first : Computes f a) (g : α → β) :
    Computes (fun fuel => (f fuel).map g) (g a) where
  sound := by
    intro fuel y done
    obtain ⟨x, gave, rfl⟩ := Option.map_eq_some_iff.mp done
    rw [first.sound fuel x gave]
  enough := by
    obtain ⟨n, gives⟩ := first.enough
    exact ⟨n, fun fuel large => by rw [gives fuel large, Option.map_some]⟩

end NLang.Library.Fuelled
