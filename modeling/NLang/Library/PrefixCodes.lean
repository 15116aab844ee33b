import Mathlib

/-!
# Prefix codes

Texts over code words, none of which is empty or starts another. A string is taken apart from the front, up to where no
code word starts.
-/

namespace NLang.Library.PrefixCodes
variable {α β : Type} {enc : α → List β} {s rest : List β} {as bs : List α}

structure PrefixCode (enc : α → List β) : Prop where
  ne_nil : ∀ a, enc a ≠ []
  unique : ∀ {a b s}, enc a <+: s → enc b <+: s → a = b

def Blocked (enc : α → List β) (s : List β) : Prop := ∀ a, ¬ enc a <+: s

theorem exists_scan (code : PrefixCode enc) (s : List β) : ∃ (as : List α) (rest : List β),
    s = as.flatMap enc ++ rest ∧ Blocked enc rest := by
  induction len : s.length using Nat.strongRecOn generalizing s with
  | ind n ih =>
    by_cases blocked : Blocked enc s
    · exact ⟨[], s, rfl, blocked⟩
    · obtain ⟨a, starts⟩ := not_forall_not.mp blocked
      obtain ⟨tail, rfl⟩ := starts
      have some_ := List.length_pos_iff.mpr (code.ne_nil a)
      obtain ⟨as, rest, tail_eq, stops⟩ := ih tail.length (by rw [← len, List.length_append]; omega) tail rfl
      exact ⟨a :: as, rest, by rw [List.flatMap_cons, List.append_assoc, ← tail_eq], stops⟩

theorem prefix_of_scan (code : PrefixCode enc) (stops : Blocked enc rest)
    (starts : bs.flatMap enc <+: as.flatMap enc ++ rest) : bs <+: as := by
  induction bs generalizing as with
  | nil => exact List.nil_prefix
  | cons b bs ih =>
    rw [List.flatMap_cons] at starts
    have first := (List.prefix_append (enc b) (bs.flatMap enc)).trans starts
    cases as with
    | nil => exact absurd first (stops b)
    | cons a as =>
      rw [List.flatMap_cons, List.append_assoc] at first starts
      obtain rfl := code.unique first (List.prefix_append (enc a) _)
      exact List.cons_prefix_cons.mpr ⟨rfl, ih ((List.prefix_append_right_inj _).mp starts)⟩

theorem rest_eq_nil_iff (code : PrefixCode enc) (stops : Blocked enc rest) :
    rest = [] ↔ ∃ bs : List α, as.flatMap enc ++ rest = bs.flatMap enc := by
  constructor
  · rintro rfl
    exact ⟨as, List.append_nil _⟩
  · rintro ⟨bs, whole⟩
    have starts : bs.flatMap enc <+: as.flatMap enc ++ rest := ⟨[], by rw [whole, List.append_nil]⟩
    obtain ⟨more, rfl⟩ := prefix_of_scan code stops starts
    have nothing := congrArg List.length whole
    simp only [List.flatMap_append, List.length_append] at nothing
    exact List.length_eq_zero_iff.mp (by omega)

end NLang.Library.PrefixCodes
