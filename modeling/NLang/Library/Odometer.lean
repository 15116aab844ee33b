import NLang.Library.RowMajor

/-!
# Odometers

Coordinates advance one row-major step at a time, the last axis first, and an address follows by the stride of every axis
that moves. Addresses are in any additive group, so that several arrays can be walked at once.
-/

namespace NLang.Library.Odometer
open NLang.Library.RowMajor
variable {α : Type} [AddCommGroup α]

def shift (coords : List Int) (strides : List α) : α := (List.zipWith (· • ·) coords strides).sum

@[simp] theorem shift_cons (c : Int) (coords : List Int) (s : α) (strides : List α) :
    shift (c :: coords) (s :: strides) = c • s + shift coords strides := by simp [shift]

@[simp] theorem shift_nil (strides : List α) : shift [] strides = 0 := by simp [shift]

/-- The flag is false where every axis has turned over. -/
def advance : List (Int × α) → List Int → α → Bool × List Int × α
  | (dim, stride) :: axes, c :: coords, addr =>
    let inner := advance axes coords addr
    if inner.1 then (true, c :: inner.2.1, inner.2.2)
    else if c + 1 < dim then (true, (c + 1) :: inner.2.1, inner.2.2 + stride)
    else (false, 0 :: inner.2.1, inner.2.2 + stride - dim • stride)
  | _, _, addr => (false, [], addr)

def walk (axes : List (Int × α)) : Nat → List Int → α → List α
  | 0, _, _ => []
  | n + 1, coords, addr => addr :: walk axes n (advance axes coords addr).2.1 (advance axes coords addr).2.2

theorem length_walk (axes : List (Int × α)) (n : Nat) (coords : List Int) (addr : α) : (walk axes n coords addr).length = n := by
  induction n generalizing coords addr with
  | zero => rfl
  | succ n ih => rw [walk, List.length_cons, ih]

theorem advance_spec {axes : List (Int × α)} {coords : List Int} (inRange : InRange coords (axes.map Prod.fst)) (base : α) :
    ∃ more coords', advance axes coords (base + shift coords (axes.map Prod.snd)) =
        (more, coords', base + shift coords' (axes.map Prod.snd)) ∧ InRange coords' (axes.map Prod.fst) ∧
      if more then position (axes.map Prod.fst) coords' = position (axes.map Prod.fst) coords + 1
      else position (axes.map Prod.fst) coords + 1 = (axes.map Prod.fst).prod ∧ position (axes.map Prod.fst) coords' = 0 := by
  induction axes generalizing coords base with
  | nil =>
    cases inRange
    exact ⟨false, [], by simp [advance], .nil, rfl, rfl⟩
  | cons axis axes ih =>
    obtain ⟨dim, stride⟩ := axis
    obtain _ | @⟨c, _, coords, _, bound, tail⟩ := inRange
    change 0 ≤ c ∧ c < dim at bound
    obtain ⟨more, coords', inner, within, place⟩ := ih tail (base + c • stride)
    have start : base + shift (c :: coords) (stride :: axes.map Prod.snd) =
        base + c • stride + shift coords (axes.map Prod.snd) := by rw [shift_cons, add_assoc]
    simp only [List.map_cons, advance, start, inner, position, List.prod_cons]
    by_cases early : more = true
    · rw [if_pos early] at place ⊢
      refine ⟨true, c :: coords', ?_, .cons bound within, ?_⟩
      · rw [shift_cons, add_assoc]
      · rw [if_pos rfl, position, place, Int.add_assoc]
    rw [if_neg early] at place ⊢
    by_cases further : c + 1 < dim
    · rw [if_pos further]
      refine ⟨true, (c + 1) :: coords', ?_, .cons ⟨by omega, further⟩ within, ?_⟩
      · rw [shift_cons, add_smul, one_smul]
        simp only [Prod.mk.injEq, true_and]
        abel
      · rw [if_pos rfl, position, place.2, Int.add_assoc, place.1]
        ring
    · rw [if_neg further]
      have last : c + 1 = dim := by omega
      refine ⟨false, 0 :: coords', ?_, .cons ⟨Int.le_refl 0, show (0 : Int) < dim by omega⟩ within, ?_⟩
      · rw [shift_cons, ← last, add_smul, one_smul, zero_smul]
        simp only [Prod.mk.injEq, true_and]
        abel
      · rw [if_neg Bool.false_ne_true, position, place.2, Int.add_assoc, place.1, ← last]
        constructor
        · ring
        · ring

theorem walk_getElem? {axes : List (Int × α)} {n k : Nat} (small : k < n) {coords : List Int} (base : α)
    (inRange : InRange coords (axes.map Prod.fst)) (inside : position (axes.map Prod.fst) coords + k < (axes.map Prod.fst).prod) :
    ∃ coords', InRange coords' (axes.map Prod.fst) ∧ position (axes.map Prod.fst) coords' = position (axes.map Prod.fst) coords + k ∧
      (walk axes n coords (base + shift coords (axes.map Prod.snd)))[k]? = some (base + shift coords' (axes.map Prod.snd)) := by
  induction k generalizing n coords with
  | zero =>
    obtain ⟨n, rfl⟩ := Nat.exists_eq_succ_of_ne_zero (Nat.ne_of_gt small)
    exact ⟨coords, inRange, (Int.add_zero _).symm, rfl⟩
  | succ k ih =>
    obtain ⟨n, rfl⟩ := Nat.exists_eq_succ_of_ne_zero (Nat.ne_of_gt (Nat.zero_lt_of_lt small))
    obtain ⟨more, next, step, within, place⟩ := advance_spec inRange base
    rw [walk, step, List.getElem?_cons_succ]
    split at place
    · obtain ⟨coords', inRange', same, found⟩ := ih (Nat.lt_of_succ_lt_succ small) within (by omega)
      exact ⟨coords', inRange', by omega, found⟩
    · omega

def origin (axes : List (Int × α)) : List Int := axes.map fun _ => 0

omit [AddCommGroup α] in
theorem position_origin (axes : List (Int × α)) : position (axes.map Prod.fst) (origin axes) = 0 := by
  induction axes with
  | nil => rfl
  | cons axis axes ih =>
    change 0 * _ + position (axes.map Prod.fst) (origin axes) = 0
    rw [ih, zero_mul, zero_add]

theorem shift_origin (axes : List (Int × α)) : shift (origin axes) (axes.map Prod.snd) = 0 := by
  induction axes with
  | nil => rfl
  | cons axis axes ih =>
    change shift (0 :: origin axes) (axis.2 :: axes.map Prod.snd) = 0
    rw [shift_cons, zero_smul, ih, add_zero]

omit [AddCommGroup α] in
theorem origin_inRange {axes : List (Int × α)} {coords : List Int} (inRange : InRange coords (axes.map Prod.fst)) :
    InRange (origin axes) (axes.map Prod.fst) := by
  have zeros := inRange.zeros
  rwa [List.map_map] at zeros

/-- The walk from the first element comes to the element of every coordinate tuple at its row-major position. -/
theorem walk_position {axes : List (Int × α)} {coords : List Int} (inRange : InRange coords (axes.map Prod.fst)) (base : α) :
    (walk axes (axes.map Prod.fst).prod.toNat (origin axes) base)[(position (axes.map Prod.fst) coords).toNat]? =
      some (base + shift coords (axes.map Prod.snd)) := by
  have bounds := position_range inRange
  have start := position_origin axes
  have small : (position (axes.map Prod.fst) coords).toNat < (axes.map Prod.fst).prod.toNat := by omega
  obtain ⟨coords', inRange', same, found⟩ := walk_getElem? small base (origin_inRange inRange) (by omega)
  have equal : coords' = coords := position_injective inRange' inRange (by omega)
  rw [shift_origin, add_zero] at found
  exact equal ▸ found

end NLang.Library.Odometer
