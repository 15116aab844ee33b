import Mathlib

/-!
# Row-major positions

Coordinate tuples within a list of dimensions, their positions in row-major order, and affine maps over them.
-/

namespace NLang.Library.RowMajor

def InRange (coords dims : List Int) : Prop := List.Forall₂ (fun c d => 0 ≤ c ∧ c < d) coords dims

def position : List Int → List Int → Int
  | _ :: dims, c :: coords => c * dims.prod + position dims coords
  | _, _ => 0

@[simp] theorem position_nil (coords : List Int) : position [] coords = 0 := by cases coords <;> rfl

def rowStrides : List Int → List Int
  | [] => []
  | _ :: dims => dims.prod :: rowStrides dims

def dot (coords strides : List Int) : Int := (List.zipWith (· * ·) coords strides).sum

@[simp] theorem dot_cons (c s : Int) (coords strides : List Int) : dot (c :: coords) (s :: strides) = c * s + dot coords strides := by
  simp [dot]

@[simp] theorem dot_nil (strides : List Int) : dot [] strides = 0 := by simp [dot]

@[simp] theorem length_rowStrides (dims : List Int) : (rowStrides dims).length = dims.length := by
  induction dims with
  | nil => rfl
  | cons d dims ih => rw [rowStrides, List.length_cons, List.length_cons, ih]

theorem inRange_zeros {dims : List Int} (nonneg : ∀ d ∈ dims, 0 ≤ d) (occupied : dims.prod ≠ 0) :
    InRange (dims.map fun _ => 0) dims := by
  induction dims with
  | nil => exact .nil
  | cons d dims ih =>
    rw [List.prod_cons] at occupied
    have first := nonneg d (.head _)
    have positive : d ≠ 0 := left_ne_zero_of_mul occupied
    exact .cons ⟨Int.le_refl 0, show (0 : Int) < d by omega⟩ (ih (fun e member => nonneg e (.tail _ member)) (right_ne_zero_of_mul occupied))

section InRange
variable {coords dims : List Int} (inRange : InRange coords dims)
include inRange

theorem dot_rowStrides : dot coords (rowStrides dims) = position dims coords := by
  induction inRange with
  | nil => rfl
  | cons _ _ ih => rw [rowStrides, dot_cons, position, ih]

theorem prod_pos : 0 < dims.prod := by
  induction inRange with
  | nil => exact Int.one_pos
  | cons axis _ ih =>
    rw [List.prod_cons]
    exact Int.mul_pos (by omega) ih

theorem position_range : 0 ≤ position dims coords ∧ position dims coords < dims.prod := by
  induction inRange with
  | nil => exact ⟨Int.le_refl 0, Int.one_pos⟩
  | @cons c d coords dims axis tail ih =>
    rw [position, List.prod_cons]
    have positive := prod_pos tail
    constructor
    · have := Int.mul_nonneg axis.1 (Int.le_of_lt positive)
      omega
    · have : (c + 1) * dims.prod ≤ d * dims.prod := Int.mul_le_mul_of_nonneg_right (by omega) (Int.le_of_lt positive)
      rw [add_mul, one_mul] at this
      omega

theorem rowStrides_pos : ∀ stride ∈ rowStrides dims, 0 < stride := by
  induction inRange with
  | nil => exact fun _ member => nomatch member
  | cons _ tail ih =>
    intro stride member
    rcases List.mem_cons.mp member with rfl | later
    · exact prod_pos tail
    · exact ih stride later

theorem prod_take_le (n : Nat) : (dims.take n).prod ≤ dims.prod := by
  induction inRange generalizing n with
  | nil => simp
  | @cons c d coords dims axis tail ih =>
    cases n with
    | zero => exact prod_pos (.cons axis tail)
    | succ n =>
      rw [List.take_succ_cons, List.prod_cons, List.prod_cons]
      exact Int.mul_le_mul_of_nonneg_left (ih n) (by omega)

theorem coord_range {bound : Int} (small : ∀ d ∈ dims, d ≤ bound) : ∀ c ∈ coords, 0 ≤ c ∧ c < bound := by
  induction inRange with
  | nil => exact fun _ member => nomatch member
  | @cons c d coords dims axis tail ih =>
    intro e member
    rcases List.mem_cons.mp member with rfl | member
    · have := small d (.head _)
      omega
    · exact ih (fun e member => small e (.tail _ member)) e member

def decodeAxis (axis : Int × Int) (s : Int × Int) : Int × Int := (s.1 + s.2 % axis.1 * axis.2, s.2 / axis.1)

theorem foldr_decodeAxis (strides : List Int) (sameLength : strides.length = dims.length) (offset carry : Int) :
    (dims.zip strides).foldr decodeAxis (offset, carry * dims.prod + position dims coords) =
      (offset + dot coords strides, carry) := by
  induction inRange generalizing strides carry with
  | nil => simp [List.zip_nil_left]
  | @cons c d coords dims axis tail ih =>
    cases strides with
    | nil => cases sameLength
    | cons s strides =>
      have split : carry * (d :: dims).prod + position (d :: dims) (c :: coords) =
          (carry * d + c) * dims.prod + position dims coords := by
        rw [position, List.prod_cons]
        ring
      rw [List.zip_cons_cons, List.foldr_cons, split, ih _ (Nat.succ.inj sameLength), decodeAxis, dot_cons]
      have coord : (carry * d + c) % d = c := by
        rw [Int.add_comm, Int.add_mul_emod_self_right, Int.emod_eq_of_lt axis.1 axis.2]
      have rest : (carry * d + c) / d = carry := by
        rw [Int.add_comm, Int.add_mul_ediv_right _ _ (by omega), Int.ediv_eq_zero_of_lt axis.1 axis.2, Int.zero_add]
      rw [coord, rest, Int.add_assoc, Int.add_comm (dot coords strides)]

theorem InRange.zeros : InRange (dims.map fun _ => 0) dims := by
  induction inRange with
  | nil => exact .nil
  | cons axis _ ih => exact .cons ⟨Int.le_refl 0, Int.lt_of_le_of_lt axis.1 axis.2⟩ ih

omit inRange in
theorem dot_zeros (strides : List Int) : dot (dims.map fun _ => 0) strides = 0 := by
  induction dims generalizing strides with
  | nil => exact dot_nil strides
  | cons d dims ih =>
    cases strides with
    | nil => simp [dot]
    | cons s strides => rw [List.map_cons, dot_cons, ih, zero_mul, add_zero]

def spanAxis (bounds : Int × Int) (axis : Int × Int) : Int × Int :=
  let span := (axis.1 - 1) * axis.2
  if span < 0 then (bounds.1 + span, bounds.2) else (bounds.1, bounds.2 + span)

theorem foldl_spanAxis (strides : List Int) (sameLength : strides.length = dims.length) (low high : Int) :
    ((dims.zip strides).foldl spanAxis (low, high)).1 ≤ low + dot coords strides ∧
      high + dot coords strides ≤ ((dims.zip strides).foldl spanAxis (low, high)).2 := by
  induction inRange generalizing strides low high with
  | nil => simp [List.zip_nil_left]
  | @cons c d coords dims axis tail ih =>
    cases strides with
    | nil => cases sameLength
    | cons s strides =>
      have sameLength := Nat.succ.inj sameLength
      rw [List.zip_cons_cons, List.foldl_cons, dot_cons, spanAxis]
      dsimp only
      split
      · rename_i negative
        have down : s < 0 := by
          by_contra up
          have := Int.mul_nonneg (show 0 ≤ d - 1 by omega) (show 0 ≤ s by omega)
          omega
        have above : (d - 1) * s ≤ c * s := Int.mul_le_mul_of_nonpos_right (by omega) (by omega)
        have below : c * s ≤ 0 := Int.mul_nonpos_of_nonneg_of_nonpos axis.1 (by omega)
        obtain ⟨least, most⟩ := ih _ sameLength (low + (d - 1) * s) high
        exact ⟨by omega, by omega⟩
      · rename_i nonneg
        have bounds : 0 ≤ c * s ∧ c * s ≤ (d - 1) * s := by
          by_cases up : 0 ≤ s
          · exact ⟨Int.mul_nonneg axis.1 up, Int.mul_le_mul_of_nonneg_right (by omega) up⟩
          · -- a falling axis whose span is not negative has one coordinate
            have single : d = 1 := by
              by_contra several
              have := Int.mul_neg_of_pos_of_neg (show 0 < d - 1 by omega) (show s < 0 by omega)
              omega
            have first : c = 0 := by omega
            subst single
            subst first
            exact ⟨by simp, by simp⟩
        obtain ⟨least, most⟩ := ih _ sameLength low (high + (d - 1) * s)
        exact ⟨by omega, by omega⟩

theorem spanAxis_attained (strides : List Int) (sameLength : strides.length = dims.length) (low high : Int) :
    (∃ c, InRange c dims ∧ ((dims.zip strides).foldl spanAxis (low, high)).1 = low + dot c strides) ∧
      ∃ c, InRange c dims ∧ ((dims.zip strides).foldl spanAxis (low, high)).2 = high + dot c strides := by
  induction inRange generalizing strides low high with
  | nil => exact ⟨⟨[], .nil, by simp⟩, [], .nil, by simp⟩
  | @cons c d coords dims axis tail ih =>
    cases strides with
    | nil => cases sameLength
    | cons s strides =>
      have ih := ih strides (Nat.succ.inj sameLength)
      rw [List.zip_cons_cons, List.foldl_cons, spanAxis]
      dsimp only
      split
      · obtain ⟨⟨least, inLeast, isLeast⟩, most, inMost, isMost⟩ := ih (low + (d - 1) * s) high
        refine ⟨⟨(d - 1) :: least, .cons ⟨by omega, by omega⟩ inLeast, ?_⟩, 0 :: most, .cons ⟨by omega, by omega⟩ inMost, ?_⟩
        · rw [isLeast, dot_cons, Int.add_assoc]
        · rw [isMost, dot_cons, Int.zero_mul, Int.zero_add]
      · obtain ⟨⟨least, inLeast, isLeast⟩, most, inMost, isMost⟩ := ih low (high + (d - 1) * s)
        refine ⟨⟨0 :: least, .cons ⟨by omega, by omega⟩ inLeast, ?_⟩, (d - 1) :: most, .cons ⟨by omega, by omega⟩ inMost, ?_⟩
        · rw [isLeast, dot_cons, Int.zero_mul, Int.zero_add]
        · rw [isMost, dot_cons, Int.add_assoc]

theorem abs_dot_le {strides : List Int} {bound : Int} (small : ∀ s ∈ strides, |s| ≤ bound) (positive : 0 ≤ bound) :
    |dot coords strides| ≤ (dims.prod - 1) * bound := by
  induction inRange generalizing strides with
  | nil => simp
  | @cons c d coords dims axis tail ih =>
    have product := prod_pos tail
    cases strides with
    | nil =>
      have := Int.mul_pos (show 0 < d by omega) product
      rw [List.prod_cons]
      simpa [dot] using Int.mul_nonneg (by omega) positive
    | cons s strides =>
      rw [dot_cons, List.prod_cons]
      have rest := ih fun t member => small t (.tail _ member)
      have first : |c * s| ≤ (d - 1) * bound := by
        rw [abs_mul, abs_of_nonneg axis.1]
        exact mul_le_mul (by omega) (small s (.head _)) (abs_nonneg s) (by omega)
      calc |c * s + dot coords strides| ≤ |c * s| + |dot coords strides| := abs_add_le _ _
        _ ≤ (d - 1) * bound + (dims.prod - 1) * bound := add_le_add first rest
        _ = ((d - 1) + (dims.prod - 1)) * bound := by ring
        _ ≤ (d * dims.prod - 1) * bound := by
            have : 0 ≤ (d - 1) * (dims.prod - 1) := Int.mul_nonneg (by omega) (by omega)
            refine Int.mul_le_mul_of_nonneg_right ?_ positive
            nlinarith

end InRange

def Apart (axes : List (Int × Int)) : Prop :=
  ∀ deltas, List.Forall₂ (fun δ axis => |δ| < axis.1) deltas axes → dot deltas (axes.map (·.2)) = 0 →
    List.Forall₂ (fun δ axis => δ = 0 ∨ axis.2 = 0) deltas axes

theorem apart_of_empty {axes : List (Int × Int)} {axis : Int × Int} (member : axis ∈ axes) (empty : axis.1 ≤ 0) : Apart axes := by
  intro deltas small sum
  clear sum
  exfalso
  induction small with
  | nil => cases member
  | @cons δ first _ _ below _ ih =>
    rcases List.mem_cons.mp member with rfl | later
    · have := abs_nonneg δ
      omega
    · exact ih later

theorem InRange.difference {axes : List (Int × Int)} {c c' : List Int} (first : InRange c (axes.map (·.1)))
    (second : InRange c' (axes.map (·.1))) :
    ∃ deltas, List.Forall₂ (fun δ axis => |δ| < axis.1) deltas axes ∧
      dot deltas (axes.map (·.2)) = dot c (axes.map (·.2)) - dot c' (axes.map (·.2)) ∧ ((∀ δ ∈ deltas, δ = 0) → c = c') := by
  induction axes generalizing c c' with
  | nil =>
    cases first
    cases second
    exact ⟨[], .nil, by simp, fun _ => rfl⟩
  | cons axis axes ih =>
    obtain ⟨x, c, hx, tail, rfl⟩ := List.forall₂_cons_right_iff.mp first
    obtain ⟨y, c', hy, tail', rfl⟩ := List.forall₂_cons_right_iff.mp second
    obtain ⟨deltas, small, sum, same⟩ := ih tail tail'
    dsimp only at hx hy
    refine ⟨(x - y) :: deltas, .cons (abs_lt.mpr (by omega)) small, ?_, fun zeros => ?_⟩
    · simp only [List.map_cons, dot_cons, sum]
      ring
    · have here := zeros (x - y) (.head _)
      rw [same fun δ member => zeros δ (.tail _ member), show x = y by omega]

theorem exists_difference {axes : List (Int × Int)} {deltas : List Int}
    (small : List.Forall₂ (fun δ axis => |δ| < axis.1) deltas axes) :
    ∃ c c', InRange c (axes.map (·.1)) ∧ InRange c' (axes.map (·.1)) ∧
      dot c (axes.map (·.2)) - dot c' (axes.map (·.2)) = dot deltas (axes.map (·.2)) ∧ (c = c' → ∀ δ ∈ deltas, δ = 0) := by
  induction small with
  | nil => exact ⟨[], [], .nil, .nil, by simp, fun _ _ member => nomatch member⟩
  | @cons δ axis deltas axes below _ ih =>
    obtain ⟨c, c', first, second, sum, same⟩ := ih
    rw [abs_lt] at below
    have head : (0 ≤ max δ 0 ∧ max δ 0 < axis.1) ∧ 0 ≤ max (-δ) 0 ∧ max (-δ) 0 < axis.1 := by omega
    refine ⟨max δ 0 :: c, max (-δ) 0 :: c', .cons head.1 first, .cons head.2 second, ?_, fun equal => ?_⟩
    · have parts : max δ 0 * axis.2 = δ * axis.2 + max (-δ) 0 * axis.2 := by
        rw [← add_mul]
        congr 1
        omega
      simp only [List.map_cons, dot_cons]
      omega
    · obtain ⟨head, tail⟩ := List.cons.inj equal
      intro other member
      rcases List.mem_cons.mp member with rfl | later
      · omega
      · exact same tail other later

theorem apart_iff {axes : List (Int × Int)} (gate : ∀ axis ∈ axes, 1 < axis.1 → axis.2 ≠ 0) :
    Apart axes ↔ ∀ c c', InRange c (axes.map (·.1)) → InRange c' (axes.map (·.1)) →
      dot c (axes.map (·.2)) = dot c' (axes.map (·.2)) → c = c' := by
  constructor
  · intro apart c c' first second sameAddress
    obtain ⟨deltas, small, sum, same⟩ := first.difference second
    have zeros := apart deltas small (by rw [sum, sameAddress, sub_self])
    refine same fun δ member => ?_
    obtain ⟨k, inside, rfl⟩ := List.getElem_of_mem member
    have inside' : k < axes.length := small.length_eq ▸ inside
    rcases (List.forall₂_iff_get.mp zeros).2 k inside inside' with zero | flat
    · exact zero
    · have below : |deltas[k]| < axes[k].1 := (List.forall₂_iff_get.mp small).2 k inside inside'
      have single : ¬ 1 < axes[k].1 := fun several => gate _ (List.getElem_mem inside') several flat
      exact abs_eq_zero.mp (by have := abs_nonneg deltas[k]; omega)
  · intro injective deltas small sum
    obtain ⟨c, c', first, second, difference, same⟩ := exists_difference small
    have zeros := same (injective c c' first second (by omega))
    exact List.forall₂_iff_get.mpr ⟨small.length_eq, fun k inside _ => .inl (zeros _ (List.get_mem _ _))⟩

theorem position_injective {dims c c' : List Int} (first : InRange c dims) (second : InRange c' dims)
    (same : position dims c = position dims c') : c = c' := by
  induction first generalizing c' with
  | nil =>
    cases second
    rfl
  | @cons x d c dims axis tail ih =>
    cases second with
    | @cons y _ c' _ axis' tail' =>
      rw [position, position] at same
      have bounds := position_range tail
      have bounds' := position_range tail'
      have equal : x = y := by
        by_contra apart
        rcases Int.lt_or_gt_of_ne apart with less | more
        · have := Int.mul_le_mul_of_nonneg_right (show x + 1 ≤ y by omega) (Int.le_of_lt (prod_pos tail))
          rw [add_mul, one_mul] at this
          omega
        · have := Int.mul_le_mul_of_nonneg_right (show y + 1 ≤ x by omega) (Int.le_of_lt (prod_pos tail))
          rw [add_mul, one_mul] at this
          omega
      subst equal
      rw [ih tail' (by omega)]

end NLang.Library.RowMajor
