import NLang.Vm.Slices

/-!
# The axes of a subscript

What `FoldSliceAxes` makes of each axis of a subscript by itself: a stretch of integers for a slice, an index for a
scalar.
-/

namespace NLang.Vm.Heap
open NLang.Library.RowMajor

structure AxisRange where
  first : Int
  last : Int
  step : Int

def normalSlice (len : Int) (start stop step : Option Int32) : Option AxisRange := do
  let step ← sliceStep step
  if step = 0 then none
  else
    let positiveStep : Bool := 0 < step
    let first ← sliceEndpoint (if positiveStep then 0 else len - 1) len positiveStep start
    let last ← sliceEndpoint (if positiveStep then len else -1) len positiveStep stop
    some { first, last, step }

namespace AxisRange
variable (range : AxisRange)

def count : Int :=
  if 0 < range.step ∧ range.first < range.last then
    (int32Cast (range.last - range.first + range.step - 1)).tdiv range.step
  else if ¬ 0 < range.step ∧ range.last < range.first then
    (int32Cast (range.first - range.last - range.step - 1)).tdiv (-range.step)
  else 0

def span : Int := if 0 < range.step then range.last - range.first else range.first - range.last

def Before (k : Nat) : Prop :=
  if 0 < range.step then range.first + k * range.step < range.last else range.last < range.first + k * range.step

def IsCount (n : Int) : Prop := 0 ≤ n ∧ ∀ k : Nat, (k : Int) < n ↔ range.Before k

def Fits : Prop := 0 < range.span → range.span + |range.step| - 1 < 2 ^ 31

instance : Decidable range.Fits := inferInstanceAs (Decidable (_ → _))

end AxisRange

namespace AxisRange
variable {range : AxisRange}

theorem before_iff (range : AxisRange) (k : Nat) : range.Before k ↔ k * |range.step| < range.span := by
  rw [Before, span]
  by_cases up : 0 < range.step
  · rw [if_pos up, if_pos up, abs_of_pos up]
    constructor <;> intro <;> omega
  · rw [if_neg up, if_neg up, abs_of_nonpos (by omega), mul_neg]
    constructor <;> intro <;> omega

instance (range : AxisRange) (k : Nat) : Decidable (range.Before k) := decidable_of_iff _ (range.before_iff k).symm

theorem isCount_iff (nonzero : range.step ≠ 0) (n : Int) :
    range.IsCount n ↔ n = if 0 < range.span then (range.span + |range.step| - 1) / |range.step| else 0 := by
  have positive : 0 < |range.step| := abs_pos.mpr nonzero
  have correct : range.IsCount (if 0 < range.span then (range.span + |range.step| - 1) / |range.step| else 0) := by
    split
    · rename_i some_left
      refine ⟨Int.ediv_nonneg (by omega) (Int.le_of_lt positive), fun k => ?_⟩
      rw [before_iff, Int.lt_iff_add_one_le, Int.le_ediv_iff_mul_le positive, add_mul, one_mul]
      omega
    · rename_i none_left
      refine ⟨Int.le_refl 0, fun k => ?_⟩
      rw [before_iff]
      have := Int.mul_nonneg (Int.natCast_nonneg k) (Int.le_of_lt positive)
      omega
  constructor
  · intro isCount
    generalize (if 0 < range.span then (range.span + |range.step| - 1) / |range.step| else 0) = m at correct
    by_contra apart
    rcases Int.lt_or_gt_of_ne apart with less | more
    · have at_n := (correct.2 n.toNat).mp (by rw [Int.toNat_of_nonneg isCount.1]; exact less)
      have := (isCount.2 n.toNat).mpr at_n
      rw [Int.toNat_of_nonneg isCount.1] at this
      omega
    · have at_m := (isCount.2 m.toNat).mp (by rw [Int.toNat_of_nonneg correct.1]; exact more)
      have := (correct.2 m.toNat).mpr at_m
      rw [Int.toNat_of_nonneg correct.1] at this
      omega
  · rintro rfl
    exact correct

theorem count_eq (range : AxisRange) :
    range.count = if 0 < range.span then (int32Cast (range.span + |range.step| - 1)).tdiv |range.step| else 0 := by
  rw [count, span]
  by_cases up : 0 < range.step
  · simp only [up, true_and, not_true_eq_false, false_and, if_true, if_false]
    rw [abs_of_pos up]
    congr 1
    exact propext ⟨fun _ => by omega, fun _ => by omega⟩
  · simp only [up, false_and, not_false_eq_true, true_and, if_false]
    rw [abs_of_nonpos (by omega)]
    have sum : range.first - range.last - range.step - 1 = range.first - range.last + -range.step - 1 := by ring
    rw [sum]
    congr 1
    exact propext ⟨fun _ => by omega, fun _ => by omega⟩

theorem count_of_fits (nonzero : range.step ≠ 0) (fits : range.Fits) : range.IsCount range.count := by
  have positive : 0 < |range.step| := abs_pos.mpr nonzero
  rw [isCount_iff nonzero, count_eq]
  by_cases some_left : 0 < range.span
  · have small := fits some_left
    rw [if_pos some_left, if_pos some_left, int32Cast, Int.bmod_eq_of_le (by omega) (by omega), Int.tdiv_eq_ediv_of_nonneg (by omega)]
  · rw [if_neg some_left, if_neg some_left]

theorem count_nonpos (short : range.span < 2 ^ 31) (small : |range.step| < 2 ^ 31) (overflow : ¬ range.Fits) : range.count ≤ 0 := by
  rw [Fits, Classical.not_imp] at overflow
  obtain ⟨some_left, large⟩ := overflow
  have nonzero : range.step ≠ 0 := by
    intro zero
    rw [zero, abs_zero] at large
    omega
  have wrapped : int32Cast (range.span + |range.step| - 1) = range.span + |range.step| - 1 - 2 ^ 32 := by
    rw [int32Cast, Int.bmod_eq_iff (by decide)]
    omega
  rw [count_eq, if_pos some_left, wrapped, ← neg_neg (range.span + |range.step| - 1 - 2 ^ 32), Int.neg_tdiv]
  exact Int.neg_nonpos_of_nonneg (Int.tdiv_nonneg (by omega) (abs_nonneg _))

structure On (range : AxisRange) (len : Int) : Prop where
  nonzero : range.step ≠ 0
  small : |range.step| < 2 ^ 31
  short : range.span ≤ len
  inside : ∀ k : Nat, range.Before k → 0 ≤ range.first + k * range.step ∧ range.first + k * range.step < len

theorem On.count_le {len n : Int} (on : range.On len) (nonneg : 0 ≤ len) (isCount : range.IsCount n) : n ≤ len := by
  by_contra more
  have before := (isCount.2 len.toNat).mp (by rw [Int.toNat_of_nonneg nonneg]; omega)
  rw [before_iff, Int.toNat_of_nonneg nonneg] at before
  have one : 1 ≤ |range.step| := abs_pos.mpr on.nonzero
  have := le_mul_of_one_le_right nonneg one
  have := on.short
  omega

end AxisRange

theorem writtenPart_eq {value : Int32} {part : Int} (written : writtenPart value = some part) :
    part = value.toInt ∧ part ≠ -2 ^ 31 := by
  rw [writtenPart, Option.ite_none_left_eq_some] at written
  obtain ⟨apart, same⟩ := written
  cases same
  exact ⟨rfl, apart⟩

theorem sliceEndpoint_range {default len part : Int} {positiveStep : Bool} {value : Option Int32} (nonneg : 0 ≤ len)
    (start : (if positiveStep then 0 else -1) ≤ default ∧ default ≤ if positiveStep then len else len - 1)
    (isPart : sliceEndpoint default len positiveStep value = some part) :
    (if positiveStep then 0 else -1) ≤ part ∧ part ≤ if positiveStep then len else len - 1 := by
  cases value with
  | none =>
    cases isPart
    exact start
  | some value =>
    obtain ⟨written, -, same⟩ := Option.map_eq_some_iff.mp isPart
    rw [← same, clipSliceEndpoint]
    cases positiveStep <;> simp <;> omega

theorem normalSlice_on {len : Int} {start stop step : Option Int32} {range : AxisRange} (nonneg : 0 ≤ len)
    (normal : normalSlice len start stop step = some range) : range.On len := by
  obtain ⟨by_, isStep, normal⟩ := Option.bind_eq_some_iff.mp normal
  have small : |by_| < 2 ^ 31 := by
    cases step with
    | none =>
      cases isStep
      decide
    | some value =>
      obtain ⟨rfl, apart⟩ := writtenPart_eq isStep
      have := Int32.le_toInt value
      have := Int32.toInt_lt value
      rw [abs_lt]
      omega
  rw [Option.ite_none_left_eq_some] at normal
  obtain ⟨nonzero, normal⟩ := normal
  obtain ⟨first, isFirst, normal⟩ := Option.bind_eq_some_iff.mp normal
  obtain ⟨last, isLast, normal⟩ := Option.bind_eq_some_iff.mp normal
  cases normal
  have firstRange := sliceEndpoint_range nonneg (by split <;> omega) isFirst
  have lastRange := sliceEndpoint_range nonneg (by split <;> omega) isLast
  by_cases up : 0 < by_
  · simp only [up, decide_true, if_true] at firstRange lastRange
    refine ⟨nonzero, small, ?_, fun k before => ?_⟩
    · rw [AxisRange.span, if_pos up]
      dsimp only
      omega
    · rw [AxisRange.Before, if_pos up] at before
      have := Int.mul_nonneg (Int.natCast_nonneg k) (Int.le_of_lt up)
      dsimp only at before ⊢
      omega
  · simp only [up, decide_false, Bool.false_eq_true, if_false] at firstRange lastRange
    refine ⟨nonzero, small, ?_, fun k before => ?_⟩
    · rw [AxisRange.span, if_neg up]
      dsimp only
      omega
    · rw [AxisRange.Before, if_neg up] at before
      have := Int.mul_nonpos_of_nonneg_of_nonpos (Int.natCast_nonneg k) (show by_ ≤ 0 by omega)
      dsimp only at before ⊢
      omega

structure FoldedAxis where
  kept : Option (Int × Int)
  offset : Int

def foldAxis (dim stride : Int) : SliceAxis → Option FoldedAxis
  | .scalar idx => if idx.toInt < 0 ∨ dim ≤ idx.toInt then none else some ⟨none, idx.toInt * stride⟩
  | .slice start stop step =>
    (normalSlice dim start stop step).bind fun range =>
      if 1 < range.count ∧ fitsInt32 (stride * range.step) = false then none
      else some ⟨some (range.count, sliceAxisStride (stride * range.step)), range.first * stride⟩

def SliceFold.add (st : SliceFold) (axis : FoldedAxis) : SliceFold where
  axes := axis.kept.toList ++ st.axes
  offset := st.offset + axis.offset

theorem foldOneSliceAxis_eq (dim stride : Int) (start stop step : Option Int32) (st : SliceFold) :
    foldOneSliceAxis dim stride start stop step st = (foldAxis dim stride (.slice start stop step)).map st.add := by
  rw [foldOneSliceAxis, foldAxis, normalSlice]
  cases sliceStep step with
  | none => rfl
  | some by_ =>
    simp only [Option.bind_some, bind]
    by_cases zero : by_ = 0
    · rw [if_pos zero, if_pos zero]
      rfl
    · rw [if_neg zero, if_neg zero]
      cases sliceEndpoint (if decide (0 < by_) = true then 0 else dim - 1) dim (decide (0 < by_)) start with
      | none => rfl
      | some first =>
        cases sliceEndpoint (if decide (0 < by_) = true then dim else -1) dim (decide (0 < by_)) stop with
        | none => rfl
        | some last =>
          have sameCount : (if decide (0 < by_) = true ∧ first < last then (int32Cast (last - first + by_ - 1)).tdiv by_
              else if ¬ decide (0 < by_) = true ∧ last < first then (int32Cast (first - last - by_ - 1)).tdiv (-by_) else 0) =
              (AxisRange.mk first last by_).count := by
            simp only [AxisRange.count, decide_eq_true_eq]
          simp only [Option.bind_some, sameCount]
          split <;> rfl

inductive AxesFolded : List (SliceAxis × Int × Int) → List (Int × Int) → Int → Prop where
  | nil : AxesFolded [] [] 0
  | cons {axis : SliceAxis} {dim stride : Int} {folded : FoldedAxis} {parts : List (SliceAxis × Int × Int)}
      {kept : List (Int × Int)} {offset : Int} : foldAxis dim stride axis = some folded → AxesFolded parts kept offset →
      AxesFolded ((axis, dim, stride) :: parts) (folded.kept.toList ++ kept) (folded.offset + offset)

def baseAxes (slot : Slot) : List Int × Int :=
  if slot.kind = .arrayView then (slot.viewStrides, slot.viewOffset) else ((rowMajorStrides slot.dims).1, 0)

def axisParts (slot : Slot) (axes : List SliceAxis) : List (SliceAxis × Int × Int) :=
  axes.zip (slot.dims.zip (baseAxes slot).1)

theorem length_rowMajorStrides (dims : List Int) : (rowMajorStrides dims).1.length = dims.length := by
  induction dims with
  | nil => rfl
  | cons dim dims ih =>
    rw [rowMajorStrides] at ih ⊢
    rw [List.foldr_cons, List.length_cons, List.length_cons, ih]

theorem length_baseAxes (slot : Slot) : (baseAxes slot).1.length = slot.dims.length := by
  rw [baseAxes]
  split
  · simp
  · exact length_rowMajorStrides _

section Parts
variable {slot : Slot} {axes : List SliceAxis} (rank : axes.length = slot.rank)
include rank

theorem axisParts_axes : (axisParts slot axes).map (·.2) = slot.dims.zip (baseAxes slot).1 := by
  rw [axisParts, ← List.unzip_snd, List.unzip_zip_right]
  rw [List.length_zip, length_baseAxes, Slot.length_dims, rank]
  exact Nat.min_le_left _ _

theorem axisParts_dims : (axisParts slot axes).map (·.2.1) = slot.dims := by
  have axes := congrArg (·.map (·.1)) (axisParts_axes rank)
  simp only [List.map_map] at axes
  exact axes.trans (by rw [← List.unzip_fst, List.unzip_zip_left (by rw [length_baseAxes])])

theorem axisParts_strides : (axisParts slot axes).map (·.2.2) = (baseAxes slot).1 := by
  have axes := congrArg (·.map (·.2)) (axisParts_axes rank)
  simp only [List.map_map] at axes
  exact axes.trans (by rw [← List.unzip_snd, List.unzip_zip_right (by rw [length_baseAxes])])

end Parts

theorem foldSliceAxes_iff {slot : Slot} {axes : List SliceAxis} {st : SliceFold} :
    foldSliceAxes slot axes = some st ↔ ∃ kept offset, AxesFolded (axisParts slot axes) kept offset ∧
      st.axes = kept.reverse ∧ st.offset = (baseAxes slot).2 + offset := by
  have step (st : SliceFold) (part : SliceAxis × Int × Int) : (match part.1 with
      | .scalar idx =>
        if idx.toInt < 0 ∨ part.2.1 ≤ idx.toInt then none
        else some { st with offset := st.offset + idx.toInt * part.2.2 }
      | .slice start stop step => foldOneSliceAxis part.2.1 part.2.2 start stop step st) =
      (foldAxis part.2.1 part.2.2 part.1).map st.add := by
    obtain ⟨axis, dim, stride⟩ := part
    cases axis with
    | scalar idx =>
      rw [foldAxis]
      dsimp only
      split <;> rfl
    | slice start stop step => exact foldOneSliceAxis_eq ..
  have general (parts : List (SliceAxis × Int × Int)) (start : SliceFold) :
      parts.foldlM (fun st part => (foldAxis part.2.1 part.2.2 part.1).map st.add) start = some st ↔
        ∃ kept offset, AxesFolded parts kept offset ∧ st.axes = kept.reverse ++ start.axes ∧ st.offset = start.offset + offset := by
    induction parts generalizing start with
    | nil =>
      constructor
      · intro done
        cases done
        exact ⟨[], 0, .nil, rfl, (Int.add_zero _).symm⟩
      · rintro ⟨kept, offset, folded, axes, same⟩
        cases folded
        cases st
        cases start
        simp_all
    | cons part parts ih =>
      rw [List.foldlM_cons]
      constructor
      · intro done
        obtain ⟨next, first, rest⟩ := Option.bind_eq_some_iff.mp done
        obtain ⟨folded, here, rfl⟩ := Option.map_eq_some_iff.mp first
        obtain ⟨kept, offset, more, axes, same⟩ := (ih _).mp rest
        refine ⟨_, _, .cons here more, ?_, ?_⟩
        · rw [axes, SliceFold.add, List.reverse_append, List.append_assoc]
          cases folded.kept <;> rfl
        · rw [same, SliceFold.add, Int.add_assoc]
      · rintro ⟨kept, offset, folded, axes, same⟩
        cases folded with
        | @cons axis dim stride folded _ kept offset here more =>
          refine Option.bind_eq_some_iff.mpr ⟨start.add folded, by rw [here]; rfl, (ih _).mpr ⟨kept, offset, more, ?_, ?_⟩⟩
          · rw [axes, SliceFold.add, List.reverse_append, List.append_assoc]
            cases folded.kept <;> rfl
          · rw [same, SliceFold.add, Int.add_assoc]
  have loop : foldSliceAxes slot axes = (axisParts slot axes).foldlM
      (fun st part => (foldAxis part.2.1 part.2.2 part.1).map st.add) { offset := (baseAxes slot).2 } := by
    rw [foldSliceAxes, axisParts, baseAxes]
    dsimp only
    congr 1
    funext st part
    exact step st part
  rw [loop, general]
  simp only [List.append_nil]

end NLang.Vm.Heap
