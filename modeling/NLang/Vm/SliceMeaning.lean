import NLang.Vm.ElementRoutes
import NLang.Vm.SliceAxes
import NLang.Vm.ViewCoverage

/-!
# What a slice means

The number of elements of an axis is a quotient of sums in `int32_t`: a step near the ends of the type makes the sum
overflow. Where no sum does, a slice has the elements that it names.
-/

namespace NLang.Vm.Heap
open NLang.Library.RowMajor NLang.Library.Runs

def isSentinel (part : Option Int32) : Prop := ∃ value ∈ part, value.toInt = sliceSentinel

def SliceAxis.Refused (dim stride : Int) : SliceAxis → Prop
  | .scalar idx => idx.toInt < 0 ∨ dim ≤ idx.toInt
  | .slice start stop step => (isSentinel start ∨ isSentinel stop ∨ isSentinel step ∨ step = some 0) ∨
      ∃ range n, normalSlice dim start stop step = some range ∧ range.IsCount n ∧ 1 < n ∧
        fitsInt32 (stride * range.step) = false

def SliceAxis.Fits (dim : Int) : SliceAxis → Prop
  | .scalar _ => True
  | .slice start stop step => ∀ range, normalSlice dim start stop step = some range → range.Fits

def SliceAxis.isSlice : SliceAxis → Bool
  | .scalar _ => false
  | .slice .. => true

inductive KeptDims : List (SliceAxis × Int) → List Int → Prop where
  | nil : KeptDims [] []
  | scalar {idx : Int32} {dim : Int} {parts : List (SliceAxis × Int)} {dims : List Int} :
      KeptDims parts dims → KeptDims ((.scalar idx, dim) :: parts) dims
  | slice {start stop step : Option Int32} {dim n : Int} {range : AxisRange} {parts : List (SliceAxis × Int)} {dims : List Int} :
      normalSlice dim start stop step = some range → range.IsCount n → KeptDims parts dims →
      KeptDims ((.slice start stop step, dim) :: parts) (n :: dims)

def baseCoords : List (SliceAxis × Int) → List Int → List Int
  | (.scalar idx, _) :: parts, coords => idx.toInt :: baseCoords parts coords
  | (.slice start stop step, dim) :: parts, c :: coords =>
    ((normalSlice dim start stop step).elim 0 fun range => range.first + c * range.step) :: baseCoords parts coords
  | _, _ => []

structure SliceMeans (tables : TypeTables) (h : Heap) (i : Nat) (axes : List SliceAxis) (j : Nat) (h' : Heap) : Prop where
  kind : (h'.slot j).kind = .arrayView
  dims : KeptDims (axes.zip (h.slot i).dims) (h'.slot j).dims
  elements : ∀ coords, InRange coords (h'.slot j).dims → InRange (baseCoords (axes.zip (h.slot i).dims) coords) (h.slot i).dims ∧
    ∃ place, h.coordinatePlace tables i (baseCoords (axes.zip (h.slot i).dims) coords) = some place ∧
      h'.coordinatePlace tables j coords = some place ∧ h'.readPlace place = h.readPlace place

/-- `OpMakeArrayView` raises for a part of the subscript, or makes the view that it means. -/
def SubscriptMeans (tables : TypeTables) (shard quantum : Nat) (h : Heap) (i arrayTypeIdx : Nat) (axes : List SliceAxis) : Prop :=
  match opMakeArrayView tables shard quantum h i arrayTypeIdx axes with
  | none => ∃ part ∈ axisParts (h.slot i) axes, part.1.Refused part.2.1 part.2.2
  | some (j, h') => SliceMeans tables h i axes j h'

structure Subscripted (tables : TypeTables) (h : Heap) (i arrayTypeIdx : Nat) (axes : List SliceAxis) : Prop where
  inside : 0 < i ∧ i < h.size
  isArray : isArrayValue (h.slot i) = true
  rank : axes.length = (h.slot i).rank
  sliced : ∃ axis ∈ axes, axis.isSlice = true
  row : ∃ row ownerRow, tables.arrayTypes[arrayTypeIdx]? = some row ∧
    tables.arrayTypes[((h.slot (h.ownerOf i)).word 1).toNat]? = some ownerRow ∧ row.rank = axes.countP (·.isSlice) ∧
    row.elemKind = ownerRow.elemKind ∧ row.elemTypeIdx = ownerRow.elemTypeIdx

section Axis
variable {dim stride : Int}

theorem writtenPart_eq_none {value : Int32} : writtenPart value = none ↔ value.toInt = sliceSentinel := by
  rw [writtenPart]
  split <;> simp_all

theorem sliceStep_eq_none (step : Option Int32) : sliceStep step = none ↔ isSentinel step := by
  cases step with
  | none => simp [sliceStep, isSentinel]
  | some value => simp [sliceStep, isSentinel, writtenPart_eq_none]

theorem sliceEndpoint_eq_none (default len : Int) (positiveStep : Bool) (part : Option Int32) :
    sliceEndpoint default len positiveStep part = none ↔ isSentinel part := by
  cases part with
  | none => simp [sliceEndpoint, isSentinel]
  | some value => simp [sliceEndpoint, isSentinel, writtenPart_eq_none]

theorem sliceStep_zero {step : Option Int32} : sliceStep step = some 0 ↔ step = some 0 := by
  cases step with
  | none => simp [sliceStep]
  | some value =>
    constructor
    · intro zero
      rw [Int32.toInt_inj.mp ((writtenPart_eq zero).1.symm.trans Int32.toInt_zero.symm)]
    · intro zero
      cases zero
      rfl

theorem normalSlice_eq_none (dim : Int) {start stop step : Option Int32} :
    normalSlice dim start stop step = none ↔ isSentinel start ∨ isSentinel stop ∨ isSentinel step ∨ step = some 0 := by
  rw [← sliceStep_zero, ← sliceStep_eq_none step, normalSlice]
  cases sliceStep step with
  | none => simp
  | some by_ =>
    simp only [bind, Option.bind_some]
    by_cases zero : by_ = 0
    · simp [zero]
    · rw [if_neg zero]
      generalize (if decide (0 < by_) = true then 0 else dim - 1) = first
      generalize (if decide (0 < by_) = true then dim else -1) = last
      rw [← sliceEndpoint_eq_none first dim (decide (0 < by_)) start, ← sliceEndpoint_eq_none last dim (decide (0 < by_)) stop]
      cases sliceEndpoint first dim (decide (0 < by_)) start <;>
        cases sliceEndpoint last dim (decide (0 < by_)) stop <;> simp [zero]

theorem AxisRange.IsCount.unique {range : AxisRange} {n m : Int} (nonzero : range.step ≠ 0) (isN : range.IsCount n)
    (isM : range.IsCount m) : n = m := by
  rw [AxisRange.isCount_iff nonzero] at isN isM
  rw [isN, isM]

theorem foldAxis_eq_none {axis : SliceAxis} (nonneg : 0 ≤ dim) (fits : axis.Fits dim) :
    foldAxis dim stride axis = none ↔ axis.Refused dim stride := by
  cases axis with
  | scalar idx =>
    rw [foldAxis, SliceAxis.Refused, ite_eq_left_iff]
    constructor
    · intro raised
      by_contra other
      cases raised other
    · exact fun refused other => absurd refused other
  | slice start stop step =>
    rw [foldAxis, SliceAxis.Refused]
    cases normal : normalSlice dim start stop step with
    | none => exact iff_of_true rfl (.inl ((normalSlice_eq_none dim).mp normal))
    | some range =>
      have allowed := mt (normalSlice_eq_none dim).mpr (by rw [normal]; exact Option.some_ne_none range)
      have on := normalSlice_on nonneg normal
      have isCount := AxisRange.count_of_fits on.nonzero (fits range normal)
      rw [Option.bind_some, ite_eq_left_iff]
      constructor
      · intro raised
        refine .inr ⟨range, range.count, rfl, isCount, ?_⟩
        by_contra other
        cases raised other
      · intro refused
        obtain ⟨range', n, same, isN, several⟩ := refused.resolve_left allowed
        cases same
        rw [isN.unique on.nonzero isCount] at several
        exact fun other => absurd several other

theorem AxisRange.single {range : AxisRange} {n : Int} (nonzero : range.step ≠ 0) (short : range.span ≤ kMaxArrayElems)
    (overflow : ¬ range.Fits) (isCount : range.IsCount n) : n = 1 := by
  rw [Fits, Classical.not_imp] at overflow
  obtain ⟨some_left, large⟩ := overflow
  have cap : kMaxArrayElems = 100000000 := rfl
  rw [isCount_iff nonzero, if_pos some_left] at isCount
  have : range.span + |range.step| - 1 = range.span - 1 + 1 * |range.step| := by ring
  rw [isCount, this, Int.add_mul_ediv_right _ _ (by omega), Int.ediv_eq_zero_of_lt (by omega) (by omega), Int.zero_add]

theorem foldAxis_allowed {axis : SliceAxis} {folded : FoldedAxis} (short : 0 ≤ dim ∧ dim ≤ kMaxArrayElems)
    (done : foldAxis dim stride axis = some folded) : ¬ axis.Refused dim stride := by
  by_cases fits : axis.Fits dim
  · intro refused
    rw [(foldAxis_eq_none short.1 fits).mpr refused] at done
    cases done
  · cases axis with
    | scalar idx => exact absurd trivial fits
    | slice start stop step =>
      obtain ⟨range, normal, -⟩ := Option.bind_eq_some_iff.mp done
      have on := normalSlice_on short.1 normal
      have allowed := mt (normalSlice_eq_none dim).mpr (by rw [normal]; exact Option.some_ne_none range)
      have overflow : ¬ range.Fits := fun fits' => fits fun other same => by
        cases normal.symm.trans same
        exact fits'
      intro refused
      obtain ⟨range', n, same, isN, several, -⟩ := refused.resolve_left allowed
      cases normal.symm.trans same
      rw [AxisRange.single on.nonzero (Int.le_trans on.short short.2) overflow isN] at several
      omega

end Axis

def partDims (parts : List (SliceAxis × Int × Int)) : List (SliceAxis × Int) := parts.map fun part => (part.1, part.2.1)

section Axes
variable {parts : List (SliceAxis × Int × Int)} {kept : List (Int × Int)} {offset : Int}

def Bounded (parts : List (SliceAxis × Int × Int)) : Prop := ∀ part ∈ parts, 0 ≤ part.2.1 ∧ part.2.1 ≤ kMaxArrayElems

theorem AxesFolded.allowed (folded : AxesFolded parts kept offset) (bounded : Bounded parts) :
    ∀ part ∈ parts, ¬ part.1.Refused part.2.1 part.2.2 := by
  induction folded with
  | nil => exact fun _ member => nomatch member
  | cons here _ ih =>
    intro part member
    rcases List.mem_cons.mp member with rfl | later
    · exact foldAxis_allowed (bounded _ (.head _)) here
    · exact ih (fun other inside => bounded other (.tail _ inside)) part later

theorem exists_axesFolded (bounded : Bounded parts) (fits : ∀ part ∈ parts, part.1.Fits part.2.1)
    (allowed : ∀ part ∈ parts, ¬ part.1.Refused part.2.1 part.2.2) : ∃ kept offset, AxesFolded parts kept offset := by
  induction parts with
  | nil => exact ⟨_, _, .nil⟩
  | cons part parts ih =>
    obtain ⟨kept, offset, folded⟩ := ih (fun other inside => bounded other (.tail _ inside))
      (fun other inside => fits other (.tail _ inside)) fun other inside => allowed other (.tail _ inside)
    obtain ⟨here, done⟩ := Option.ne_none_iff_exists'.mp fun none_ =>
      allowed part (.head _) ((foldAxis_eq_none (bounded part (.head _)).1 (fits part (.head _))).mp none_)
    exact ⟨_, _, .cons done folded⟩

theorem AxesFolded.keptDims_iff (folded : AxesFolded parts kept offset) (bounded : Bounded parts) :
    KeptDims (partDims parts) (kept.map (·.1)) ↔ ∀ part ∈ parts, part.1.Fits part.2.1 := by
  induction folded with
  | nil => exact iff_of_true .nil fun _ member => nomatch member
  | @cons axis dim stride folded parts kept offset here _ ih =>
    have ih := ih fun other inside => bounded other (.tail _ inside)
    rw [List.forall_mem_cons, ← ih]
    cases axis with
    | scalar idx =>
      obtain ⟨-, same⟩ := Option.ite_none_left_eq_some.mp here
      cases same
      constructor
      · intro all
        cases all with
        | scalar rest => exact ⟨trivial, rest⟩
      · exact fun ⟨_, rest⟩ => .scalar rest
    | slice start stop step =>
      obtain ⟨range, normal, done⟩ := Option.bind_eq_some_iff.mp here
      obtain ⟨-, same⟩ := Option.ite_none_left_eq_some.mp done
      cases same
      obtain ⟨nonneg, small⟩ := bounded _ (.head _)
      have on := normalSlice_on nonneg normal
      constructor
      · intro all
        cases all with
        | slice normal' isCount rest =>
          cases normal.symm.trans normal'
          refine ⟨fun other same => ?_, rest⟩
          cases normal.symm.trans same
          by_contra overflow
          have short : range.span ≤ kMaxArrayElems := Int.le_trans on.short small
          have one : range.count = 1 := AxisRange.single on.nonzero short overflow isCount
          have := AxisRange.count_nonpos (Int.lt_of_le_of_lt short (by decide)) on.small overflow
          omega
      · exact fun ⟨fits, rest⟩ => .slice normal (AxisRange.count_of_fits on.nonzero (fits range normal)) rest

theorem AxesFolded.address (folded : AxesFolded parts kept offset) (bounded : Bounded parts)
    (fits : ∀ part ∈ parts, part.1.Fits part.2.1) {coords : List Int} (inRange : InRange coords (kept.map (·.1))) :
    InRange (baseCoords (partDims parts) coords) (parts.map (·.2.1)) ∧
      dot (baseCoords (partDims parts) coords) (parts.map (·.2.2)) = offset + dot coords (kept.map (·.2)) := by
  induction folded generalizing coords with
  | nil =>
    cases inRange
    exact ⟨.nil, by simp [dot]⟩
  | @cons axis dim stride folded parts kept offset here _ ih =>
    have ih := @ih (fun other inside => bounded other (.tail _ inside)) fun other inside => fits other (.tail _ inside)
    cases axis with
    | scalar idx =>
      obtain ⟨inside, same⟩ := Option.ite_none_left_eq_some.mp here
      cases same
      obtain ⟨below, sum⟩ := ih inRange
      refine ⟨.cons (by dsimp only; omega) below, ?_⟩
      change dot (idx.toInt :: baseCoords (partDims parts) coords) (stride :: parts.map (·.2.2)) = _
      rw [dot_cons, sum, Int.add_assoc]
      rfl
    | slice start stop step =>
      obtain ⟨range, normal, done⟩ := Option.bind_eq_some_iff.mp here
      obtain ⟨large, same⟩ := Option.ite_none_left_eq_some.mp done
      cases same
      obtain ⟨nonneg, small⟩ := bounded _ (.head _)
      have on := normalSlice_on nonneg normal
      have isCount := AxisRange.count_of_fits on.nonzero (fits _ (.head _) range normal)
      obtain ⟨c, coords, head, tail, rfl⟩ := List.forall₂_cons_right_iff.mp inRange
      obtain ⟨below, sum⟩ := ih tail
      dsimp only at head
      have inside := on.inside c.toNat ((isCount.2 c.toNat).mp (by rw [Int.toNat_of_nonneg head.1]; exact head.2))
      rw [Int.toNat_of_nonneg head.1] at inside
      have coord : baseCoords (partDims ((.slice start stop step, dim, stride) :: parts)) (c :: coords) =
          (range.first + c * range.step) :: baseCoords (partDims parts) coords := by
        change ((normalSlice dim start stop step).elim 0 fun range => range.first + c * range.step) :: _ = _
        rw [normal]
        rfl
      rw [coord]
      refine ⟨.cons inside below, ?_⟩
      change dot ((range.first + c * range.step) :: baseCoords (partDims parts) coords) (stride :: parts.map (·.2.2)) =
        range.first * stride + offset + dot (c :: coords) (sliceAxisStride (stride * range.step) :: kept.map (·.2))
      have product : c * range.step * stride = c * sliceAxisStride (stride * range.step) := by
        rw [sliceAxisStride]
        split
        · ring
        · rename_i wide
          have few : ¬ 1 < range.count := fun several => large ⟨several, by simpa using wide⟩
          have zero : c = 0 := by omega
          rw [zero, zero_mul, zero_mul, zero_mul]
      rw [dot_cons, dot_cons, sum, ← product]
      ring

theorem AxesFolded.validate (folded : AxesFolded parts kept offset) (bounded : Bounded parts)
    (fits : ∀ part ∈ parts, part.1.Fits part.2.1) {size : Int} (valid : validateArrayDims (parts.map (·.2.1)) = some size) :
    ∃ keptSize, validateArrayDims (kept.map (·.1)) = some keptSize := by
  have general : ∀ start start' size, 0 ≤ start' → start' ≤ start → (parts.map (·.2.1)).foldlM (fun elemCount dim =>
      if dim < 0 ∨ kMaxArrayElems < dim ∨ kMaxArrayElems < elemCount * dim then none else some (elemCount * dim)) start = some size →
      ∃ keptSize, (kept.map (·.1)).foldlM (fun elemCount dim =>
        if dim < 0 ∨ kMaxArrayElems < dim ∨ kMaxArrayElems < elemCount * dim then none else some (elemCount * dim)) start' =
        some keptSize := by
    clear valid size
    induction folded with
    | nil => exact fun _ _ _ _ _ _ => ⟨_, rfl⟩
    | @cons axis dim stride folded parts kept offset here _ ih =>
      intro start start' size nonneg less passed
      have ih := ih (fun other inside => bounded other (.tail _ inside)) fun other inside => fits other (.tail _ inside)
      obtain ⟨next, first, rest⟩ := Option.bind_eq_some_iff.mp (List.foldlM_cons.symm.trans passed)
      obtain ⟨small, same⟩ := Option.ite_none_left_eq_some.mp first
      cases same
      cases axis with
      | scalar idx =>
        obtain ⟨inside, same⟩ := Option.ite_none_left_eq_some.mp here
        cases same
        have grown : start ≤ start * dim := le_mul_of_one_le_right (by omega) (by omega)
        exact ih _ start' size nonneg (by dsimp only; omega) rest
      | slice begin_ stop step =>
        obtain ⟨range, normal, done⟩ := Option.bind_eq_some_iff.mp here
        obtain ⟨-, same⟩ := Option.ite_none_left_eq_some.mp done
        cases same
        obtain ⟨dimNonneg, dimSmall⟩ := bounded _ (.head _)
        have on := normalSlice_on dimNonneg normal
        have isCount := AxisRange.count_of_fits on.nonzero (fits _ (.head _) range normal)
        have fewer : range.count ≤ dim := on.count_le dimNonneg isCount
        have product : start' * range.count ≤ start * dim := mul_le_mul less fewer isCount.1 (by omega)
        have positive := Int.mul_nonneg nonneg isCount.1
        obtain ⟨keptSize, done⟩ := ih (start * dim) (start' * range.count) size positive product rest
        refine ⟨keptSize, List.foldlM_cons.trans (Option.bind_eq_some_iff.mpr ⟨start' * range.count, if_neg ?_, done⟩)⟩
        have := isCount.1
        dsimp only at small ⊢
        omega
  exact general 1 1 size (by decide) (Int.le_refl 1) valid

end Axes

variable {tables : TypeTables} {h h' : Heap} {i arrayTypeIdx : Nat} {axes : List SliceAxis}

theorem ArrayValue.baseAddress {slot : Slot} (value : ArrayValue tables h slot) {coords : List Int} (inRange : InRange coords slot.dims) :
    affineAddress slot coords = (baseAxes slot).2 + dot coords (baseAxes slot).1 := by
  rw [affineAddress, baseAxes]
  split
  · rfl
  · obtain ⟨isProd, small, -⟩ := validateArrayDims_eq value.size
    rw [rowMajorStrides_eq inRange (isProd ▸ small), Int.zero_add, dot_rowStrides inRange]

theorem Subscripted.value (sub : Subscripted tables h i arrayTypeIdx axes) (formed : ViewsFormed tables h) :
    ArrayValue tables h (h.slot i) := by
  have isValue := sub.isArray
  rw [isArrayValue, decide_eq_true_eq] at isValue
  rcases isValue with isArray | isView
  · exact .array (formed.arrays i sub.inside.2 isArray)
  · exact .view (formed.views i sub.inside.2 isView).toViewRecord

theorem Subscripted.bounded (sub : Subscripted tables h i arrayTypeIdx axes) (formed : ViewsFormed tables h) :
    Bounded (axisParts (h.slot i) axes) := by
  intro part member
  obtain ⟨-, -, dims⟩ := validateArrayDims_eq (sub.value formed).size
  have inside := List.mem_map_of_mem (f := (·.2.1)) member
  rw [axisParts_dims sub.rank] at inside
  exact dims _ inside

theorem partDims_axisParts (sub : Subscripted tables h i arrayTypeIdx axes) :
    partDims (axisParts (h.slot i) axes) = axes.zip (h.slot i).dims := by
  have both : partDims (axisParts (h.slot i) axes) =
      ((axisParts (h.slot i) axes).map (·.1)).zip ((axisParts (h.slot i) axes).map (·.2.1)) := List.zip_map'.symm
  rw [both, axisParts_dims sub.rank]
  congr 1
  rw [axisParts, ← List.unzip_fst, List.unzip_zip_left]
  rw [List.length_zip, length_baseAxes, Slot.length_dims, sub.rank]
  exact Nat.le_of_eq (Nat.min_self _).symm

theorem AxesFolded.length_kept {parts : List (SliceAxis × Int × Int)} {kept : List (Int × Int)} {offset : Int}
    (folded : AxesFolded parts kept offset) : kept.length = (parts.map (·.1)).countP (·.isSlice) := by
  induction folded with
  | nil => rfl
  | @cons axis dim stride folded parts kept offset here _ ih =>
    rw [List.length_append, ih, List.map_cons]
    cases axis with
    | scalar idx =>
      obtain ⟨-, same⟩ := Option.ite_none_left_eq_some.mp here
      cases same
      rw [List.countP_cons_of_neg (by exact Bool.false_ne_true)]
      exact Nat.zero_add _
    | slice start stop step =>
      obtain ⟨range, -, done⟩ := Option.bind_eq_some_iff.mp here
      obtain ⟨-, same⟩ := Option.ite_none_left_eq_some.mp done
      cases same
      rw [List.countP_cons_of_pos rfl]
      exact Nat.add_comm _ _

theorem ArrayValue.peeled (value : ArrayValue tables h (h.slot i)) :
    (if h.refKind (i : Int) = .arrayView then h.cell (i : Int).toNat (arrayViewTargetCell (h.cell (i : Int).toNat 2).toNat) else (i : Int)) =
      h.ownerOf i := by
  rw [refKind, Int.toNat_natCast, ownerOf]
  cases value with
  | array record => rw [record.kind, if_neg (by decide), if_neg (by decide)]
  | view record =>
    rw [record.kind, if_pos rfl, if_pos rfl, Int.toNat_of_nonneg (Int.le_of_lt record.target.1)]
    rfl

section Made
variable {kept : List (Int × Int)} {offset : Int}

theorem AxesFolded.offset_fits (sub : Subscripted tables h i arrayTypeIdx axes) (formed : ViewsFormed tables h)
    (folded : AxesFolded (axisParts (h.slot i) axes) kept offset)
    (fits : ∀ part ∈ axisParts (h.slot i) axes, part.1.Fits part.2.1) {coords : List Int} (inRange : InRange coords (kept.map (·.1))) :
    int32Cast ((baseAxes (h.slot i)).2 + offset) + dot coords (kept.map (·.2)) =
      affineAddress (h.slot i) (baseCoords (axes.zip (h.slot i).dims) coords) ∧
      InRange (baseCoords (axes.zip (h.slot i).dims) coords) (h.slot i).dims := by
  have value := sub.value formed
  have address {coords : List Int} (inRange : InRange coords (kept.map (·.1))) := folded.address (sub.bounded formed) fits inRange
  rw [axisParts_dims sub.rank, axisParts_strides sub.rank, partDims_axisParts sub] at address
  obtain ⟨first, sum⟩ := address inRange.zeros
  obtain ⟨inside, same⟩ := address inRange
  have start := value.address_range first
  rw [value.baseAddress first, sum, dot_zeros] at start
  obtain ⟨-, owner⟩ := value.owner sub.inside.2
  have small := (validateArrayDims_eq owner.size).2.1
  have cast : int32Cast ((baseAxes (h.slot i)).2 + offset) = (baseAxes (h.slot i)).2 + offset :=
    int32Cast_eq (by omega) (by omega)
  refine ⟨?_, inside⟩
  rw [cast, value.baseAddress inside, same, Int.add_assoc]

theorem Subscripted.length_kept (sub : Subscripted tables h i arrayTypeIdx axes)
    (folded : AxesFolded (axisParts (h.slot i) axes) kept offset) : kept.length = axes.countP (·.isSlice) := by
  rw [folded.length_kept, axisParts, ← List.unzip_fst, List.unzip_zip_left]
  rw [List.length_zip, length_baseAxes, Slot.length_dims, sub.rank]
  exact Nat.le_of_eq (Nat.min_self _).symm

theorem Subscripted.validate (sub : Subscripted tables h i arrayTypeIdx axes) (formed : ViewsFormed tables h)
    (folded : AxesFolded (axisParts (h.slot i) axes) kept offset)
    (fits : ∀ part ∈ axisParts (h.slot i) axes, part.1.Fits part.2.1) :
    ∃ size, validateViewCreation tables h arrayTypeIdx (kept.map (·.1)) (kept.map (·.2))
      (int32Cast ((baseAxes (h.slot i)).2 + offset)) i = some (h.ownerOf i, size) := by
  have value := sub.value formed
  obtain ⟨ownerInside, owner⟩ := value.owner sub.inside.2
  obtain ⟨row, ownerRow, at_row, at_owner, rank, kind, elem⟩ := sub.row
  have baseSize := value.size
  rw [← axisParts_dims sub.rank] at baseSize
  obtain ⟨size, valid⟩ := folded.validate (sub.bounded formed) fits baseSize
  have length : (kept.map (·.1)).length = axes.countP (·.isSlice) := by rw [List.length_map, sub.length_kept folded]
  have some_axis : 0 < axes.countP (·.isSlice) := List.countP_pos_iff.mpr sub.sliced
  have few : axes.countP (·.isSlice) ≤ kMaxArrayRank := by
    have most : (h.slot i).word 2 ≤ kMaxArrayRank := by
      cases value with
      | array record => exact record.rank.2
      | view record => exact record.rank.2
    have := List.countP_le_length (p := (·.isSlice)) (l := axes)
    rw [sub.rank, Slot.rank] at this
    omega
  have ownerPositive : 0 < h.ownerOf i := by
    cases value with
    | array record =>
      rw [ownerOf, record.kind, if_neg (by decide)]
      exact sub.inside.1
    | view record =>
      rw [ownerOf, if_pos record.kind]
      have := record.target.1
      omega
  have ranged (j : Nat) (positive : 0 < j) (below : j < h.size) : h.inRange (j : Int) = true := by
    rw [Heap.inRange, Int.toNat_natCast]
    exact decide_eq_true ⟨by omega, below⟩
  have isArray : h.refKind (h.ownerOf i : Int) = .array := owner.kind
  have covers : 0 < size → 0 ≤ (viewCoverage (kept.map (·.1)) (kept.map (·.2)) (int32Cast ((baseAxes (h.slot i)).2 + offset))).1 ∧
      (viewCoverage (kept.map (·.1)) (kept.map (·.2)) (int32Cast ((baseAxes (h.slot i)).2 + offset))).2 <
        (h.slot (h.ownerOf i)).word 3 := by
    intro occupied
    obtain ⟨isProd, -, dims⟩ := validateArrayDims_eq valid
    have first := inRange_zeros (fun dim member => (dims dim member).1) (by omega)
    rw [viewCoverage_eq]
    obtain ⟨⟨least, inLeast, isLeast⟩, most, inMost, isMost⟩ := spanAxis_attained first (kept.map (·.2)) (by simp)
      (int32Cast ((baseAxes (h.slot i)).2 + offset)) (int32Cast ((baseAxes (h.slot i)).2 + offset))
    obtain ⟨low, insideLow⟩ := AxesFolded.offset_fits sub formed folded fits inLeast
    obtain ⟨high, insideHigh⟩ := AxesFolded.offset_fits sub formed folded fits inMost
    rw [isLeast, isMost, low, high]
    exact ⟨(value.address_range insideLow).1, (value.address_range insideHigh).2⟩
  refine ⟨size, ?_⟩
  rw [validateViewCreation]
  dsimp only
  rw [if_neg, value.peeled, if_neg, Int.toNat_natCast, valid, at_row]
  · have at_word : tables.arrayTypes[(h.cell (h.ownerOf i) 1).toNat]? = some ownerRow := at_owner
    rw [at_word]
    dsimp only
    rw [if_neg (by rw [length]; tauto), if_neg]
    rintro ⟨occupied, outside⟩
    have := covers occupied
    change _ ∨ (h.slot (h.ownerOf i)).word 3 ≤ _ at outside
    omega
  · rw [ranged _ ownerPositive ownerInside, isArray]
    decide
  · have known := (List.getElem?_eq_some_iff.mp at_row).1
    rw [ranged i sub.inside.1 sub.inside.2, length]
    simp only [Bool.true_eq_false, or_false]
    omega

variable {shard quantum j : Nat}

theorem opMakeArrayView_eq (sub : Subscripted tables h i arrayTypeIdx axes) (formed : ViewsFormed tables h) :
    opMakeArrayView tables shard quantum h i arrayTypeIdx axes = (foldSliceAxes (h.slot i) axes).bind fun st =>
      allocViewOnHeap tables shard quantum h arrayTypeIdx (st.axes.reverse.map (·.1)) (st.axes.reverse.map (·.2))
        (int32Cast st.offset) i := by
  have most : 1 ≤ (h.slot i).word 2 ∧ (h.slot i).word 2 ≤ kMaxArrayRank := by
    cases sub.value formed with
    | array record => exact record.rank
    | view record => exact record.rank
  have ranged : h.inRange (i : Int) = true := by
    rw [Heap.inRange, Int.toNat_natCast]
    exact decide_eq_true ⟨by have := sub.inside.1; omega, sub.inside.2⟩
  have rank := sub.rank
  rw [Slot.rank] at rank
  rw [opMakeArrayView, Int.toNat_natCast, if_neg]
  · rfl
  · rw [ranged, sub.isArray]
    simp only [Bool.true_eq_false, false_or, not_or, not_not]
    omega

theorem exists_opMakeArrayView (sub : Subscripted tables h i arrayTypeIdx axes) (formed : ViewsFormed tables h)
    (configured : shard < h.shards.length ∧ 0 < quantum) (fits : ∀ part ∈ axisParts (h.slot i) axes, part.1.Fits part.2.1)
    (folded : AxesFolded (axisParts (h.slot i) axes) kept offset) :
    ∃ j h', opMakeArrayView tables shard quantum h i arrayTypeIdx axes = some (j, h') := by
  have done : foldSliceAxes (h.slot i) axes = some ⟨kept.reverse, (baseAxes (h.slot i)).2 + offset⟩ :=
    foldSliceAxes_iff.mpr ⟨kept, offset, folded, rfl, rfl⟩
  obtain ⟨size, valid⟩ := sub.validate formed folded fits
  obtain ⟨j, g, taken, -⟩ := takeHeapSlot_sound formed.sound configured.1 configured.2
  rw [opMakeArrayView_eq sub formed, done, Option.bind_some, List.reverse_reverse, allocViewOnHeap, valid]
  simp only [bind, Option.bind_some, newRecord, taken, Option.map_some]
  exact ⟨_, _, rfl⟩

theorem opMakeArrayView_folded (sub : Subscripted tables h i arrayTypeIdx axes) (formed : ViewsFormed tables h)
    (made : opMakeArrayView tables shard quantum h i arrayTypeIdx axes = some (j, h')) :
    ∃ kept offset, AxesFolded (axisParts (h.slot i) axes) kept offset ∧
      allocViewOnHeap tables shard quantum h arrayTypeIdx (kept.map (·.1)) (kept.map (·.2))
        (int32Cast ((baseAxes (h.slot i)).2 + offset)) i = some (j, h') := by
  rw [opMakeArrayView_eq sub formed] at made
  obtain ⟨st, folded, made⟩ := Option.bind_eq_some_iff.mp made
  obtain ⟨kept, offset, folded, axesSame, offsetSame⟩ := foldSliceAxes_iff.mp folded
  rw [axesSame, offsetSame, List.reverse_reverse] at made
  exact ⟨kept, offset, folded, made⟩

theorem sliceMeans_of_fits (sub : Subscripted tables h i arrayTypeIdx axes) (formed : ViewsFormed tables h)
    (fits : ∀ part ∈ axisParts (h.slot i) axes, part.1.Fits part.2.1)
    (made : opMakeArrayView tables shard quantum h i arrayTypeIdx axes = some (j, h')) : SliceMeans tables h i axes j h' := by
  have formed' := formed.makeArrayView made
  obtain ⟨kept, offset, folded, alloc⟩ := opMakeArrayView_folded sub formed made
  obtain ⟨size, valid⟩ := sub.validate formed folded fits
  obtain ⟨target, size', valid', keeps, fresh, layout⟩ := allocViewOnHeap_layout formed.sound (by simp) alloc
  cases valid.symm.trans valid'
  have value := sub.value formed
  obtain ⟨ownerInside, owner⟩ := value.owner sub.inside.2
  have keptOwner := keeps.slot _ ownerInside owner.live
  have view : ArrayValue tables h' (h'.slot j) := .view (formed'.views j fresh.inside layout.kind).toViewRecord
  have sameOwner : h'.ownerOf j = h.ownerOf i := by rw [ownerOf, if_pos layout.kind, layout.target, Int.toNat_natCast]
  obtain ⟨row, ownerRow, at_row, at_owner, -, kind, -⟩ := sub.row
  have at_view : tables.arrayTypes[((h'.slot j).word 1).toNat]? = some row := by rw [layout.typeWord, Int.toNat_natCast, at_row]
  obtain ⟨baseRow, at_base, -⟩ := value.elementCells
  have baseKind : baseRow.elemKind = row.elemKind := by
    rw [kind]
    cases value with
    | array record =>
      rw [ownerOf, record.kind, if_neg (by decide), at_base] at at_owner
      cases at_owner
      rfl
    | view record =>
      rw [ownerOf, if_pos record.kind] at at_owner
      obtain ⟨row', ownerRow', at_row', at_owner', same⟩ := record.row
      cases at_base.symm.trans at_row'
      cases at_owner.symm.trans at_owner'
      exact same
  refine ⟨layout.kind, ?_, fun coords inRange => ?_⟩
  · rw [layout.dims, ← partDims_axisParts sub]
    exact (folded.keptDims_iff (sub.bounded formed)).mpr fits
  · have inKept : InRange coords (kept.map (·.1)) := layout.dims ▸ inRange
    obtain ⟨address, inside⟩ := folded.offset_fits sub formed fits inKept
    have same : affineAddress (h'.slot j) coords = affineAddress (h.slot i) (baseCoords (axes.zip (h.slot i).dims) coords) := by
      rw [← address, affineAddress, if_pos layout.kind, layout.offset, layout.strides]
    have place : h'.elementPlace j row coords = h.elementPlace i baseRow (baseCoords (axes.zip (h.slot i).dims) coords) := by
      rw [elementPlace, elementPlace, sameOwner, keptOwner, same, baseKind]
    refine ⟨inside, _, (value.places sub.inside inside at_base).1, ?_, ?_⟩
    · rw [(view.places ⟨fresh.positive, fresh.inside⟩ inRange at_view).1, place]
    · refine readPlace_congr rfl fun c _ => ?_
      rw [Heap.cell, Heap.cell]
      change (h'.slot (h.ownerOf i)).cells.getD _ 0 = (h.slot (h.ownerOf i)).cells.getD _ 0
      rw [keptOwner]

end Made

/-- A slice subscript means what it says unless a sum of the counts overflows and nothing else is wrong with it. -/
theorem subscriptMeans_iff {tables : TypeTables} {shard quantum : Nat} {h : Heap} {i arrayTypeIdx : Nat} {axes : List SliceAxis}
    (formed : ViewsFormed tables h) (configured : shard < h.shards.length ∧ 0 < quantum)
    (sub : Subscripted tables h i arrayTypeIdx axes) :
    SubscriptMeans tables shard quantum h i arrayTypeIdx axes ↔
      (∃ part ∈ axisParts (h.slot i) axes, part.1.Refused part.2.1 part.2.2) ∨
      ∀ part ∈ axisParts (h.slot i) axes, part.1.Fits part.2.1 := by
  have bounded := sub.bounded formed
  rw [SubscriptMeans]
  cases made : opMakeArrayView tables shard quantum h i arrayTypeIdx axes with
  | none =>
    refine ⟨.inl, fun either => either.elim id fun fits => ?_⟩
    by_contra allowed
    obtain ⟨kept, offset, folded⟩ := exists_axesFolded bounded fits fun part member refused => allowed ⟨part, member, refused⟩
    obtain ⟨j, h', some_⟩ := exists_opMakeArrayView sub formed configured fits folded
    rw [made] at some_
    cases some_
  | some result =>
    obtain ⟨j, h'⟩ := result
    obtain ⟨kept, offset, folded, alloc⟩ := opMakeArrayView_folded sub formed made
    have allowed : ¬ ∃ part ∈ axisParts (h.slot i) axes, part.1.Refused part.2.1 part.2.2 :=
      fun ⟨part, member, refused⟩ => folded.allowed bounded part member refused
    constructor
    · intro means
      obtain ⟨_, _, -, -, -, layout⟩ := allocViewOnHeap_layout formed.sound (by simp) alloc
      have dims := means.dims
      rw [layout.dims, ← partDims_axisParts sub, folded.keptDims_iff bounded] at dims
      exact .inr dims
    · exact fun either => sliceMeans_of_fits sub formed (either.resolve_left allowed) made

def fiveIntegers : List ViewAction := [.allocArray 0 1 [5]]

theorem fiveIntegers_formed : ∃ h, fiveIntegers.foldlM (ViewAction.step pointArrays 4) (Heap.init 0 fun _ => {}) = some h ∧
    ViewsFormed pointArrays h ∧ 0 < h.shards.length ∧ (∀ start stop step, Subscripted pointArrays h 1 1 [.slice start stop step]) ∧
    (opMakeArrayView pointArrays 0 4 h (1 : Nat) 1 [.slice none none (some 2147483647)]).map (fun made => (made.2.slot made.1).dims) =
      some [0] ∧ (h.slot 1).dims = [5] := by
  refine ⟨_, rfl, ?_, by decide, fun start stop step => ⟨by decide, rfl, rfl, ⟨_, .head _, rfl⟩, _, _, rfl, rfl, rfl, rfl, rfl⟩, rfl, rfl⟩
  have met : ∀ action ∈ fiveIntegers, ∀ h, ViewAction.Meets pointArrays h action := by simp [fiveIntegers, ViewAction.Meets]
  have run := Run.refl.actions met
    (show fiveIntegers.foldlM (ViewAction.step pointArrays 4) (Heap.init 0 fun _ => {}) = some _ from rfl)
  exact run.invariant (ViewsFormed pointArrays) (ViewAction.init_formed _ _) ViewAction.step_formed

theorem everySecond_means_iff : ∃ h, fiveIntegers.foldlM (ViewAction.step pointArrays 4) (Heap.init 0 fun _ => {}) = some h ∧
    (SubscriptMeans pointArrays 0 4 h 1 1 [.slice none none (some 2)] ↔
      (∃ part ∈ axisParts (h.slot 1) [.slice none none (some 2)], part.1.Refused part.2.1 part.2.2) ∨
      ∀ part ∈ axisParts (h.slot 1) [.slice none none (some 2)], part.1.Fits part.2.1) := by
  obtain ⟨h, made, formed, configured, sub, -⟩ := fiveIntegers_formed
  exact ⟨h, made, subscriptMeans_iff formed ⟨configured, by decide⟩ (sub none none (some 2))⟩

theorem longStep_loses_element :
    ¬ ∀ (tables : TypeTables) (shard quantum : Nat) (h : Heap) (i arrayTypeIdx : Nat) (axes : List SliceAxis),
      ViewsFormed tables h → shard < h.shards.length ∧ 0 < quantum → Subscripted tables h i arrayTypeIdx axes →
      SubscriptMeans tables shard quantum h i arrayTypeIdx axes := by
  intro claim
  obtain ⟨h, -, formed, configured, sub, view, five⟩ := fiveIntegers_formed
  have means := claim pointArrays 0 4 h 1 1 [.slice none none (some 2147483647)] formed ⟨configured, by decide⟩ (sub _ _ _)
  obtain ⟨⟨j, h'⟩, made, empty⟩ := Option.map_eq_some_iff.mp view
  rw [SubscriptMeans, made] at means
  have dims := means.dims
  rw [empty, five] at dims
  cases dims with
  | slice normal isCount _ =>
    cases normal
    exact absurd ((isCount.2 0).mpr (by decide)) (by decide)

end NLang.Vm.Heap
