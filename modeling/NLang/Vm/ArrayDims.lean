import NLang.Vm.Slices

/-!
# Dimensions that are accepted

`ValidateArrayDims` goes through the dimensions from the first to the last and the strides are made from the last to the
first, so a dimension that is zero hides one part of the list from the gate and another part from the strides.
-/

namespace NLang.Vm
open NLang.Library.RowMajor

def occupiedProd (dims : List Int) : Int := (dims.filter (· ≠ 0)).prod

section Occupied
variable {dims : List Int}

@[simp] theorem occupiedProd_nil : occupiedProd [] = 1 := rfl

theorem occupiedProd_zero (dims : List Int) : occupiedProd (0 :: dims) = occupiedProd dims := rfl

theorem occupiedProd_cons {dim : Int} (nonzero : dim ≠ 0) (dims : List Int) :
    occupiedProd (dim :: dims) = dim * occupiedProd dims := by
  rw [occupiedProd, List.filter_cons_of_pos (by simpa using nonzero), List.prod_cons, occupiedProd]

theorem occupiedProd_perm {other : List Int} (same : dims.Perm other) : occupiedProd dims = occupiedProd other :=
  (same.filter _).prod_eq

theorem occupiedProd_eq (occupied : 0 ∉ dims) : occupiedProd dims = dims.prod := by
  rw [occupiedProd, List.filter_eq_self.mpr fun dim member => by simpa using ne_of_mem_of_not_mem member occupied]

theorem occupiedProd_pos (nonneg : ∀ dim ∈ dims, 0 ≤ dim) : 0 < occupiedProd dims := by
  refine List.prod_pos fun dim member => ?_
  obtain ⟨inside, nonzero⟩ := List.mem_filter.mp member
  have := nonneg dim inside
  have : dim ≠ 0 := by simpa using nonzero
  omega

theorem prod_le_occupiedProd (nonneg : ∀ dim ∈ dims, 0 ≤ dim) : 0 ≤ dims.prod ∧ dims.prod ≤ occupiedProd dims := by
  by_cases empty : 0 ∈ dims
  · rw [List.prod_eq_zero empty]
    exact ⟨Int.le_refl 0, Int.le_of_lt (occupiedProd_pos nonneg)⟩
  · rw [← occupiedProd_eq empty]
    exact ⟨Int.le_of_lt (occupiedProd_pos nonneg), Int.le_refl _⟩

theorem occupiedProd_tail_le {dim : Int} (nonneg : ∀ other ∈ dim :: dims, 0 ≤ other) :
    occupiedProd dims ≤ occupiedProd (dim :: dims) := by
  have first := nonneg dim (.head _)
  by_cases zero : dim = 0
  · rw [zero, occupiedProd_zero]
  · have positive := occupiedProd_pos fun other member => nonneg other (.tail _ member)
    rw [occupiedProd_cons zero]
    exact le_mul_of_one_le_left (Int.le_of_lt positive) (by omega)

end Occupied

theorem validateArrayDims_append {front back : List Int} {size : Int} (valid : validateArrayDims (front ++ back) = some size) :
    ∃ partSize, validateArrayDims front = some partSize := by
  rw [validateArrayDims, List.foldlM_append] at valid
  obtain ⟨partSize, first, -⟩ := Option.bind_eq_some_iff.mp valid
  exact ⟨partSize, first⟩

theorem validateArrayDims_of_occupied {dims : List Int} (nonneg : ∀ dim ∈ dims, 0 ≤ dim)
    (small : occupiedProd dims ≤ kMaxArrayElems) : (validateArrayDims dims).isSome = true := by
  have general : ∀ start, start * occupiedProd dims ≤ kMaxArrayElems → 0 ≤ start →
      (dims.foldlM (fun elemCount dim =>
        if dim < 0 ∨ kMaxArrayElems < dim ∨ kMaxArrayElems < elemCount * dim then none
        else some (elemCount * dim)) start).isSome = true := by
    induction dims with
    | nil => exact fun _ _ _ => rfl
    | cons dim dims ih =>
      intro start within positive
      have first := nonneg dim (.head _)
      have rest := fun other member => nonneg other (.tail dim member)
      have tailPos := occupiedProd_pos rest
      have tailSmall := Int.le_trans (occupiedProd_tail_le nonneg) small
      have cap : (0 : Int) < kMaxArrayElems := by decide
      rw [List.foldlM_cons]
      by_cases zero : dim = 0
      · rw [zero, mul_zero, if_neg (by omega)]
        exact ih rest tailSmall 0 (by omega) (Int.le_refl 0)
      · rw [occupiedProd_cons zero] at within small
        rw [← mul_assoc] at within
        have dimSmall : dim ≤ dim * occupiedProd dims := le_mul_of_one_le_right first (by omega)
        have nextNonneg : 0 ≤ start * dim := Int.mul_nonneg positive first
        have nextSmall : start * dim ≤ start * dim * occupiedProd dims := le_mul_of_one_le_right nextNonneg (by omega)
        rw [if_neg (by omega)]
        exact ih rest tailSmall (start * dim) within nextNonneg
  exact general 1 (by omega) Int.one_nonneg

theorem occupied_of_validateArrayDims {dims : List Int}
    (valid : ∀ other, dims.Perm other → (validateArrayDims other).isSome = true) : occupiedProd dims ≤ kMaxArrayElems := by
  have sorted := (List.filter_append_perm (fun dim : Int => decide (dim ≠ 0)) dims).symm
  obtain ⟨size, passed⟩ := Option.isSome_iff_exists.mp (valid _ sorted)
  obtain ⟨partSize, front⟩ := validateArrayDims_append passed
  obtain ⟨isProd, within, -⟩ := validateArrayDims_eq front
  rw [occupiedProd, ← isProd]
  exact within

theorem rowMajorStrides_of_occupied {dims : List Int} (nonneg : ∀ dim ∈ dims, 0 ≤ dim)
    (small : occupiedProd dims ≤ kMaxArrayElems) : rowMajorStrides dims = (rowStrides dims, dims.prod) := by
  induction dims with
  | nil => rfl
  | cons dim dims ih =>
    have rest := ih (fun other member => nonneg other (.tail _ member)) (Int.le_trans (occupiedProd_tail_le nonneg) small)
    obtain ⟨prodNonneg, prodSmall⟩ := prod_le_occupiedProd nonneg
    rw [rowMajorStrides] at rest ⊢
    rw [List.foldr_cons, rest, rowStrides]
    dsimp only
    rw [mul_comm dims.prod, ← List.prod_cons, int32Cast_eq prodNonneg (Int.le_trans prodSmall small)]

theorem rowStrides_fit {dims : List Int} (nonneg : ∀ dim ∈ dims, 0 ≤ dim) (small : occupiedProd dims ≤ kMaxArrayElems) :
    ∀ stride ∈ rowStrides dims, Heap.fitsInt32 stride = true := by
  induction dims with
  | nil => exact fun _ member => nomatch member
  | cons dim dims ih =>
    have rest := fun other member => nonneg other (.tail dim member)
    have tailSmall := Int.le_trans (occupiedProd_tail_le nonneg) small
    have cap : kMaxArrayElems = 100000000 := rfl
    intro stride member
    rcases List.mem_cons.mp member with rfl | member
    · have := prod_le_occupiedProd rest
      rw [Heap.fitsInt32, decide_eq_true_eq]
      omega
    · exact ih rest tailSmall stride member

structure DimsExact (dims : List Int) : Prop where
  accepts : (validateArrayDims dims).isSome = true ↔ (∀ dim ∈ dims, 0 ≤ dim) ∧ dims.prod ≤ kMaxArrayElems
  anyOrder : ∀ other, dims.Perm other → (validateArrayDims other).isSome = (validateArrayDims dims).isSome
  strides : (validateArrayDims dims).isSome = true →
    (rowMajorStrides dims).1 = rowStrides dims ∧ ∀ stride ∈ rowStrides dims, Heap.fitsInt32 stride = true

theorem validateArrayDims_nonneg {dims : List Int} (valid : (validateArrayDims dims).isSome = true) : ∀ dim ∈ dims, 0 ≤ dim := by
  obtain ⟨size, passed⟩ := Option.isSome_iff_exists.mp valid
  exact fun dim member => ((validateArrayDims_eq passed).2.2 dim member).1

theorem dimsExact_of_refused {dims : List Int} (refused : ∀ other, dims.Perm other → ¬ (validateArrayDims other).isSome = true)
    (outside : ¬ ((∀ dim ∈ dims, 0 ≤ dim) ∧ dims.prod ≤ kMaxArrayElems)) : DimsExact dims where
  accepts := iff_of_false (refused dims (.refl _)) outside
  anyOrder other same := (Bool.not_eq_true _ ▸ refused other same).trans (Bool.not_eq_true _ ▸ refused dims (.refl _)).symm
  strides valid := absurd valid (refused dims (.refl _))

theorem dimsExact_of_negative {dims : List Int} {dim : Int} (member : dim ∈ dims) (negative : dim < 0) : DimsExact dims := by
  refine dimsExact_of_refused (fun other same valid => ?_) fun ⟨nonneg, _⟩ => absurd (nonneg dim member) (Int.not_le.mpr negative)
  exact absurd (validateArrayDims_nonneg valid dim (same.mem_iff.mp member)) (Int.not_le.mpr negative)

theorem dimsExact_of_occupied {dims : List Int} (nonneg : ∀ dim ∈ dims, 0 ≤ dim) (small : occupiedProd dims ≤ kMaxArrayElems) :
    DimsExact dims := by
  have accepted (other : List Int) (same : dims.Perm other) : (validateArrayDims other).isSome = true :=
    validateArrayDims_of_occupied (fun dim member => nonneg dim (same.mem_iff.mpr member)) (occupiedProd_perm same ▸ small)
  have here := accepted dims (.refl _)
  exact ⟨⟨fun _ => ⟨nonneg, Int.le_trans (prod_le_occupiedProd nonneg).2 small⟩, fun _ => here⟩,
    fun other same => by rw [here, accepted other same],
    fun _ => ⟨by rw [rowMajorStrides_of_occupied nonneg small], rowStrides_fit nonneg small⟩⟩

theorem dimsExact_of_large {dims : List Int} (occupied : 0 ∉ dims) (large : kMaxArrayElems < occupiedProd dims) :
    DimsExact dims := by
  rw [occupiedProd_eq occupied] at large
  refine dimsExact_of_refused (fun other same valid => ?_) fun ⟨_, within⟩ => absurd within (Int.not_le.mpr large)
  obtain ⟨size, passed⟩ := Option.isSome_iff_exists.mp valid
  obtain ⟨isProd, within, -⟩ := validateArrayDims_eq passed
  rw [same.prod_eq, ← isProd] at large
  omega

/-- The gate and the strides are exact unless a zero stands beside dimensions whose product is above the cap. -/
theorem dimsExact_iff (dims : List Int32) : DimsExact (dims.map (·.toInt)) ↔
    (∃ dim ∈ dims, dim.toInt < 0) ∨ 0 ∉ dims.map (·.toInt) ∨ occupiedProd (dims.map (·.toInt)) ≤ kMaxArrayElems := by
  constructor
  · intro exact
    by_cases empty : 0 ∈ dims.map (·.toInt)
    · by_cases nonneg : ∀ dim ∈ dims.map (·.toInt), 0 ≤ dim
      · have cap : (0 : Int) ≤ kMaxArrayElems := by decide
        have here := exact.accepts.mpr ⟨nonneg, by rw [List.prod_eq_zero empty]; exact cap⟩
        exact .inr (.inr (occupied_of_validateArrayDims fun other same => by rw [exact.anyOrder other same, here]))
      · obtain ⟨_, member, negative⟩ := not_forall₂.mp nonneg
        obtain ⟨dim, inside, rfl⟩ := List.mem_map.mp member
        exact .inl ⟨dim, inside, Int.not_le.mp negative⟩
    · exact .inr (.inl empty)
  · rintro (⟨dim, member, negative⟩ | rest)
    · exact dimsExact_of_negative (List.mem_map_of_mem member) negative
    · by_cases nonneg : ∀ dim ∈ dims.map (·.toInt), 0 ≤ dim
      · by_cases small : occupiedProd (dims.map (·.toInt)) ≤ kMaxArrayElems
        · exact dimsExact_of_occupied nonneg small
        · exact dimsExact_of_large (rest.resolve_right small) (Int.not_le.mp small)
      · obtain ⟨_, member, negative⟩ := not_forall₂.mp nonneg
        exact dimsExact_of_negative member (Int.not_le.mp negative)

theorem hiddenProduct_not_exact : ¬ ∀ dims : List Int32, DimsExact (dims.map (·.toInt)) := by
  intro claim
  have strides := ((claim [0, 100000000, 100000000]).strides rfl).1
  exact absurd strides (by decide)

end NLang.Vm
