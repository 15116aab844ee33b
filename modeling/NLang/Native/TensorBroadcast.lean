import NLang.Library.Odometer
import NLang.Library.Terms
import NLang.Vm.ArrayAccess

/-!
# Elementwise kernels

`BroadcastShapes`, `BroadcastStrides` and `StrideWalk` of `TensorKernels.h`, and `BinaryKernel` of `tensor_binary.cpp` for any
element type. The cells of an operand are a function of the element address.
-/

namespace NLang.Native
open NLang.Library NLang.Vm NLang.Library.RowMajor NLang.Library.Odometer

/-- The dimensions of an operand under the axes of the result. -/
def padDims (rank : Nat) (v : NativeArrayView) : List Int := List.replicate (rank - v.rank) 1 ++ v.dims

def broadcastShapes (a b : NativeArrayView) : Option (List Int) :=
  let rank := max a.rank b.rank
  ((padDims rank a).zip (padDims rank b)).mapM fun (ad, bd) =>
    if ad ≠ bd ∧ ad ≠ 1 ∧ bd ≠ 1 then none else some (max ad bd)

/-- An axis of one element addresses with stride 0, and has one coordinate. -/
def repeated (dim x : Int) : Int := if dim = 1 then 0 else x

def broadcastStrides (v : NativeArrayView) (outRank : Nat) : List Int :=
  List.replicate (outRank - v.rank) 0 ++ List.zipWith repeated v.dims v.strides

def denseStrides (dims : List Int) : List Int :=
  (dims.foldr (fun dim (out, acc) => (int32Cast acc :: out, acc * dim)) ([], 1)).1

/-- Nothing is an exception: of the kinds, of the shapes, or of `ApplyBin` at an element. -/
def binaryKernel {T : Type} (kind : Rtk) (applyBin : T → T → Option T) (cellsA cellsB : Int → T) (a b : NativeArrayView) :
    Option (List Int × List T) := do
  guard (a.elemKind = b.elemKind)
  guard (a.elemKind = kind)
  let dims ← broadcastShapes a b
  let axes := dims.zip ((broadcastStrides a dims.length).zip (broadcastStrides b dims.length))
  let out ← (walk axes dims.prod.toNat (origin axes) (a.offset, b.offset)).mapM fun (addA, addB) =>
    applyBin (cellsA addA) (cellsB addB)
  some (dims, out)

structure WellShaped (v : NativeArrayView) : Prop where
  dims : v.dims.length = v.rank
  strides : v.strides.length = v.rank
  nonneg : ∀ dim ∈ v.dims, 0 ≤ dim

/-- The element of an operand that goes into an element of the result. -/
def sourceCoords (v : NativeArrayView) (coords : List Int) : List Int :=
  List.zipWith repeated v.dims (coords.drop (coords.length - v.rank))

theorem dot_pad (n : Nat) (coords strides : List Int) :
    dot coords (List.replicate n 0 ++ strides) = dot (coords.drop n) strides := by
  induction n generalizing coords with
  | zero => rfl
  | succ n ih =>
    cases coords with
    | nil => simp
    | cons c coords =>
      rw [List.replicate_succ, List.cons_append, dot_cons, ih, List.drop_succ_cons, mul_zero, zero_add]

theorem dot_unit (coords dims strides : List Int) :
    dot coords (List.zipWith repeated dims strides) =
      dot (List.zipWith repeated dims coords) strides := by
  induction coords generalizing dims strides with
  | nil => simp
  | cons c coords ih =>
    cases dims with
    | nil => simp [dot]
    | cons dim dims =>
      cases strides with
      | nil => simp [dot]
      | cons stride strides =>
        simp only [List.zipWith_cons_cons, dot_cons, ih, repeated]
        split
        · rw [mul_zero, zero_mul]
        · rfl

theorem dot_broadcastStrides (v : NativeArrayView) {coords : List Int} {outRank : Nat} (length : coords.length = outRank) :
    dot coords (broadcastStrides v outRank) = dot (sourceCoords v coords) v.strides := by
  rw [broadcastStrides, dot_pad, dot_unit, sourceCoords, length]

theorem length_broadcastStrides {v : NativeArrayView} (shaped : WellShaped v) {outRank : Nat} (fits : v.rank ≤ outRank) :
    (broadcastStrides v outRank).length = outRank := by
  rw [broadcastStrides, List.length_append, List.length_replicate, List.length_zipWith, shaped.dims, shaped.strides,
    Nat.min_self, Nat.sub_add_cancel fits]

theorem shift_zip (coords : List Int) {left right : List Int} (same : left.length = right.length) :
    shift coords (left.zip right) = (dot coords left, dot coords right) := by
  induction coords generalizing left right with
  | nil =>
    rw [shift_nil, dot_nil, dot_nil]
    rfl
  | cons c coords ih =>
    cases left with
    | nil =>
      cases right with
      | nil => rfl
      | cons _ _ => cases same
    | cons l left =>
      cases right with
      | nil => cases same
      | cons r right =>
        rw [List.zip_cons_cons, shift_cons, ih (Nat.succ.inj same), dot_cons, dot_cons]
        rfl

/-- An axis of an operand under the axis of the result. -/
def Stretches (dim out : Int) : Prop := dim = 1 ∨ dim = out ∨ dim = 0

theorem stretches_of_zip {as bs dims : List Int} (same : as.length = bs.length) (left : ∀ d ∈ as, 0 ≤ d) (right : ∀ d ∈ bs, 0 ≤ d)
    (each : List.Forall₂ (fun (pair : Int × Int) dim =>
      (if pair.1 ≠ pair.2 ∧ pair.1 ≠ 1 ∧ pair.2 ≠ 1 then none else some (max pair.1 pair.2)) = some dim) (as.zip bs) dims) :
    List.Forall₂ Stretches as dims ∧ List.Forall₂ Stretches bs dims ∧ ∀ d ∈ dims, 0 ≤ d := by
  induction as generalizing bs dims with
  | nil =>
    cases bs with
    | nil =>
      cases each
      exact ⟨.nil, .nil, by simp⟩
    | cons _ _ => cases same
  | cons d as ih =>
    cases bs with
    | nil => cases same
    | cons e bs =>
      rw [List.zip_cons_cons] at each
      obtain _ | ⟨first, rest⟩ := each
      obtain ⟨lefts, rights, nonneg⟩ := ih (Nat.succ.inj same) (fun _ mem => left _ (.tail _ mem)) (fun _ mem => right _ (.tail _ mem)) rest
      have d0 := left d (.head _)
      have e0 := right e (.head _)
      dsimp only at first
      split at first
      · cases first
      · cases first
        refine ⟨.cons (show _ ∨ _ by omega) lefts, .cons (show _ ∨ _ by omega) rights, List.forall_mem_cons.mpr ⟨?_, nonneg⟩⟩
        omega

theorem broadcast_stretches {a b : NativeArrayView} {dims : List Int} (shapes : broadcastShapes a b = some dims)
    (left : WellShaped a) (right : WellShaped b) : dims.length = max a.rank b.rank ∧
      List.Forall₂ Stretches (padDims dims.length a) dims ∧ List.Forall₂ Stretches (padDims dims.length b) dims ∧
      ∀ d ∈ dims, 0 ≤ d := by
  have pad {v : NativeArrayView} (shaped : WellShaped v) (below : v.rank ≤ max a.rank b.rank) :
      (padDims (max a.rank b.rank) v).length = max a.rank b.rank ∧ ∀ d ∈ padDims (max a.rank b.rank) v, 0 ≤ d := by
    constructor
    · rw [padDims, List.length_append, List.length_replicate, shaped.dims]
      omega
    · intro d mem
      rcases List.mem_append.mp mem with lead | axis
      · rw [List.eq_of_mem_replicate lead]
        exact Int.one_nonneg
      · exact shaped.nonneg d axis
  obtain ⟨lengthA, nonnegA⟩ := pad left (Nat.le_max_left _ _)
  obtain ⟨lengthB, nonnegB⟩ := pad right (Nat.le_max_right _ _)
  obtain ⟨lefts, rights, nonneg⟩ := stretches_of_zip (lengthA.trans lengthB.symm) nonnegA nonnegB
    (mapM_eq_some.mp shapes)
  have rank := lefts.length_eq.symm.trans lengthA
  rw [rank]
  exact ⟨rfl, lefts, rights, nonneg⟩

theorem source_inRange {dims outs coords : List Int} (stretches : List.Forall₂ Stretches dims outs)
    (inRange : InRange coords outs) (occupied : 0 ∉ dims) :
    InRange (List.zipWith repeated dims coords) dims := by
  induction stretches generalizing coords with
  | nil => exact .nil
  | @cons dim out dims outs axis rest ih =>
    obtain _ | ⟨bound, tail⟩ := inRange
    obtain ⟨first, later⟩ := not_or.mp (mt List.mem_cons.mpr occupied)
    refine .cons ?_ (ih tail later)
    unfold repeated
    obtain unit | equal | zero := axis
    · rw [if_pos unit, unit]
      decide
    · subst equal
      split
      · next unit =>
        rw [unit]
        decide
      · exact bound
    · exact absurd zero.symm first

theorem padDims_drop {v : NativeArrayView} {rank : Nat} : (padDims rank v).drop (rank - v.rank) = v.dims := by
  rw [padDims, List.drop_left' List.length_replicate]

theorem operand_inRange {v : NativeArrayView} {outs coords : List Int} (stretches : List.Forall₂ Stretches (padDims outs.length v) outs)
    (inRange : InRange coords outs) (occupied : 0 ∉ v.dims) : InRange (sourceCoords v coords) v.dims := by
  rw [sourceCoords, inRange.length_eq]
  apply source_inRange _ (List.forall₂_drop _ inRange) occupied
  exact padDims_drop ▸ List.forall₂_drop (outs.length - v.rank) stretches

/-- The reads of an elementwise kernel stay inside the operands just where its result is empty or no operand is: an axis of 0
and an axis of 1 make an axis of 1. -/
theorem broadcast_inRange_iff {a b : NativeArrayView} {dims : List Int} (shapes : broadcastShapes a b = some dims)
    (left : WellShaped a) (right : WellShaped b) :
    (∀ coords, InRange coords dims → InRange (sourceCoords a coords) a.dims ∧ InRange (sourceCoords b coords) b.dims) ↔
      0 ∈ dims ∨ 0 ∉ a.dims ∧ 0 ∉ b.dims := by
  obtain ⟨-, lefts, rights, nonneg⟩ := broadcast_stretches shapes left right
  constructor
  · intro reads
    by_contra empty
    obtain ⟨occupied, some_⟩ := not_or.mp empty
    obtain ⟨first, second⟩ := reads _ (inRange_zeros nonneg (List.prod_ne_zero occupied))
    have positive {v : List Int} {coords : List Int} (inRange : InRange coords v) : 0 ∉ v :=
      fun zero => absurd (prod_pos inRange) (by rw [List.prod_eq_zero zero]; exact Int.lt_irrefl 0)
    exact some_ ⟨positive first, positive second⟩
  · rintro (empty | ⟨someA, someB⟩) coords inRange
    · exact absurd (prod_pos inRange) (by rw [List.prod_eq_zero empty]; exact Int.lt_irrefl 0)
    · exact ⟨operand_inRange lefts inRange someA, operand_inRange rights inRange someB⟩

/-- A dense `int` array. -/
def dense (dims : List Int) : NativeArrayView :=
  ⟨dims.length, dims, denseStrides dims, dims.prod, .int32, 4, 0, 0, 0⟩

theorem broadcast_empty_read : ¬ ∀ coords, InRange coords [1] →
    InRange (sourceCoords (dense [0]) coords) [0] ∧ InRange (sourceCoords (dense [1]) coords) [1] := by
  have shaped (d : Int) (nonneg : 0 ≤ d) : WellShaped (dense [d]) := ⟨rfl, rfl, by simpa [dense] using nonneg⟩
  have iff := @broadcast_inRange_iff (dense [0]) (dense [1]) [1] rfl (shaped 0 (by decide)) (shaped 1 (by decide))
  exact fun reads => absurd (iff.mp reads) (by decide)

/-- Every element of the result is made of the elements of the operands under it. -/
theorem binaryKernel_elements {T : Type} {kind : Rtk} {applyBin : T → T → Option T} {cellsA cellsB : Int → T} {a b : NativeArrayView}
    {dims : List Int} {out : List T} (ran : binaryKernel kind applyBin cellsA cellsB a b = some (dims, out))
    (left : WellShaped a) (right : WellShaped b) : out.length = dims.prod.toNat ∧
      ∀ coords, InRange coords dims → ∃ cell, out[(position dims coords).toNat]? = some cell ∧
        applyBin (cellsA (a.offset + dot (sourceCoords a coords) a.strides))
          (cellsB (b.offset + dot (sourceCoords b coords) b.strides)) = some cell := by
  unfold binaryKernel at ran
  obtain ⟨_, -, ran⟩ := Option.bind_eq_some_iff.mp ran
  obtain ⟨_, -, ran⟩ := Option.bind_eq_some_iff.mp ran
  obtain ⟨dims', shapes, ran⟩ := Option.bind_eq_some_iff.mp ran
  obtain ⟨out', cells, same⟩ := Option.bind_eq_some_iff.mp ran
  cases same
  have each := mapM_eq_some.mp cells
  obtain ⟨rank, -⟩ := broadcast_stretches shapes left right
  have lengthA := length_broadcastStrides left (rank ▸ Nat.le_max_left _ _)
  have lengthB := length_broadcastStrides right (rank ▸ Nat.le_max_right _ _)
  have firsts : (dims.zip ((broadcastStrides a dims.length).zip (broadcastStrides b dims.length))).map Prod.fst = dims := by
    apply List.map_fst_zip
    rw [List.length_zip, lengthA, lengthB, Nat.min_self]
  have seconds : (dims.zip ((broadcastStrides a dims.length).zip (broadcastStrides b dims.length))).map Prod.snd =
      (broadcastStrides a dims.length).zip (broadcastStrides b dims.length) := by
    apply List.map_snd_zip
    rw [List.length_zip, lengthA, lengthB, Nat.min_self]
  constructor
  · rw [← each.length_eq, length_walk]
  intro coords inRange
  have visit := walk_position (firsts.symm ▸ inRange) (a.offset, b.offset)
  rw [firsts, seconds, shift_zip coords (lengthA.trans lengthB.symm), dot_broadcastStrides a inRange.length_eq,
    dot_broadcastStrides b inRange.length_eq] at visit
  obtain ⟨inside, at_⟩ := List.getElem?_eq_some_iff.mp visit
  have inside' := each.length_eq ▸ inside
  refine ⟨_, List.getElem?_eq_getElem inside', ?_⟩
  have made := each.get inside inside'
  rw [List.get_eq_getElem, List.get_eq_getElem, at_] at made
  exact made

theorem binaryKernel_row : ∃ out, binaryKernel .int32 (fun x y => some (x + y)) (fun addr => addr) (fun addr => 10 * addr)
    (dense [2, 2]) (dense [2]) = some ([2, 2], out) ∧ out[3]? = some 13 := by
  obtain ⟨-, elements⟩ := @binaryKernel_elements Int .int32 (fun x y => some (x + y)) (fun addr => addr) (fun addr => 10 * addr)
    (dense [2, 2]) (dense [2]) [2, 2] [0, 11, 2, 13] rfl ⟨rfl, rfl, by decide⟩ ⟨rfl, rfl, by decide⟩
  obtain ⟨cell, at_, made⟩ := elements [1, 1] (.cons (by decide) (.cons (by decide) .nil))
  exact ⟨_, rfl, at_.trans made.symm⟩

def IsContiguous (v : NativeArrayView) : Prop := v.strides = denseStrides v.dims

def strideWalk (v : NativeArrayView) : List Int :=
  walk (v.dims.zip v.strides) v.elemCount.toNat (origin (v.dims.zip v.strides)) v.offset

theorem denseStrides_eq {coords dims : List Int} (inRange : InRange coords dims) (small : dims.prod ≤ kMaxArrayElems) :
    denseStrides dims = rowStrides dims := by
  have both : dims.foldr (fun dim (out, acc) => (int32Cast acc :: out, acc * dim)) ([], 1) = (rowStrides dims, dims.prod) := by
    induction inRange with
    | nil => rfl
    | @cons c d coords dims axis tail ih =>
      have positive := prod_pos tail
      rw [List.prod_cons] at small
      have shrinks : dims.prod ≤ d * dims.prod := le_mul_of_one_le_left (Int.le_of_lt positive) (by omega)
      rw [List.foldr_cons, ih (shrinks.trans small), rowStrides, List.prod_cons, mul_comm d]
      dsimp only
      rw [int32Cast_eq (Int.le_of_lt positive) (shrinks.trans small)]
  rw [denseStrides, both]

theorem shift_int (coords strides : List Int) : shift coords strides = dot coords strides := rfl

/-- The re-view and the copy that `TensorFlatten` and `TensorReshape` choose from have the same elements. -/
theorem flatten_agrees {T : Type} {v : NativeArrayView} (shaped : WellShaped v) (count : v.elemCount = v.dims.prod)
    (small : v.elemCount ≤ kMaxArrayElems) (contiguous : IsContiguous v) (cells : Int → T) :
    (strideWalk v).map cells = (List.range v.elemCount.toNat).map fun i : Nat => cells (v.offset + (i : Int)) := by
  have firsts : (v.dims.zip v.strides).map Prod.fst = v.dims := List.map_fst_zip (by rw [shaped.dims, shaped.strides])
  have seconds : (v.dims.zip v.strides).map Prod.snd = v.strides := List.map_snd_zip (by rw [shaped.dims, shaped.strides])
  apply List.ext_getElem
  · simp [strideWalk, length_walk]
  intro k inside _
  have below : k < v.elemCount.toNat := by simpa [strideWalk, length_walk] using inside
  have zeros := inRange_zeros shaped.nonneg (show v.dims.prod ≠ 0 by omega)
  have start := position_origin (v.dims.zip v.strides)
  have origins := @origin_inRange Int (v.dims.zip v.strides) _ (firsts.symm ▸ zeros)
  obtain ⟨coords, inRange, at_, found⟩ := walk_getElem? below v.offset origins (by rw [start, firsts]; omega)
  rw [shift_origin, add_zero, seconds] at found
  rw [firsts] at inRange at_ start
  have place : shift coords v.strides = (k : Int) := by
    rw [shift_int, contiguous, denseStrides_eq zeros (count ▸ small), dot_rowStrides inRange, at_, start, zero_add]
  rw [place] at found
  obtain ⟨_, visited⟩ := List.getElem?_eq_some_iff.mp found
  rw [List.getElem_map, List.getElem_map, List.getElem_range]
  exact congrArg cells visited

theorem flatten_square : (strideWalk (dense [2, 2])).map (fun addr => addr) = [0, 1, 2, 3] :=
  flatten_agrees ⟨rfl, rfl, by decide⟩ rfl (by decide) (show IsContiguous (dense [2, 2]) from rfl) fun addr => addr

end NLang.Native
