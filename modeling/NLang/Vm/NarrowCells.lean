import NLang.Vm.ScalarPrims

/-!
# Narrow integers in cells

`byte`, `ubyte`, `short` and `ushort` values are read by the width of their carrier, but boxed by four bytes. Frame
slots, fields, static slots, array elements and boxes are cells here. A state records of which row the value is that was
last produced in a cell.
-/

namespace NLang.Vm.NarrowCells
open ScalarPrim

structure State (Loc : Type) where
  cells : Loc → Nat
  rows : Loc → Option ScalarPrim

inductive Instr (Loc : Type) where
  /-- `OP_ConstInt32`, `OP_ConstFloat`, `OP_ConstInt64`, `OP_ConstDouble`: no narrow row. -/
  | const (p : ScalarPrim) (dst : Loc) (bits : Nat)
  | zero (p : ScalarPrim) (dst : Loc)
  /-- The whole slot (`OP_VarLocal`, `OP_Assign`, fields, static slots, arguments), or its low half (elements, boxes). -/
  | move (whole : Bool) (dst src : Loc)
  | arith (op : ArithOp) (p : ScalarPrim) (dst src : Loc)
  | neg (p : ScalarPrim) (dst : Loc)
  | cmp (op : CmpOp) (p : ScalarPrim) (lhs rhs : Loc)
  | cast (s d : ScalarPrim) (at_ : Loc)
  /-- The scalar arm of a stream reader: as many bytes as the carrier has. -/
  | read (p : ScalarPrim) (dst : Loc) (bytes : Nat)

section Exec
variable {Loc : Type} [DecidableEq Loc] (unit : FloatUnit)

def State.set (s : State Loc) (dst : Loc) (p : ScalarPrim) (cell : Nat) : State Loc where
  cells loc := if loc = dst then cell else s.cells loc
  rows loc := if loc = dst then some p else s.rows loc

def State.produce (s : State Loc) (dst : Loc) (p : ScalarPrim) (result : Int) : State Loc :=
  s.set dst p (p.store (s.cells dst) result)

/-- Nothing where the operands are not of the row that the instruction names, or an exception is raised. -/
def exec (s : State Loc) : Instr Loc → Option (State Loc)
  | .const p dst bits => if p.isNarrow then none else some (s.produce dst p bits)
  | .zero p dst => some (s.set dst p 0)
  | .move whole dst src => do
      let p ← s.rows src
      if whole then some (s.set dst p (s.cells src))
      else if p.slotWidth = 8 then none
      else some (s.set dst p (s.cells dst / 2 ^ 32 * 2 ^ 32 + s.cells src % 2 ^ 32))
  | .arith op p dst src =>
    if s.rows dst = some p ∧ s.rows src = some p then
      (arithEntry unit op p (s.cells dst) (s.cells src)).map (s.produce dst p)
    else none
  | .neg p dst => if s.rows dst = some p then (negEntry unit p (s.cells dst)).map (s.produce dst p) else none
  | .cmp op p lhs rhs =>
    if s.rows lhs = some p ∧ s.rows rhs = some p then
      (cmpEntry unit op p (s.cells lhs) (s.cells rhs)).map fun b => s.produce lhs .bool (if b then 1 else 0)
    else none
  | .cast s' d loc => if s.rows loc = some s' then (castCell unit s' d (s.cells loc)).map (s.produce loc d) else none
  | .read p dst bytes => some (s.produce dst p bytes)

end Exec

def extension (v : Int) : Nat := (v % 2 ^ 32).toNat

def Extended (p : ScalarPrim) (cell : Nat) : Prop := cell % 2 ^ 32 = extension (p.value cell)

instance (p : ScalarPrim) (cell : Nat) : Decidable (Extended p cell) := inferInstanceAs (Decidable (_ = _))

def low32 (p : ScalarPrim) (cell : Nat) : Int :=
  if p.category = .sint ∧ 2 ^ 31 ≤ cell % 2 ^ 32 then (cell % 2 ^ 32 : Nat) - 2 ^ 32 else (cell % 2 ^ 32 : Nat)

structure BoxesByValue {Loc : Type} (s : State Loc) : Prop where
  cell : ∀ loc p, s.rows loc = some p → p.isNarrow → (opBox p (s.cells loc)).lo = extension (p.value (s.cells loc))
  equal : ∀ unit loc loc' p, s.rows loc = some p → s.rows loc' = some p → p.isNarrow →
    (cmpEntry unit .equal p (s.cells loc) (s.cells loc') = some true ↔
      boxedValuesEqual (opBox p (s.cells loc)) (opBox p (s.cells loc')) = true)

def UpperAgree (p : ScalarPrim) (cell : Nat) (v : Int) : Prop :=
  cell % 2 ^ 32 / p.span = extension (p.wrap v) / p.span

/-- When an instruction keeps the convention: a narrow result of arithmetic or of a negation has the sign of the operand
it replaces, a cast to a narrow row finds a number of that row in the low four bytes, and what else is written finds its
upper bytes in place. -/
def Fits (unit : FloatUnit) {Loc : Type} (s : State Loc) : Instr Loc → Prop
  | .arith op p dst src => p.isNarrow → ∀ r, arithEntry unit op p (s.cells dst) (s.cells src) = some r →
      (p.value (s.cells dst) < 0 ↔ p.wrap r < 0)
  | .neg p dst => p.isNarrow → (p.value (s.cells dst) < 0 ↔ p.wrap (-p.value (s.cells dst)) < 0)
  | .cast s' d loc => d.isNarrow →
      if s'.category = .float then UpperAgree d (s.cells loc) (unit.truncate s' (s.cells loc % s'.span))
      else d.wrap (low32 d (s.cells loc)) = low32 d (s.cells loc)
  | .read p dst bytes => p.isNarrow → UpperAgree p (s.cells dst) bytes
  | _ => True

section Cells
variable {p : ScalarPrim} {cell : Nat} {v : Int}

inductive NarrowRow : ScalarPrim → Prop where
  | byte : NarrowRow .byte
  | ubyte : NarrowRow .ubyte
  | short : NarrowRow .short
  | ushort : NarrowRow .ushort

theorem narrowRow (narrow : p.isNarrow) : NarrowRow p := by
  cases p with
  | byte => exact .byte
  | ubyte => exact .ubyte
  | short => exact .short
  | ushort => exact .ushort
  | _ => cases narrow

@[simp] theorem span_byte : span .byte = 256 := rfl
@[simp] theorem span_ubyte : span .ubyte = 256 := rfl
@[simp] theorem span_short : span .short = 65536 := rfl
@[simp] theorem span_ushort : span .ushort = 65536 := rfl
@[simp] theorem category_byte : category .byte = .sint := rfl
@[simp] theorem category_ubyte : category .ubyte = .uint := rfl
@[simp] theorem category_short : category .short = .sint := rfl
@[simp] theorem category_ushort : category .ushort = .uint := rfl

theorem span_pos : 0 < p.span := Nat.pow_pos (by decide)

theorem wrap_congr {v' : Int} (same : v % p.span = v' % p.span) : p.wrap v = p.wrap v' := by
  rw [wrap, wrap, same]

theorem wrap_emod : p.wrap v % p.span = v % p.span := by
  rw [wrap]
  split
  · rw [Int.sub_emod_right, Int.emod_emod]
  · rw [Int.emod_emod]

theorem residue_nonneg : 0 ≤ v % p.span := Int.emod_nonneg v (Int.natCast_ne_zero.mpr (Nat.ne_of_gt span_pos))

theorem residue_lt : v % p.span < p.span := Int.emod_lt_of_pos v (Int.natCast_pos.mpr span_pos)

theorem wrap_range : -(p.span : Int) ≤ p.wrap v ∧ p.wrap v < p.span := by
  have low : 0 ≤ v % p.span := residue_nonneg
  have high : v % p.span < p.span := residue_lt
  rw [wrap]
  split
  · omega
  · omega

theorem low32_emod (narrow : p.isNarrow) : low32 p cell % p.span = (cell : Int) % p.span := by
  cases narrowRow narrow
  all_goals
    simp only [low32, span_byte, span_ubyte, span_short, span_ushort]
    split
    · omega
    · omega

theorem value_low32 (narrow : p.isNarrow) : p.value cell = p.wrap (low32 p cell) :=
  wrap_congr (low32_emod narrow).symm

theorem extended_iff_low32 (narrow : p.isNarrow) : Extended p cell ↔ p.wrap (low32 p cell) = low32 p cell := by
  rw [Extended, extension, value_low32 narrow]
  have range : -(p.span : Int) ≤ p.wrap (low32 p cell) ∧ p.wrap (low32 p cell) < p.span := wrap_range
  have sign : p.category ≠ .sint → 0 ≤ p.wrap (low32 p cell) := by
    intro unsigned
    rw [wrap, if_neg fun both => unsigned both.1]
    exact residue_nonneg
  generalize p.wrap (low32 p cell) = number at range sign
  have small : (p.span : Int) ≤ 65536 := by
    cases narrowRow narrow
    all_goals decide
  rw [low32]
  constructor
  · intro same
    split
    · omega
    · rename_i positive
      by_cases signed : p.category = .sint
      · have low : ¬ 2 ^ 31 ≤ cell % 2 ^ 32 := fun high => positive ⟨signed, high⟩
        omega
      · have := sign signed
        omega
  · intro same
    split at same
    · omega
    · omega

theorem residue_toNat : (v % p.span).toNat < p.span := (Int.toNat_lt residue_nonneg).mpr residue_lt

theorem store_div : p.store cell v / p.span = cell / p.span := by
  rw [store, Nat.mul_comm, Nat.mul_add_div span_pos, Nat.div_eq_of_lt residue_toNat, Nat.add_zero]

theorem store_mod : p.store cell v % p.span = (v % p.span).toNat := by
  rw [store, Nat.mul_add_mod', Nat.mod_eq_of_lt residue_toNat]

theorem value_store : p.value (p.store cell v) = p.wrap v := by
  refine wrap_congr ?_
  rw [← Int.natCast_mod, store_mod, Int.toNat_of_nonneg residue_nonneg]

theorem extension_mod (narrow : p.isNarrow) : extension (p.wrap v) % p.span = (v % p.span).toNat := by
  have same : p.wrap v % p.span = v % p.span := wrap_emod
  rw [← same, extension]
  generalize p.wrap v = number
  cases narrowRow narrow
  all_goals
    simp only [span_byte, span_ubyte, span_short, span_ushort]
    omega

theorem extended_store_iff (narrow : p.isNarrow) : Extended p (p.store cell v) ↔ UpperAgree p cell v := by
  have kept : p.store cell v / p.span = cell / p.span := store_div
  have low : p.store cell v % p.span = extension (p.wrap v) % p.span := store_mod.trans (extension_mod narrow).symm
  have bound : extension (p.wrap v) < 2 ^ 32 := by
    rw [extension]
    omega
  rw [Extended, UpperAgree, value_store]
  generalize p.store cell v = stored at kept low
  generalize extension (p.wrap v) = bytes at low bound
  cases narrowRow narrow
  all_goals
    simp only [span_byte, span_ubyte, span_short, span_ushort] at kept low ⊢
    constructor
    · intro same
      omega
    · intro same
      omega

theorem extension_div (narrow : p.isNarrow) :
    extension (p.wrap v) / p.span = if p.wrap v < 0 then 2 ^ 32 / p.span - 1 else 0 := by
  have range : -(p.span : Int) ≤ p.wrap v ∧ p.wrap v < p.span := wrap_range
  rw [extension]
  generalize p.wrap v = number at range
  cases narrowRow narrow
  all_goals
    simp only [span_byte, span_ubyte, span_short, span_ushort] at range ⊢
    split
    · omega
    · omega

theorem upperAgree_iff_sign (narrow : p.isNarrow) (extended : Extended p cell) :
    UpperAgree p cell v ↔ (p.value cell < 0 ↔ p.wrap v < 0) := by
  have sign : 2 ^ 32 / p.span - 1 ≠ 0 := by
    cases narrowRow narrow
    all_goals decide
  rw [UpperAgree, extended, extension_div narrow, value, extension_div narrow]
  by_cases before : p.wrap cell < 0
  · by_cases after : p.wrap v < 0
    · rw [if_pos before, if_pos after]
      exact iff_of_true rfl (iff_of_true before after)
    · rw [if_pos before, if_neg after]
      exact iff_of_false sign fun same => after (same.mp before)
  · by_cases after : p.wrap v < 0
    · rw [if_neg before, if_pos after]
      exact iff_of_false sign.symm fun same => before (same.mpr after)
    · rw [if_neg before, if_neg after]
      exact iff_of_true rfl (iff_of_false before after)

theorem value_emod (extended : p.isNarrow → Extended p cell) : p.value cell % 2 ^ 32 = (cell : Int) % 2 ^ 32 := by
  by_cases narrow : p.isNarrow
  · have bytes := extended narrow
    rw [Extended, extension] at bytes
    omega
  · cases p with
    | byte | ubyte | short | ushort => exact absurd rfl narrow
    | float | uint32 | bool | char | ulong | double => simp [value, wrap, span, category, slotWidth]
    | int32 | long =>
      simp [value, wrap, span, category, slotWidth]
      omega

theorem store_value {d : ScalarPrim} (narrow : d.isNarrow) (extended : p.isNarrow → Extended p cell) :
    d.store cell (p.value cell) = cell := by
  have same := value_emod extended
  cases narrowRow narrow
  all_goals
    simp only [store, span_byte, span_ubyte, span_short, span_ushort]
    omega

theorem upperAgree_iff_low32 {d : ScalarPrim} (narrow : d.isNarrow) (extended : p.isNarrow → Extended p cell) :
    UpperAgree d cell (p.value cell) ↔ d.wrap (low32 d cell) = low32 d cell := by
  rw [← extended_store_iff narrow, store_value narrow extended, extended_iff_low32 narrow]

theorem opBox_lo : (opBox p cell).lo = cell % 2 ^ 32 := by
  rw [opBox]
  split <;> rfl

theorem opBox_equal (narrow : p.isNarrow) {cell' : Nat} :
    boxedValuesEqual (opBox p cell) (opBox p cell') = true ↔ cell % 2 ^ 32 = cell' % 2 ^ 32 := by
  cases narrowRow narrow
  all_goals simp [boxedValuesEqual, opBox, slotWidth]

theorem cmpEntry_equal (narrow : p.isNarrow) (unit : FloatUnit) {cell' : Nat} :
    cmpEntry unit .equal p cell cell' = some true ↔ p.value cell = p.value cell' := by
  cases narrowRow narrow
  all_goals simp [cmpEntry, CmpOp.run, category]

theorem low32_eq {cell' : Nat} (same : cell % 2 ^ 32 = cell' % 2 ^ 32) : low32 p cell = low32 p cell' := by
  rw [low32, low32, same]

end Cells

section States
variable {Loc : Type} {s s' : State Loc}

def AllExtended (s : State Loc) : Prop := ∀ loc p, s.rows loc = some p → p.isNarrow → Extended p (s.cells loc)

theorem boxesByValue_iff : BoxesByValue s ↔ AllExtended s := by
  constructor
  · intro boxes loc p at_loc narrow
    have cell := boxes.cell loc p at_loc narrow
    rwa [opBox_lo] at cell
  · intro extended
    refine ⟨fun loc p at_loc narrow => ?_, fun unit loc loc' p at_loc at_loc' narrow => ?_⟩
    · rw [opBox_lo]
      exact extended loc p at_loc narrow
    · rw [cmpEntry_equal narrow, opBox_equal narrow]
      have here := extended loc p at_loc narrow
      have there := extended loc' p at_loc' narrow
      constructor
      · intro same
        rw [here, there, same]
      · intro same
        rw [extended_iff_low32 narrow] at here there
        have value (cell : Nat) (extended : p.wrap (low32 p cell) = low32 p cell) : p.value cell = low32 p cell := by
          rw [value_low32 narrow, extended]
        rw [value _ here, value _ there, low32_eq same]

variable [DecidableEq Loc] {unit : FloatUnit}

theorem allExtended_set (extended : AllExtended s) {dst : Loc} {p : ScalarPrim} {cell : Nat} :
    AllExtended (s.set dst p cell) ↔ (p.isNarrow → Extended p cell) := by
  constructor
  · intro all narrow
    have here := all dst p (by simp [State.set]) narrow
    simpa [State.set] using here
  · intro written loc q at_loc narrow
    by_cases isDst : loc = dst
    · simp only [State.set, if_pos isDst, Option.some.injEq] at at_loc ⊢
      subst at_loc
      exact written narrow
    · simp only [State.set, if_neg isDst] at at_loc ⊢
      exact extended loc q at_loc narrow

theorem allExtended_produce (extended : AllExtended s) {dst : Loc} {p : ScalarPrim} {v : Int} :
    AllExtended (s.produce dst p v) ↔ (p.isNarrow → UpperAgree p (s.cells dst) v) := by
  rw [State.produce, allExtended_set extended]
  exact forall_congr' fun narrow => extended_store_iff narrow

theorem extended_congr {p : ScalarPrim} (narrow : p.isNarrow) {cell cell' : Nat} (same : cell % 2 ^ 32 = cell' % 2 ^ 32) :
    Extended p cell ↔ Extended p cell' := by
  rw [extended_iff_low32 narrow, extended_iff_low32 narrow, low32_eq same]

theorem castEntry_narrow {src d : ScalarPrim} (narrow : d.isNarrow) {cell : Nat} {r : Int}
    (made : castCell unit src d cell = some r) :
    r = if src.category = .float then unit.truncate src (cell % src.span) else src.value cell := by
  have notFloat : d.category ≠ .float := by cases narrowRow narrow <;> decide
  have notChar : d.category ≠ .char := by cases narrowRow narrow <;> decide
  rw [castCell] at made
  simp only [notFloat, notChar, if_false, false_and] at made
  obtain ⟨-, made⟩ := Option.ite_none_left_eq_some.mp made
  by_cases isFloat : src.category = .float
  · rw [if_pos isFloat] at made ⊢
    exact (Option.some.inj made).symm
  · rw [if_neg isFloat] at made ⊢
    exact (Option.some.inj made).symm

theorem exec_extended_iff {instr : Instr Loc} (extended : AllExtended s) (done : exec unit s instr = some s') :
    AllExtended s' ↔ Fits unit s instr := by
  cases instr with
  | const p dst bits =>
    obtain ⟨wide, done⟩ := Option.ite_none_left_eq_some.mp done
    cases done
    rw [allExtended_produce extended]
    exact iff_of_true (fun narrow => absurd narrow wide) trivial
  | zero p dst =>
    cases done
    rw [allExtended_set extended]
    exact iff_of_true (fun narrow => by cases narrowRow narrow <;> rfl) trivial
  | move whole dst src =>
    obtain ⟨p, at_src, done⟩ := Option.bind_eq_some_iff.mp done
    refine iff_of_true ?_ trivial
    split at done
    · cases done
      exact (allExtended_set extended).mpr (extended src p at_src)
    · obtain ⟨-, done⟩ := Option.ite_none_left_eq_some.mp done
      cases done
      refine (allExtended_set extended).mpr fun narrow => (extended_congr narrow ?_).mpr (extended src p at_src narrow)
      omega
  | arith op p dst src =>
    obtain ⟨⟨at_dst, -⟩, done⟩ := Option.ite_none_right_eq_some.mp done
    obtain ⟨r, made, done⟩ := Option.map_eq_some_iff.mp done
    cases done
    rw [allExtended_produce extended, Fits]
    refine forall_congr' fun narrow => ?_
    rw [upperAgree_iff_sign narrow (extended dst p at_dst narrow), made]
    exact ⟨fun sign r' same => Option.some.inj same ▸ sign, fun sign => sign r rfl⟩
  | neg p dst =>
    obtain ⟨at_dst, done⟩ := Option.ite_none_right_eq_some.mp done
    obtain ⟨r, made, done⟩ := Option.map_eq_some_iff.mp done
    cases done
    rw [allExtended_produce extended, Fits]
    refine forall_congr' fun narrow => ?_
    have isInteger : p.isInteger = true := by cases narrowRow narrow <;> rfl
    rw [negEntry, if_pos isInteger] at made
    cases made
    exact upperAgree_iff_sign narrow (extended dst p at_dst narrow)
  | cmp op p lhs rhs =>
    obtain ⟨-, done⟩ := Option.ite_none_right_eq_some.mp done
    obtain ⟨r, -, done⟩ := Option.map_eq_some_iff.mp done
    cases done
    rw [allExtended_produce extended]
    exact iff_of_true nofun trivial
  | cast src d loc =>
    obtain ⟨at_loc, done⟩ := Option.ite_none_right_eq_some.mp done
    obtain ⟨r, made, done⟩ := Option.map_eq_some_iff.mp done
    cases done
    rw [allExtended_produce extended, Fits]
    refine forall_congr' fun narrow => ?_
    rw [castEntry_narrow narrow made]
    split
    · rfl
    · exact upperAgree_iff_low32 narrow (extended loc src at_loc)
  | read p dst bytes =>
    cases done
    exact allExtended_produce extended

inductive Execution (unit : FloatUnit) (start : State Loc) : List (State Loc × Instr Loc) → State Loc → Prop where
  | refl : Execution unit start [] start
  | step {trace : List (State Loc × Instr Loc)} {s s' : State Loc} {instr : Instr Loc} (before : Execution unit start trace s)
      (done : exec unit s instr = some s') : Execution unit start ((s, instr) :: trace) s'

/-- The convention holds all along a run exactly when all its instructions fit. -/
theorem boxesByValue_run_iff {start : State Loc} (initial : BoxesByValue start) {trace : List (State Loc × Instr Loc)}
    (run : Execution unit start trace s) :
    ((∀ entry ∈ trace, BoxesByValue entry.1) ∧ BoxesByValue s) ↔ ∀ entry ∈ trace, Fits unit entry.1 entry.2 := by
  induction run with
  | refl => exact ⟨fun _ => nofun, fun _ => ⟨nofun, initial⟩⟩
  | @step trace s s' instr before done ih =>
    have one (boxes : BoxesByValue s) : BoxesByValue s' ↔ Fits unit s instr := by
      rw [boxesByValue_iff]
      exact exec_extended_iff (boxesByValue_iff.mp boxes) done
    rw [List.forall_mem_cons, List.forall_mem_cons]
    constructor
    · rintro ⟨⟨here, earlier⟩, last⟩
      exact ⟨(one here).mp last, ih.mp ⟨earlier, here⟩⟩
    · rintro ⟨fits, others⟩
      obtain ⟨earlier, here⟩ := ih.mpr others
      exact ⟨⟨here, earlier⟩, (one here).mpr fits⟩

end States

def noFloats : FloatUnit where
  arith _ _ _ _ := 0
  neg _ _ := 0
  isZero _ _ := false
  compare _ _ _ _ := false
  truncate _ _ := 0
  ofInt _ _ := 0
  convert _ _ _ := 0

def emptyFrame : State Nat where
  cells _ := 0
  rows _ := none

theorem emptyFrame_boxes : BoxesByValue emptyFrame := boxesByValue_iff.mpr nofun

def literalFrame : State Nat := (emptyFrame.produce 0 .int32 300).produce 0 .byte 300

def bothFrame : State Nat := (literalFrame.produce 1 .int32 44).produce 1 .byte 44

def bothTrace : List (State Nat × Instr Nat) :=
  [(literalFrame.produce 1 .int32 44, .cast .int32 .byte 1), (literalFrame, .const .int32 1 44),
    (emptyFrame.produce 0 .int32 300, .cast .int32 .byte 0), (emptyFrame, .const .int32 0 300)]

theorem bothFrame_run : Execution noFloats emptyFrame bothTrace bothFrame :=
  .step (.step (.step (.step .refl rfl) rfl) rfl) rfl

theorem bothFrame_boxes_iff : ((∀ entry ∈ bothTrace, BoxesByValue entry.1) ∧ BoxesByValue bothFrame) ↔
    ∀ entry ∈ bothTrace, Fits noFloats entry.1 entry.2 :=
  boxesByValue_run_iff emptyFrame_boxes bothFrame_run

theorem castByte_boxes_differ : ∃ trace s, Execution noFloats emptyFrame trace s ∧
    s.rows 0 = some .byte ∧ s.rows 1 = some .byte ∧ cmpEntry noFloats .equal .byte (s.cells 0) (s.cells 1) = some true ∧
    boxedValuesEqual (opBox .byte (s.cells 0)) (opBox .byte (s.cells 1)) = false ∧ ¬ BoxesByValue s := by
  refine ⟨bothTrace, bothFrame, bothFrame_run, rfl, rfl, by decide, by decide, fun boxes => ?_⟩
  have same := (boxes.equal noFloats 0 1 .byte rfl rfl rfl).mp (by decide)
  exact absurd same (by decide)

end NLang.Vm.NarrowCells
