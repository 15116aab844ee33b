import NLang.Compiler.SwitchLabels
import NLang.Library.AnnotatedCode
import NLang.Library.Fuelled
import NLang.Vm.NarrowCells

/-!
# Clauses of a switch

`EmitStmtSwitch.cpp`, with the instructions that it emits: they compare the slot of the discriminant with each label in
turn and jump by 16-bit offsets. Jumps are given with the targets they are patched to. The code of the discriminant, of
a label and of a body is one instruction here, of the size of that code.
-/

namespace NLang.Backend.Switches
open NLang.Vm NLang.Backend.Folded NLang.Compiler.SwitchLabels
open NLang.Library.AnnotatedCode NLang.Library.Fuelled

inductive SwitchType where
  | scalar (row : ScalarPrim)
  | enum
  | string
  deriving DecidableEq

inductive SwitchFamily where
  | none | int | float | string

def switchFamilyOfKind : SwitchType → SwitchFamily
  | .string => .string
  | .scalar row =>
    if row.isInteger then .int
    else if row.category = .float then .float
    else if row.category = .char then .int
    else .none
  | .enum => .int

structure Evaluated (σ : Type) where
  world : σ
  cell : Nat
  tempSlot2 : Nat
  pResult : Nat

/-- An expression with its code. Nothing where it raises an exception. -/
structure Operand (σ : Type) where
  type : SwitchType
  size : Nat
  emits : 0 < size
  eval : σ → Option (Evaluated σ)

inductive BodyEnd (σ : Type) where
  | completes (world : σ)
  | breaks (world : σ)
  | leaves (world : σ)

structure Body (σ : Type) where
  size : Nat
  run : σ → BodyEnd σ

structure Clause (σ : Type) where
  label : Operand σ
  others : List (Operand σ)
  body : Body σ

structure Switch (σ : Type) where
  cond : Operand σ
  cases : List (Clause σ)
  default : Option { body : Body σ // 0 < body.size }

structure Switch.Accepted {σ : Type} (sw : Switch σ) : Prop where
  cond : switchFamilyOfKind sw.cond.type = .int ∨ switchFamilyOfKind sw.cond.type = .string
  labels : ∀ clause ∈ sw.cases, ∀ label ∈ clause.label :: clause.others,
    switchFamilyOfKind label.type = switchFamilyOfKind sw.cond.type

inductive Slot where
  | switchSlot | condSlot | tempSlot2
  deriving DecidableEq

inductive Instr (σ : Type) where
  | cond (e : Operand σ)
  | opSwitch
  | opCase (next : Nat)
  | label (clause index : Nat) (e : Operand σ)
  | varLocal (slot : Slot)
  | assign (slot : Slot)
  | primCast (s d : ScalarPrim)
  | eqStr
  | cmp (kind : ScalarPrim)
  | jump (target : Nat)
  | jumpIfNot (target : Nat)
  /-- A body with the jump after it, which goes where its breaks go. -/
  | body (clause : Nat) (stmt : Body σ) (exit : Nat)
  | default (stmt : Body σ) (emits : 0 < stmt.size) (exit : Nat)

variable {σ : Type}

def Instr.stride : Instr σ → Nat
  | .cond e | .label _ _ e => e.size
  | .opSwitch | .opCase _ | .varLocal _ | .assign _ | .primCast _ _ | .jump _ => 3
  | .eqStr | .jumpIfNot _ => 5
  | .cmp _ => 7
  | .body _ stmt _ => stmt.size + 3
  | .default stmt _ _ => stmt.size

structure SwitchCompare where
  kind : ScalarPrim
  isString : Bool

def switchCompareOf : SwitchType → SwitchCompare
  | .string => ⟨.int32, true⟩
  | .enum => ⟨.int32, false⟩
  | .scalar row =>
    if row.category = .float ∨ row.slotWidth = 8 then ⟨row, false⟩
    else if row = .char then ⟨.char, false⟩
    else ⟨.int32, false⟩

def uint16 (offset : Nat) : Nat := offset % 2 ^ 16

def stagedRow : SwitchType → Option ScalarPrim
  | .scalar row => some row
  | .enum => some .int32
  | .string => none

section Emit
variable (compare : SwitchCompare)

def emitScalarSlotCast (source row : ScalarPrim) : List (Instr σ) :=
  if source = row then [] else [.varLocal .condSlot, .primCast source row, .assign .condSlot]

def emitSwitchLabelNormalize (label : Operand σ) : List (Instr σ) :=
  if compare.isString then []
  else match stagedRow label.type with
    | none => []
    | some row => emitScalarSlotCast row compare.kind

def emitSwitchOneLabelCompare (clause index : Nat) (label : Operand σ) (miss : Nat) : List (Instr σ) :=
  .label clause index label :: (emitSwitchLabelNormalize compare label ++
    [.varLocal .switchSlot, .assign .tempSlot2, if compare.isString then .eqStr else .cmp compare.kind,
      .jumpIfNot (uint16 miss)])

def size (code : List (Instr σ)) : Nat := (code.map Instr.stride).sum

def labelSize (label : Operand σ) : Nat := size (emitSwitchOneLabelCompare compare 0 0 label 0)

def labelsEnd (start : Nat) (label : Operand σ) : List (Operand σ) → Nat
  | [] => start + labelSize compare label
  | other :: others => labelsEnd (start + labelSize compare label + 3) other others

def emitSwitchLabelCompares (clause bodyStart miss : Nat) : Nat → Nat → Operand σ → List (Operand σ) → List (Instr σ)
  | index, _, label, [] => emitSwitchOneLabelCompare compare clause index label miss
  | index, start, label, other :: others =>
    let next := start + labelSize compare label + 3
    emitSwitchOneLabelCompare compare clause index label next ++ .jump (uint16 bodyStart) ::
      emitSwitchLabelCompares clause bodyStart miss (index + 1) next other others

def Clause.bodyStart (start : Nat) (clause : Clause σ) : Nat := labelsEnd compare (start + 3) clause.label clause.others

def Clause.after (start : Nat) (clause : Clause σ) : Nat := clause.bodyStart compare start + clause.body.size + 3

def emitSwitchCaseClause (i start next locEnd : Nat) (clause : Clause σ) : List (Instr σ) :=
  .opCase (uint16 next) ::
    (emitSwitchLabelCompares compare i (clause.bodyStart compare start) next 0 (start + 3) clause.label clause.others ++
      [.body i clause.body (uint16 locEnd)])

def casesEnd (start : Nat) (cases : List (Clause σ)) : Nat := cases.foldl (Clause.after compare) start

def emitClauses (last locEnd : Nat) : Nat → Nat → List (Clause σ) → List (Instr σ)
  | _, _, [] => []
  | i, start, clause :: cases =>
    let after := clause.after compare start
    emitSwitchCaseClause compare i start (if cases.isEmpty then last else after) locEnd clause ++
      emitClauses last locEnd (i + 1) after cases

end Emit

namespace Switch
variable (sw : Switch σ) (base : Nat)

def compare : SwitchCompare := switchCompareOf sw.cond.type

def locCaseEnd : Nat := casesEnd sw.compare (base + sw.cond.size + 3) sw.cases

def locEnd : Nat := sw.locCaseEnd base + sw.default.elim 0 (·.1.size)

def emitDefault : List (Instr σ) :=
  match sw.default with
  | some body => [.default body.1 body.2 (uint16 (sw.locEnd base))]
  | none => []

def emit : List (Instr σ) :=
  [.cond sw.cond, .opSwitch] ++
    (emitClauses sw.compare (if sw.default.isSome then sw.locCaseEnd base else sw.locEnd base) (sw.locEnd base) 0
      (base + sw.cond.size + 3) sw.cases ++ sw.emitDefault base)

end Switch

structure Frame (σ : Type) where
  world : σ
  slots : Slot → Nat
  pResult : Nat

inductive Event where
  | label (clause index : Nat)
  | body (clause : Nat)
  | default
  deriving DecidableEq

inductive Ending (σ : Type) where
  | ended (world : σ)
  | left (world : σ)
  | raised
  | lost

inductive Next (σ : Type) where
  | goes (event : Option Event) (pc : Nat) (frame : Frame σ)
  | stops (event : Option Event) (ending : Ending σ)

section Execution
variable (unit : FloatUnit) (stringsEqual : σ → Nat → Nat → Bool)

def Frame.set (f : Frame σ) (slot : Slot) (cell : Nat) : Frame σ :=
  { f with slots := fun other => if other = slot then cell else f.slots other }

def Frame.stage (f : Frame σ) (slot : Slot) (e : Evaluated σ) : Frame σ :=
  { ((f.set .tempSlot2 e.tempSlot2).set slot e.cell) with world := e.world, pResult := e.pResult }

def Frame.compared (f : Frame σ) (equal : Bool) : Frame σ :=
  f.set .tempSlot2 (ScalarPrim.store .int32 (f.slots .tempSlot2) (if equal then 1 else 0))

def Body.next (stmt : Body σ) (event : Event) (exit : Nat) (f : Frame σ) : Next σ :=
  match stmt.run f.world with
  | .completes world | .breaks world => .goes event exit { f with world }
  | .leaves world => .stops event (.left world)

def step (pc : Nat) (f : Frame σ) (instr : Instr σ) : Next σ :=
  let next := pc + instr.stride
  match instr with
  | .cond e => (e.eval f.world).elim (.stops none .raised) fun v => .goes none next (f.stage .switchSlot v)
  | .label clause index e =>
    (e.eval f.world).elim (.stops (Event.label clause index) .raised) fun v =>
      .goes (Event.label clause index) next (f.stage .condSlot v)
  | .opSwitch | .opCase _ => .goes none next f
  | .varLocal slot => .goes none next { f with pResult := f.slots slot }
  | .assign slot => .goes none next (f.set slot f.pResult)
  | .primCast s d =>
    (castCell unit s d f.pResult).elim (.stops none .raised) fun v =>
      .goes none next { f with pResult := d.store f.pResult v }
  | .eqStr =>
    .goes none next (f.compared (stringsEqual f.world (f.slots .tempSlot2 % 2 ^ 32) (f.slots .condSlot % 2 ^ 32)))
  | .cmp kind =>
    (cmpEntry unit .equal kind (f.slots .tempSlot2) (f.slots .condSlot)).elim (.stops none .raised) fun equal =>
      .goes none next (f.compared equal)
  | .jump target => .goes none target f
  | .jumpIfNot target => .goes none (if f.slots .tempSlot2 % 2 ^ 32 = 0 then target else next) f
  | .body clause stmt exit => stmt.next (.body clause) exit f
  | .default stmt _ exit =>
    match stmt.run f.world with
    | .completes world => .goes Event.default next { f with world }
    | .breaks world => .goes Event.default exit { f with world }
    | .leaves world => .stops Event.default (.left world)

def exec (fetch : Nat → Option (Instr σ)) (locEnd : Nat) : Nat → Nat → Frame σ → Option (List Event × Ending σ)
  | 0, _, _ => none
  | fuel + 1, pc, f =>
    match fetch pc with
    | none => some ([], if pc = locEnd then .ended f.world else .lost)
    | some instr =>
      match step unit stringsEqual pc f instr with
      | .stops event ending => some (event.toList, ending)
      | .goes event pc' f' =>
        (exec fetch locEnd fuel pc' f').map fun (events, ending) => (event.toList ++ events, ending)

end Execution

def instrAt (code : List (Instr σ)) (base pc : Nat) : Option (Instr σ) :=
  (fetch Instr.stride (code.map fun instr => (⟨instr, []⟩ : Line (Instr σ) Unit)) base pc).map Line.instr

structure Entry (σ : Type) where
  clause : Nat
  index : Nat
  label : Operand σ
  body : Body σ

def labelEntries (clause : Nat) (body : Body σ) : Nat → List (Operand σ) → List (Entry σ)
  | _, [] => []
  | index, label :: labels => ⟨clause, index, label, body⟩ :: labelEntries clause body (index + 1) labels

def entries : Nat → List (Clause σ) → List (Entry σ)
  | _, [] => []
  | i, clause :: cases => labelEntries i clause.body 0 (clause.label :: clause.others) ++ entries (i + 1) cases

def Body.finish (event : Event) (stmt : Body σ) (world : σ) : List Event × Ending σ :=
  match stmt.run world with
  | .completes world | .breaks world => ([event], .ended world)
  | .leaves world => ([event], .left world)

def tested (event : Event) (hit missed : σ → List Event × Ending σ) (world : σ) : Option Bool → List Event × Ending σ
  | none => ([event], .raised)
  | some true => (event :: (hit world).1, (hit world).2)
  | some false => (event :: (missed world).1, (missed world).2)

def select (test : Operand σ → Evaluated σ → Option Bool) (default : Option { body : Body σ // 0 < body.size }) :
    List (Entry σ) → σ → List Event × Ending σ
  | [], world => default.elim ([], .ended world) fun body => body.1.finish .default world
  | entry :: rest, world =>
    let event := Event.label entry.clause entry.index
    match entry.label.eval world with
    | none => ([event], .raised)
    | some v =>
      tested event (entry.body.finish (.body entry.clause)) (select test default rest) v.world (test entry.label v)

def SwitchType.number (type : SwitchType) (cell : Nat) : Int :=
  match stagedRow type with
  | some row => row.value cell
  | none => cell

section Tests
variable (unit : FloatUnit) (stringsEqual : σ → Nat → Nat → Bool)

def comparedEqual (compare : SwitchCompare) (slot : Nat) (label : Operand σ) (v : Evaluated σ) : Option Bool :=
  if compare.isString then some (stringsEqual v.world (slot % 2 ^ 32) (v.cell % 2 ^ 32))
  else match stagedRow label.type with
    | none => cmpEntry unit .equal compare.kind slot v.cell
    | some row => (castSlot unit row compare.kind v.cell).bind (cmpEntry unit .equal compare.kind slot)

def isEqual (type : SwitchType) (slot : Nat) (label : Operand σ) (v : Evaluated σ) : Bool :=
  if type = .string then stringsEqual v.world (slot % 2 ^ 32) (v.cell % 2 ^ 32)
  else type.number slot = label.type.number v.cell

def Switch.runBy (sw : Switch σ) (test : Nat → Operand σ → Evaluated σ → Option Bool) (world : σ) :
    List Event × Ending σ :=
  match sw.cond.eval world with
  | none => ([], .raised)
  | some v => select (test v.cell) sw.default (entries 0 sw.cases) v.world

def Switch.meaning (sw : Switch σ) (world : σ) : List Event × Ending σ :=
  sw.runBy (fun slot label v => some (isEqual stringsEqual sw.cond.type slot label v)) world

def Switch.runs (sw : Switch σ) (base : Nat) (f : Frame σ) (fuel : Nat) : Option (List Event × Ending σ) :=
  exec unit stringsEqual (instrAt (sw.emit base) base) (sw.locEnd base) fuel base f

end Tests

section Placed
variable {fetch : Nat → Option (Instr σ)} {first second code : List (Instr σ)} {pc base : Nat}

def At (fetch : Nat → Option (Instr σ)) : Nat → List (Instr σ) → Prop
  | _, [] => True
  | pc, instr :: code => fetch pc = some instr ∧ At fetch (pc + instr.stride) code

@[simp] theorem size_nil : size ([] : List (Instr σ)) = 0 := rfl

@[simp] theorem size_cons (instr : Instr σ) : size (instr :: code) = instr.stride + size code := List.sum_cons

@[simp] theorem size_append : size (first ++ second) = size first + size second := by
  rw [size, List.map_append, List.sum_append, size, size]

theorem at_append : At fetch pc (first ++ second) ↔ At fetch pc first ∧ At fetch (pc + size first) second := by
  induction first generalizing pc with
  | nil => exact ⟨fun placed => ⟨trivial, placed⟩, And.right⟩
  | cons instr first ih => rw [List.cons_append, At, ih, At, size_cons, and_assoc, Nat.add_assoc]

theorem stride_pos (instr : Instr σ) : 0 < instr.stride := by
  cases instr with
  | cond e => exact e.emits
  | label _ _ e => exact e.emits
  | default _ emits _ => exact emits
  | _ => exact Nat.succ_pos _

theorem instrAt_append_right {instr : Instr σ} (found : instrAt second (base + size first) pc = some instr) :
    instrAt (first ++ second) base pc = some instr := by
  rw [instrAt, Option.map_eq_some_iff] at found ⊢
  obtain ⟨line, found, rfl⟩ := found
  refine ⟨line, ?_, rfl⟩
  rw [List.map_append]
  refine fetch_append_right stride_pos ?_
  rw [codeSize, List.map_map]
  exact found

theorem at_instrAt (before code : List (Instr σ)) : At (instrAt (before ++ code) base) (base + size before) code := by
  induction code generalizing before with
  | nil => exact trivial
  | cons instr code ih =>
    constructor
    · refine instrAt_append_right ?_
      rw [instrAt, List.map_cons, fetch, if_pos rfl, Option.map_some]
    · have later := ih (before ++ [instr])
      rwa [List.append_assoc, List.singleton_append, size_append, size_cons, size_nil, Nat.add_zero,
        ← Nat.add_assoc] at later

theorem instrAt_end : instrAt code base (base + size code) = none := by
  have beyond (base pc : Nat) (past : base + size code ≤ pc) : instrAt code base pc = none := by
    induction code generalizing base with
    | nil => rfl
    | cons instr code ih =>
      have wide := stride_pos instr
      rw [size_cons] at past
      rw [instrAt, List.map_cons, fetch, if_neg (by omega)]
      exact ih (base + instr.stride) (by omega)
  exact beyond base _ (Nat.le_refl _)

end Placed

section Sizes
variable {compare : SwitchCompare} {i index miss start next last locEnd bodyStart : Nat} {label : Operand σ}
  {others : List (Operand σ)} {clause : Clause σ} {cases : List (Clause σ)}

theorem size_oneLabel : size (emitSwitchOneLabelCompare compare i index label miss) = labelSize compare label := by
  simp only [labelSize, emitSwitchOneLabelCompare, size_cons, size_append, Instr.stride]

theorem size_labels : start + size (emitSwitchLabelCompares compare i bodyStart miss index start label others) =
    labelsEnd compare start label others := by
  induction others generalizing index start label with
  | nil => rw [emitSwitchLabelCompares, size_oneLabel, labelsEnd]
  | cons other others ih =>
    have later : start + labelSize compare label + 3 + size (emitSwitchLabelCompares compare i bodyStart miss
        (index + 1) (start + labelSize compare label + 3) other others) =
        labelsEnd compare start label (other :: others) := ih
    rw [emitSwitchLabelCompares, size_append, size_cons, size_oneLabel, Instr.stride]
    omega

theorem size_clause : start + size (emitSwitchCaseClause compare i start next locEnd clause) =
    clause.after compare start := by
  have labels : start + 3 + size (emitSwitchLabelCompares compare i (clause.bodyStart compare start) next 0 (start + 3)
      clause.label clause.others) = clause.bodyStart compare start := size_labels
  rw [emitSwitchCaseClause, size_cons, size_append, size_cons, size_nil, Clause.after]
  simp only [Instr.stride]
  omega

theorem size_clauses : start + size (emitClauses compare last locEnd i start cases) = casesEnd compare start cases := by
  induction cases generalizing i start with
  | nil => rfl
  | cons clause cases ih =>
    rw [emitClauses, size_append, ← Nat.add_assoc, size_clause, ih]
    rfl

theorem size_emit (sw : Switch σ) (base : Nat) : base + size (sw.emit base) = sw.locEnd base := by
  have cases : base + sw.cond.size + 3 + size (emitClauses sw.compare
      (if sw.default.isSome then sw.locCaseEnd base else sw.locEnd base) (sw.locEnd base) 0 (base + sw.cond.size + 3)
      sw.cases) = sw.locCaseEnd base := size_clauses
  have rest : size (sw.emitDefault base) = sw.default.elim 0 (·.1.size) := by
    rw [Switch.emitDefault]
    cases sw.default <;> rfl
  rw [Switch.emit, size_append, size_append, rest]
  have ends : sw.locEnd base = sw.locCaseEnd base + sw.default.elim 0 (·.1.size) := rfl
  simp only [size_cons, size_nil, Instr.stride]
  omega

theorem last_eq (sw : Switch σ) (base : Nat) :
    (if sw.default.isSome then sw.locCaseEnd base else sw.locEnd base) = sw.locCaseEnd base := by
  cases none_ : sw.default with
  | none =>
    rw [Switch.locEnd, none_]
    rfl
  | some body => rfl

end Sizes

section Running
variable {unit : FloatUnit} {stringsEqual : σ → Nat → Nat → Bool} {fetch : Nat → Option (Instr σ)} {locEnd : Nat}
variable {compare : SwitchCompare} {label : Operand σ} {f : Frame σ} {pc slot : Nat} {r : List Event × Ending σ}

def Does (unit : FloatUnit) (stringsEqual : σ → Nat → Nat → Bool) (fetch : Nat → Option (Instr σ)) (locEnd pc : Nat)
    (f : Frame σ) (r : List Event × Ending σ) : Prop :=
  Computes (fun fuel => exec unit stringsEqual fetch locEnd fuel pc f) r

theorem does_goes {instr : Instr σ} {event : Option Event} {pc' : Nat} {f' : Frame σ} (found : fetch pc = some instr)
    (taken : step unit stringsEqual pc f instr = .goes event pc' f')
    (later : Does unit stringsEqual fetch locEnd pc' f' r) :
    Does unit stringsEqual fetch locEnd pc f (event.toList ++ r.1, r.2) := by
  refine .round rfl (fun n => ?_) (later.map fun (events, ending) => (event.toList ++ events, ending))
  rw [exec, found]
  simp only [taken]

theorem does_silent {instr : Instr σ} {pc' : Nat} {f' : Frame σ} (found : fetch pc = some instr)
    (taken : step unit stringsEqual pc f instr = .goes none pc' f')
    (later : Does unit stringsEqual fetch locEnd pc' f' r) : Does unit stringsEqual fetch locEnd pc f r :=
  does_goes found taken later

theorem does_stops {instr : Instr σ} {event : Option Event} {ending : Ending σ} (found : fetch pc = some instr)
    (taken : step unit stringsEqual pc f instr = .stops event ending) :
    Does unit stringsEqual fetch locEnd pc f (event.toList, ending) := by
  refine .round rfl (fun n => ?_) (computes_some _)
  rw [exec, found]
  simp only [taken]

theorem does_end (ended : fetch locEnd = none) :
    Does unit stringsEqual fetch locEnd locEnd f ([], .ended f.world) := by
  refine .round rfl (fun n => ?_) (computes_some _)
  rw [exec, ended]
  exact congrArg (fun ending => some ([], ending)) (if_pos rfl)

def normalized (unit : FloatUnit) (compare : SwitchCompare) (label : Operand σ) (cell : Nat) : Option Nat :=
  if compare.isString then some cell
  else match stagedRow label.type with
    | none => some cell
    | some row => castSlot unit row compare.kind cell

def cellsEqual (unit : FloatUnit) (stringsEqual : σ → Nat → Nat → Bool) (compare : SwitchCompare) (world : σ)
    (slot cell : Nat) : Option Bool :=
  if compare.isString then some (stringsEqual world (slot % 2 ^ 32) (cell % 2 ^ 32))
  else cmpEntry unit .equal compare.kind slot cell

theorem comparedEqual_eq (v : Evaluated σ) : comparedEqual unit stringsEqual compare slot label v =
    (normalized unit compare label v.cell).bind (cellsEqual unit stringsEqual compare v.world slot) := by
  unfold comparedEqual normalized cellsEqual
  cases compare.isString with
  | true => rfl
  | false =>
    simp only [Bool.false_eq_true, if_false]
    cases stagedRow label.type <;> rfl

theorem does_normalize {then_ : Nat → List Event × Ending σ}
    (placed : At fetch pc (emitSwitchLabelNormalize compare label))
    (later : ∀ f' : Frame σ, f'.world = f.world → f'.slots .switchSlot = f.slots .switchSlot →
      Does unit stringsEqual fetch locEnd (pc + size (emitSwitchLabelNormalize compare label)) f'
        (then_ (f'.slots .condSlot))) :
    Does unit stringsEqual fetch locEnd pc f
      ((normalized unit compare label (f.slots .condSlot)).elim ([], .raised) then_) := by
  have asIs (none_ : emitSwitchLabelNormalize compare label = [])
      (same : normalized unit compare label (f.slots .condSlot) = some (f.slots .condSlot)) :
      Does unit stringsEqual fetch locEnd pc f
        ((normalized unit compare label (f.slots .condSlot)).elim ([], .raised) then_) := by
    have here := later f rfl rfl
    rw [none_, size_nil, Nat.add_zero] at here
    rw [same]
    exact here
  unfold emitSwitchLabelNormalize at placed later asIs
  unfold normalized at asIs ⊢
  by_cases isString : compare.isString = true
  · rw [if_pos isString, if_pos isString] at asIs
    rw [if_pos isString]
    exact asIs rfl rfl
  rw [if_neg isString] at placed
  simp only [if_neg isString] at later asIs ⊢
  cases staged : stagedRow label.type with
  | none =>
    rw [staged] at asIs
    exact asIs rfl rfl
  | some row =>
    simp only [staged, emitScalarSlotCast] at placed later asIs ⊢
    by_cases same : row = compare.kind
    · rw [castSlot, if_pos same, if_pos same] at asIs
      rw [castSlot, if_pos same]
      exact asIs rfl rfl
    rw [if_neg same] at placed
    simp only [if_neg same] at later
    rw [castSlot, if_neg same]
    obtain ⟨load, cast, store, -⟩ := placed
    refine does_silent load rfl ?_
    cases casted : castCell unit row compare.kind (f.slots .condSlot) with
    | none =>
      have stops : step unit stringsEqual (pc + 3) { f with pResult := f.slots .condSlot }
          (.primCast row compare.kind) = .stops none .raised := by
        simp only [step, casted, Option.elim_none]
      exact does_stops cast stops
    | some v =>
      have goes : step unit stringsEqual (pc + 3) { f with pResult := f.slots .condSlot }
          (.primCast row compare.kind) =
          .goes none (pc + 3 + 3) { f with pResult := compare.kind.store (f.slots .condSlot) v } := by
        simp only [step, casted, Option.elim_some, Instr.stride]
      exact does_silent cast goes (does_silent store rfl (later _ rfl rfl))

theorem store_bool (cell : Nat) (b : Bool) :
    ScalarPrim.store .int32 cell (if b then 1 else 0) % 2 ^ 32 = if b then 1 else 0 := by
  cases b <;> simp [ScalarPrim.store, ScalarPrim.span, ScalarPrim.slotWidth]

theorem does_decide {target : Nat} {equal : Bool} {onHit onMiss : σ → List Event × Ending σ}
    (placed : fetch pc = some (.jumpIfNot target)) (atSlot : f.slots .switchSlot = slot)
    (hit : ∀ f' : Frame σ, f'.slots .switchSlot = slot →
      Does unit stringsEqual fetch locEnd (pc + 5) f' (onHit f'.world))
    (missed : ∀ f' : Frame σ, f'.slots .switchSlot = slot →
      Does unit stringsEqual fetch locEnd target f' (onMiss f'.world)) :
    Does unit stringsEqual fetch locEnd pc (f.compared equal) (if equal then onHit f.world else onMiss f.world) := by
  have result : (f.compared equal).slots .tempSlot2 % 2 ^ 32 = if equal then 1 else 0 := store_bool _ equal
  cases equal with
  | true =>
    refine does_silent placed ?_ (hit (f.compared true) atSlot)
    rw [step, result]
    rfl
  | false =>
    refine does_silent placed ?_ (missed (f.compared false) atSlot)
    rw [step, result]
    rfl

theorem does_compare {target : Nat} {onHit onMiss : σ → List Event × Ending σ}
    (placed : At fetch pc [.varLocal .switchSlot, .assign .tempSlot2,
      if compare.isString then .eqStr else .cmp compare.kind, .jumpIfNot target])
    (atSlot : f.slots .switchSlot = slot)
    (hit : ∀ f' : Frame σ, f'.slots .switchSlot = slot →
      Does unit stringsEqual fetch locEnd (pc + (if compare.isString then 16 else 18)) f' (onHit f'.world))
    (missed : ∀ f' : Frame σ, f'.slots .switchSlot = slot →
      Does unit stringsEqual fetch locEnd target f' (onMiss f'.world)) :
    Does unit stringsEqual fetch locEnd pc f
      ((cellsEqual unit stringsEqual compare f.world slot (f.slots .condSlot)).elim ([], .raised) fun equal =>
        if equal then onHit f.world else onMiss f.world) := by
  obtain ⟨load, store, test, jump, -⟩ := placed
  subst atSlot
  refine does_silent load rfl (does_silent store rfl ?_)
  change Does unit stringsEqual fetch locEnd (pc + 3 + 3)
    (Frame.set { f with pResult := f.slots .switchSlot } .tempSlot2 (f.slots .switchSlot)) _
  unfold cellsEqual
  by_cases isString : compare.isString = true
  · simp only [if_pos isString] at test jump hit ⊢
    exact does_silent test rfl (does_decide jump rfl hit missed)
  · simp only [if_neg isString] at test jump hit ⊢
    cases found : cmpEntry unit .equal compare.kind (f.slots .switchSlot) (f.slots .condSlot) with
    | none =>
      have stops : step unit stringsEqual (pc + 3 + 3)
          (Frame.set { f with pResult := f.slots .switchSlot } .tempSlot2 (f.slots .switchSlot))
          (.cmp compare.kind) = .stops none .raised := by
        change (cmpEntry unit .equal compare.kind (f.slots .switchSlot) (f.slots .condSlot)).elim _ _ = _
        rw [found]
        rfl
      exact does_stops test stops
    | some equal =>
      have goes : step unit stringsEqual (pc + 3 + 3)
          (Frame.set { f with pResult := f.slots .switchSlot } .tempSlot2 (f.slots .switchSlot)) (.cmp compare.kind) =
          .goes none (pc + 3 + 3 + 7) (Frame.compared
            (Frame.set { f with pResult := f.slots .switchSlot } .tempSlot2 (f.slots .switchSlot)) equal) := by
        change (cmpEntry unit .equal compare.kind (f.slots .switchSlot) (f.slots .condSlot)).elim _ _ = _
        rw [found]
        rfl
      exact does_silent test goes (does_decide jump rfl hit missed)

theorem does_oneLabel {i index miss : Nat} {onHit onMiss : σ → List Event × Ending σ}
    (placed : At fetch pc (emitSwitchOneLabelCompare compare i index label miss)) (atSlot : f.slots .switchSlot = slot)
    (hit : ∀ f' : Frame σ, f'.slots .switchSlot = slot →
      Does unit stringsEqual fetch locEnd (pc + labelSize compare label) f' (onHit f'.world))
    (missed : ∀ f' : Frame σ, f'.slots .switchSlot = slot →
      Does unit stringsEqual fetch locEnd (uint16 miss) f' (onMiss f'.world)) :
    Does unit stringsEqual fetch locEnd pc f (match label.eval f.world with
      | none => ([.label i index], .raised)
      | some v =>
        tested (.label i index) onHit onMiss v.world (comparedEqual unit stringsEqual compare slot label v)) := by
  obtain ⟨evals, rest⟩ := placed
  rw [at_append] at rest
  obtain ⟨normalizes, compares⟩ := rest
  cases evaluated : label.eval f.world with
  | none =>
    have stops : step unit stringsEqual pc f (.label i index label) = .stops (Event.label i index) .raised := by
      simp only [step, evaluated, Option.elim_none]
    exact does_stops evals stops
  | some v =>
    have goes : step unit stringsEqual pc f (.label i index label) =
        .goes (Event.label i index) (pc + label.size) (f.stage .condSlot v) := by
      simp only [step, evaluated, Option.elim_some, Instr.stride]
    have later : Does unit stringsEqual fetch locEnd (pc + label.size) (f.stage .condSlot v)
        ((normalized unit compare label v.cell).elim ([], .raised) fun cell =>
          (cellsEqual unit stringsEqual compare v.world slot cell).elim ([], .raised) fun equal =>
            if equal then onHit v.world else onMiss v.world) := by
      refine does_normalize normalizes fun f' world kept => ?_
      have sameWorld : f'.world = v.world := world
      rw [← sameWorld]
      refine does_compare compares (kept.trans atSlot) ?_ missed
      intro f'' atSlot'
      have here := hit f'' atSlot'
      have total : labelSize compare label = label.size + size (emitSwitchLabelNormalize compare label) +
          (if compare.isString then 16 else 18) := by
        rw [labelSize, emitSwitchOneLabelCompare, size_cons, size_append, Nat.add_assoc]
        cases compare.isString <;> rfl
      rwa [total, ← Nat.add_assoc, ← Nat.add_assoc] at here
    have done := does_goes evals goes later
    simp only [comparedEqual_eq]
    cases staged : normalized unit compare label v.cell with
    | none =>
      rw [staged] at done
      exact done
    | some cell =>
      simp only [staged, Option.elim_some, Option.bind_some] at done ⊢
      cases compared : cellsEqual unit stringsEqual compare v.world slot cell with
      | none =>
        rw [compared] at done
        exact done
      | some equal =>
        rw [compared] at done
        cases equal <;> exact done

theorem uint16_eq {offset : Nat} (small : offset < 2 ^ 16) : uint16 offset = offset := Nat.mod_eq_of_lt small

theorem labelsEnd_ge {start : Nat} {others : List (Operand σ)} :
    start + labelSize compare label ≤ labelsEnd compare start label others := by
  induction others generalizing start label with
  | nil => exact Nat.le_refl _
  | cons other others ih =>
    rw [labelsEnd]
    exact Nat.le_trans (Nat.le_trans (Nat.le_add_right _ 3) (Nat.le_add_right _ _)) ih

theorem casesEnd_ge {start : Nat} {cases : List (Clause σ)} : start ≤ casesEnd compare start cases := by
  induction cases generalizing start with
  | nil => exact Nat.le_refl _
  | cons clause cases ih =>
    have labels : start + 3 + labelSize compare clause.label ≤ clause.bodyStart compare start := labelsEnd_ge
    have here : start ≤ clause.after compare start := by
      rw [Clause.after]
      omega
    exact Nat.le_trans here ih

theorem does_body {stmt : Body σ} {i : Nat} (placed : fetch pc = some (.body i stmt (uint16 locEnd)))
    (small : locEnd < 2 ^ 16) (ended : fetch locEnd = none) :
    Does unit stringsEqual fetch locEnd pc f (stmt.finish (.body i) f.world) := by
  rw [uint16_eq small] at placed
  unfold Body.finish
  cases ran : stmt.run f.world with
  | completes world =>
    have goes : step unit stringsEqual pc f (.body i stmt locEnd) =
        .goes (Event.body i) locEnd { f with world := world } := by
      simp only [step, Body.next, ran]
    exact does_goes placed goes (does_end ended)
  | breaks world =>
    have goes : step unit stringsEqual pc f (.body i stmt locEnd) =
        .goes (Event.body i) locEnd { f with world := world } := by
      simp only [step, Body.next, ran]
    exact does_goes placed goes (does_end ended)
  | leaves world =>
    have stops : step unit stringsEqual pc f (.body i stmt locEnd) = .stops (Event.body i) (.left world) := by
      simp only [step, Body.next, ran]
    exact does_stops placed stops

theorem does_default {stmt : Body σ} {emits : 0 < stmt.size}
    (placed : fetch pc = some (.default stmt emits (uint16 locEnd))) (atEnd : pc + stmt.size = locEnd)
    (small : locEnd < 2 ^ 16) (ended : fetch locEnd = none) :
    Does unit stringsEqual fetch locEnd pc f (stmt.finish .default f.world) := by
  rw [uint16_eq small] at placed
  unfold Body.finish
  cases ran : stmt.run f.world with
  | completes world =>
    have goes : step unit stringsEqual pc f (.default stmt emits locEnd) =
        .goes Event.default locEnd { f with world := world } := by
      simp only [step, ran, Instr.stride, atEnd]
    exact does_goes placed goes (does_end ended)
  | breaks world =>
    have goes : step unit stringsEqual pc f (.default stmt emits locEnd) =
        .goes Event.default locEnd { f with world := world } := by
      simp only [step, ran]
    exact does_goes placed goes (does_end ended)
  | leaves world =>
    have stops : step unit stringsEqual pc f (.default stmt emits locEnd) = .stops Event.default (.left world) := by
      simp only [step, ran]
    exact does_stops placed stops

variable {default : Option { body : Body σ // 0 < body.size }}

theorem does_labels {i index start miss bodyStart : Nat} {others : List (Operand σ)} {body : Body σ}
    {rest : List (Entry σ)}
    (placed : At fetch start (emitSwitchLabelCompares compare i bodyStart miss index start label others))
    (ends : labelsEnd compare start label others = bodyStart) (small : bodyStart < 2 ^ 16) (small' : miss < 2 ^ 16)
    (atSlot : f.slots .switchSlot = slot)
    (hit : ∀ f' : Frame σ, Does unit stringsEqual fetch locEnd bodyStart f' (body.finish (.body i) f'.world))
    (missed : ∀ f' : Frame σ, f'.slots .switchSlot = slot → Does unit stringsEqual fetch locEnd miss f'
      (select (comparedEqual unit stringsEqual compare slot) default rest f'.world)) :
    Does unit stringsEqual fetch locEnd start f (select (comparedEqual unit stringsEqual compare slot) default
      (labelEntries i body index (label :: others) ++ rest) f.world) := by
  induction others generalizing index start label f with
  | nil =>
    refine does_oneLabel placed atSlot (fun f' _ => ?_) fun f' atSlot' => ?_
    · rw [labelsEnd] at ends
      rw [ends]
      exact hit f'
    · rw [uint16_eq small']
      exact missed f' atSlot'
  | cons other others ih =>
    rw [labelsEnd] at ends
    have next : start + labelSize compare label + 3 ≤ bodyStart :=
      ends ▸ Nat.le_trans (Nat.le_add_right _ _) labelsEnd_ge
    rw [emitSwitchLabelCompares, at_append, size_oneLabel] at placed
    obtain ⟨first, jump, later⟩ := placed
    refine does_oneLabel first atSlot (fun f' _ => ?_) fun f' atSlot' => ?_
    · rw [uint16_eq small] at jump
      exact does_silent jump rfl (hit f')
    · rw [uint16_eq (Nat.lt_of_le_of_lt next small)]
      exact ih later ends atSlot'

theorem does_clauses {i start : Nat} {cases : List (Clause σ)}
    (placed : At fetch start (emitClauses compare (casesEnd compare start cases) locEnd i start cases))
    (inside : casesEnd compare start cases ≤ locEnd) (small : locEnd < 2 ^ 16) (ended : fetch locEnd = none)
    (finish : ∀ f' : Frame σ, Does unit stringsEqual fetch locEnd (casesEnd compare start cases) f'
      (select (comparedEqual unit stringsEqual compare slot) default [] f'.world))
    (atSlot : f.slots .switchSlot = slot) :
    Does unit stringsEqual fetch locEnd start f
      (select (comparedEqual unit stringsEqual compare slot) default (entries i cases) f.world) := by
  induction cases generalizing i start f with
  | nil => exact finish f
  | cons clause cases ih =>
    have ends : casesEnd compare start (clause :: cases) = casesEnd compare (clause.after compare start) cases := rfl
    have after_le : clause.after compare start ≤ casesEnd compare (clause.after compare start) cases := casesEnd_ge
    have bodyStart_le : clause.bodyStart compare start ≤ clause.after compare start := by
      rw [Clause.after]
      omega
    have next : (if cases.isEmpty then casesEnd compare start (clause :: cases) else clause.after compare start) =
        clause.after compare start := by
      cases cases <;> rfl
    rw [ends] at inside
    rw [emitClauses, at_append, size_clause, next] at placed
    obtain ⟨⟨marker, labels⟩, later⟩ := placed
    rw [at_append, Instr.stride, size_labels] at labels
    obtain ⟨compares, body, -⟩ := labels
    refine does_silent marker rfl ?_
    have after_small : clause.after compare start < 2 ^ 16 := Nat.lt_of_le_of_lt (Nat.le_trans after_le inside) small
    exact does_labels compares rfl (Nat.lt_of_le_of_lt bodyStart_le after_small) after_small atSlot
      (fun _ => does_body body small ended) fun _ atSlot' => ih later inside finish atSlot'

theorem does_switch (sw : Switch σ) (base : Nat) (f : Frame σ) (small : sw.locEnd base < 2 ^ 16) :
    Computes (sw.runs unit stringsEqual base f)
      (sw.runBy (comparedEqual unit stringsEqual sw.compare) f.world) := by
  have ended : instrAt (sw.emit base) base (sw.locEnd base) = none := by
    rw [← size_emit sw base]
    exact instrAt_end
  have placed : At (instrAt (sw.emit base) base) base (sw.emit base) := at_instrAt [] (sw.emit base)
  have inside : sw.locCaseEnd base ≤ sw.locEnd base := Nat.le_add_right _ _
  unfold Switch.runs
  generalize instrAt (sw.emit base) base = fetch at placed ended
  rw [Switch.emit, last_eq, at_append, at_append] at placed
  obtain ⟨⟨cond, marker, -⟩, clauses, default⟩ := placed
  unfold Switch.runBy
  change Does unit stringsEqual fetch (sw.locEnd base) base f _
  cases evaluated : sw.cond.eval f.world with
  | none =>
    have stops : step unit stringsEqual base f (.cond sw.cond) = .stops none .raised := by
      simp only [step, evaluated, Option.elim_none]
    exact does_stops cond stops
  | some v =>
    have goes : step unit stringsEqual base f (.cond sw.cond) =
        .goes none (base + sw.cond.size) (f.stage .switchSlot v) := by
      simp only [step, evaluated, Option.elim_some, Instr.stride]
    have finish : ∀ f' : Frame σ, Does unit stringsEqual fetch (sw.locEnd base) (sw.locCaseEnd base) f'
        (select (comparedEqual unit stringsEqual sw.compare v.cell) sw.default [] f'.world) := by
      intro f'
      have start : base + size [Instr.cond sw.cond, .opSwitch] = base + sw.cond.size + 3 := by
        simp only [size_cons, size_nil, Instr.stride]
        omega
      rw [start, size_clauses] at default
      change At fetch (sw.locCaseEnd base) (sw.emitDefault base) at default
      unfold Switch.emitDefault at default
      cases body : sw.default with
      | none =>
        have atEnd : sw.locEnd base = sw.locCaseEnd base := by
          rw [Switch.locEnd, body]
          rfl
        rw [← atEnd]
        exact does_end ended
      | some body' =>
        rw [body] at default
        have atEnd : sw.locCaseEnd base + body'.1.size = sw.locEnd base := by
          rw [Switch.locEnd, body]
          rfl
        exact does_default default.1 atEnd small ended
    refine does_silent cond goes (does_silent marker rfl ?_)
    exact does_clauses clauses inside small ended finish rfl

end Running

section Apart
variable {unit : FloatUnit} {stringsEqual : σ → Nat → Nat → Bool} {test : Operand σ → Evaluated σ → Option Bool}
  {equal : Operand σ → Evaluated σ → Bool} {default : Option { body : Body σ // 0 < body.size }}

def ToldApart (type labelType : SwitchType) (slot cell : Nat) : Prop :=
  let kind := (switchCompareOf type).kind
  type = .string ∨
    (kind = .char → labelType ≠ .scalar .char → isScalarValue (labelType.number cell)) ∧
      ((slot : Int) % kind.span = labelType.number cell % kind.span ↔ type.number slot = labelType.number cell)

def Reached (equal : Operand σ → Evaluated σ → Bool) (holds : Operand σ → Evaluated σ → Prop) :
    List (Entry σ) → σ → Prop
  | [], _ => True
  | entry :: rest, world => ∀ v, entry.label.eval world = some v →
      holds entry.label v ∧ (equal entry.label v = false → Reached equal holds rest v.world)

theorem finish_events {stmt : Body σ} {event : Event} {world : σ} : (stmt.finish event world).1 = [event] := by
  unfold Body.finish
  cases stmt.run world <;> rfl

theorem tested_head {event : Event} {hit missed : σ → List Event × Ending σ} {world : σ} {passes : Option Bool} :
    (tested event hit missed world passes).1.head? = some event := by
  cases passes with
  | none => rfl
  | some passes => cases passes <;> rfl

theorem select_head {entries : List (Entry σ)} {world : σ} {i : Nat} :
    (select test default entries world).1.head? ≠ some (.body i) := by
  cases entries with
  | nil =>
    rw [select]
    cases default with
    | none => exact nofun
    | some body =>
      rw [Option.elim_some, finish_events]
      exact nofun
  | cons entry rest =>
    rw [select]
    cases entry.label.eval world with
    | none => exact nofun
    | some v =>
      simp only [tested_head]
      exact nofun

theorem select_ne_raised {entries : List (Entry σ)} {world : σ} :
    select test default entries world ≠ ([], .raised) := by
  intro same
  cases entries with
  | nil =>
    rw [select] at same
    cases default with
    | none => cases same
    | some body =>
      have events := congrArg Prod.fst same
      rw [Option.elim_some, finish_events] at events
      cases events
  | cons entry rest =>
    have head := congrArg (·.1.head?) same
    rw [select] at head
    cases evaluated : entry.label.eval world with
    | none =>
      rw [evaluated] at head
      cases head
    | some v => simp only [evaluated, tested_head, List.head?_nil, reduceCtorEq] at head

theorem select_eq_iff {entries : List (Entry σ)} {world : σ} :
    select test default entries world = select (fun label v => some (equal label v)) default entries world ↔
      Reached equal (fun label v => test label v = some (equal label v)) entries world := by
  induction entries generalizing world with
  | nil => exact iff_of_true rfl trivial
  | cons entry rest ih =>
    rw [select, select, Reached]
    cases evaluated : entry.label.eval world with
    | none => exact iff_of_true rfl fun v found => by cases found
    | some v =>
      simp only [Option.some.injEq, forall_eq']
      -- the events behind the label tell the three ways apart
      cases equal entry.label v with
      | true =>
        cases passes : test entry.label v with
        | none =>
          refine iff_of_false (fun same => ?_) (fun both => by cases both.1)
          have events := congrArg Prod.fst same
          simp only [tested, finish_events, List.cons.injEq, reduceCtorEq, and_false] at events
        | some found =>
          cases found with
          | true => exact iff_of_true rfl ⟨rfl, fun missed => by cases missed⟩
          | false =>
            refine iff_of_false (fun same => ?_) (fun both => by cases both.1)
            have events := (List.cons.inj (congrArg Prod.fst same)).2
            rw [finish_events] at events
            exact select_head (congrArg List.head? events)
      | false =>
        cases passes : test entry.label v with
        | none =>
          refine iff_of_false (fun same => ?_) (fun both => by cases both.1)
          have events := (List.cons.inj (congrArg Prod.fst same)).2
          have ending := congrArg Prod.snd same
          exact select_ne_raised (Prod.ext events.symm ending.symm)
        | some found =>
          cases found with
          | true =>
            refine iff_of_false (fun same => ?_) (fun both => by cases both.1)
            have events := (List.cons.inj (congrArg Prod.fst same)).2
            rw [finish_events] at events
            exact select_head (congrArg List.head? events.symm)
          | false =>
            simp only [tested, Prod.mk.injEq, List.cons.injEq, true_and, forall_const]
            rw [← Prod.ext_iff]
            exact ih

variable {type labelType : SwitchType} {label : Operand σ} {slot cell : Nat}

def IsWhole (row : ScalarPrim) : Prop := row.isInteger = true ∨ row.category = .char

theorem IsWhole.category {row : ScalarPrim} (whole : IsWhole row) : row.category ≠ .float ∧ row.category ≠ .bool := by
  cases row with
  | float | double | bool => obtain whole | whole := whole <;> cases whole
  | _ => exact ⟨nofun, nofun⟩

theorem IsWhole.eq_char {row : ScalarPrim} (char : row.category = .char) : row = .char := by
  cases row with
  | char => rfl
  | _ => cases char

theorem stagedRow_of_int (family : switchFamilyOfKind type = .int) :
    ∃ row, stagedRow type = some row ∧ IsWhole row := by
  cases type with
  | string => cases family
  | enum => exact ⟨.int32, rfl, .inl rfl⟩
  | scalar row =>
    refine ⟨row, rfl, ?_⟩
    cases row with
    | float | double | bool => cases family
    | char => exact .inr rfl
    | _ => exact .inl rfl

theorem kind_whole (family : switchFamilyOfKind type = .int) :
    IsWhole (switchCompareOf type).kind ∧ (switchCompareOf type).isString = false := by
  cases type with
  | string => cases family
  | enum => exact ⟨.inl rfl, rfl⟩
  | scalar row =>
    cases row with
    | float | double | bool => cases family
    | char => exact ⟨.inr rfl, rfl⟩
    | _ => exact ⟨.inl rfl, rfl⟩

theorem number_of_staged {row : ScalarPrim} (staged : stagedRow type = some row) :
    type.number cell = row.value cell := by
  rw [SwitchType.number, staged]

theorem wrap_eq_iff {kind : ScalarPrim} {v w : Int} : kind.wrap v = kind.wrap w ↔ v % kind.span = w % kind.span := by
  refine ⟨fun same => ?_, NarrowCells.wrap_congr⟩
  rw [← NarrowCells.wrap_emod, same, NarrowCells.wrap_emod]

theorem castSlot_cmp {row kind : ScalarPrim} (whole : IsWhole row) (whole' : IsWhole kind) :
    (castSlot unit row kind cell).bind (cmpEntry unit .equal kind slot) =
      if kind = .char ∧ row ≠ .char ∧ isScalarValue (row.value cell) = false then none
      else some (decide ((slot : Int) % kind.span = row.value cell % kind.span)) := by
  have compares (r : Nat) (v : Int) (holds : kind.value r = kind.wrap v) :
      cmpEntry unit .equal kind slot r = some (decide ((slot : Int) % kind.span = v % kind.span)) := by
    rw [cmpEntry, if_neg fun both => whole'.category.2 both.1, if_neg whole'.category.1, CmpOp.run, holds,
      ScalarPrim.value]
    exact congrArg some (decide_eq_decide.mpr wrap_eq_iff)
  by_cases same : row = kind
  · subst same
    rw [castSlot, if_pos rfl, Option.bind_some, if_neg fun both => both.2.1 both.1]
    refine compares cell (row.value cell) (NarrowCells.wrap_congr ?_)
    rw [ScalarPrim.value, NarrowCells.wrap_emod]
  · have noBool : ¬ (row.category = .bool ∨ kind.category = .bool) :=
      fun either => either.elim whole.category.2 whole'.category.2
    rw [castSlot, if_neg same, castCell, if_neg noBool, if_neg whole.category.1]
    by_cases raises : kind.category = .char ∧ isScalarValue (row.value cell) = false
    · have char : kind = .char := IsWhole.eq_char raises.1
      rw [if_pos raises, if_pos ⟨char, fun other => same (other.trans char.symm), raises.2⟩]
      rfl
    · rw [if_neg raises, if_neg whole'.category.1, if_neg, Option.map_some, Option.bind_some]
      · exact compares _ _ NarrowCells.value_store
      · rintro ⟨rfl, -, invalid⟩
        exact raises ⟨rfl, invalid⟩

theorem comparedEqual_iff {v : Evaluated σ}
    (family : switchFamilyOfKind type = .int ∨ switchFamilyOfKind type = .string)
    (family' : switchFamilyOfKind label.type = switchFamilyOfKind type) :
    comparedEqual unit stringsEqual (switchCompareOf type) slot label v =
      some (isEqual stringsEqual type slot label v) ↔ ToldApart type label.type slot v.cell := by
  by_cases isString : type = .string
  · subst isString
    exact iff_of_true rfl (.inl rfl)
  have int : switchFamilyOfKind type = .int := by
    refine family.resolve_right fun string => isString ?_
    cases type with
    | string => rfl
    | enum => cases string
    | scalar row => cases row <;> cases string
  obtain ⟨row, staged, whole⟩ := stagedRow_of_int (family'.trans int)
  obtain ⟨whole', notString⟩ := kind_whole int
  have char : row ≠ .char ↔ label.type ≠ .scalar .char := by
    refine not_congr ⟨fun same => ?_, fun same => ?_⟩
    · subst same
      cases found : label.type with
      | scalar other =>
        rw [found] at staged
        rw [Option.some.inj staged]
      | enum =>
        rw [found] at staged
        cases staged
      | string =>
        rw [found] at staged
        cases staged
    · rw [same] at staged
      exact (Option.some.inj staged).symm
  rw [comparedEqual, notString, if_neg Bool.false_ne_true, staged, isEqual, if_neg isString, ToldApart,
    or_iff_right isString, number_of_staged staged]
  dsimp only
  rw [castSlot_cmp whole whole', ← char]
  by_cases raises : (switchCompareOf type).kind = .char ∧ row ≠ .char ∧ isScalarValue (row.value v.cell) = false
  · rw [if_pos raises]
    refine iff_of_false nofun fun both => ?_
    rw [both.1 raises.1 raises.2.1] at raises
    cases raises.2.2
  · have casts : (switchCompareOf type).kind = .char → row ≠ .char → isScalarValue (row.value v.cell) = true :=
      fun kind other => by_contra fun invalid => raises ⟨kind, other, Bool.not_eq_true _ ▸ invalid⟩
    rw [if_neg raises, and_iff_right casts, Option.some.injEq, decide_eq_decide]

theorem runBy_eq_iff {sw : Switch σ} {world : σ} {tests : Nat → Operand σ → Evaluated σ → Option Bool}
    {equals : Nat → Operand σ → Evaluated σ → Bool} :
    sw.runBy tests world = sw.runBy (fun slot label v => some (equals slot label v)) world ↔
      ∀ v, sw.cond.eval world = some v → Reached (equals v.cell)
        (fun label w => tests v.cell label w = some (equals v.cell label w)) (entries 0 sw.cases) v.world := by
  unfold Switch.runBy
  cases sw.cond.eval world with
  | none => exact iff_of_true rfl fun v found => by cases found
  | some v =>
    simp only [Option.some.injEq, forall_eq']
    exact select_eq_iff

theorem reached_congr {holds holds' : Operand σ → Evaluated σ → Prop} {entries : List (Entry σ)} {world : σ}
    (same : ∀ entry ∈ entries, ∀ v, holds entry.label v ↔ holds' entry.label v) :
    Reached equal holds entries world ↔ Reached equal holds' entries world := by
  induction entries generalizing world with
  | nil => exact Iff.rfl
  | cons entry rest ih =>
    rw [List.forall_mem_cons] at same
    simp only [Reached, same.1, ih same.2]

theorem mem_entries {i : Nat} {cases : List (Clause σ)} {entry : Entry σ} (mem : entry ∈ entries i cases) :
    ∃ clause ∈ cases, entry.label ∈ clause.label :: clause.others := by
  have inside {i index : Nat} {body : Body σ} {labels : List (Operand σ)}
      (mem : entry ∈ labelEntries i body index labels) : entry.label ∈ labels := by
    induction labels generalizing index with
    | nil => cases mem
    | cons label labels ih =>
      obtain rfl | mem := List.mem_cons.mp mem
      · exact .head _
      · exact .tail _ (ih mem)
  induction cases generalizing i with
  | nil => cases mem
  | cons clause cases ih =>
    obtain mem | mem := List.mem_append.mp mem
    · exact ⟨clause, .head _, inside mem⟩
    · obtain ⟨other, member, label⟩ := ih mem
      exact ⟨other, .tail _ member, label⟩

/-- Code that ends below 2^16 runs the clause of the first equal label, or the default body, exactly when each label
reached is told from the discriminant. Duplicates are reported exactly, unless a `ulong` meets a label less by 2^64. -/
theorem runs_clause_iff (unit : FloatUnit) (stringsEqual : σ → Nat → Nat → Bool) (sw : Switch σ) (base : Nat)
    (f : Frame σ) (labels : List SwitchLabel) (accepted : sw.Accepted) (small : sw.locEnd base < 2 ^ 16) :
    (Computes (sw.runs unit stringsEqual base f) (sw.meaning stringsEqual f.world) ∧
        (checkDuplicateCaseLabels unit labels ≠ [] ↔ TwoOf (SameValue unit) labels)) ↔
      (∀ v, sw.cond.eval f.world = some v → Reached (isEqual stringsEqual sw.cond.type v.cell)
        (fun label w => ToldApart sw.cond.type label.type v.cell w.cell) (entries 0 sw.cases) v.world) ∧
        (TwoOf (Wraps unit) labels → TwoOf (SameValue unit) labels) := by
  refine and_congr ?_ duplicates_reported_iff
  have computed : Computes (sw.runs unit stringsEqual base f) _ := does_switch sw base f small
  have asMeant : Computes (sw.runs unit stringsEqual base f) (sw.meaning stringsEqual f.world) ↔
      sw.runBy (comparedEqual unit stringsEqual sw.compare) f.world = sw.meaning stringsEqual f.world :=
    ⟨fun meant => computed.unique meant, fun same => same ▸ computed⟩
  rw [asMeant, Switch.meaning, runBy_eq_iff]
  refine forall₂_congr fun v _ => reached_congr fun entry mem w => ?_
  obtain ⟨clause, member, label⟩ := mem_entries mem
  exact comparedEqual_iff accepted.cond (accepted.labels clause member entry.label label)

end Apart

def fixed (type : SwitchType) (size : Nat) (emits : 0 < size) (cell : Nat) : Operand Unit where
  type := type
  size := size
  emits := emits
  eval _ := some ⟨(), cell, 0, 0⟩

def callLabel (returned : Nat) : Switch Unit where
  cond := fixed (.scalar .int32) 6 (by decide) 1
  cases := [⟨fixed (.scalar .long) 9 (by decide) returned, [], ⟨4, fun _ => .completes ()⟩⟩]
  default := none

def start : Frame Unit := ⟨(), fun _ => 0, 0⟩

theorem callLabel_accepted (returned : Nat) : (callLabel returned).Accepted where
  cond := .inl rfl
  labels := by
    intro clause member label among
    rw [List.mem_singleton.mp member] at among
    rw [List.mem_singleton.mp among]
    rfl

theorem wide_label_matches :
    (callLabel (2 ^ 32 + 1)).Accepted ∧ (callLabel (2 ^ 32 + 1)).locEnd 0 < 2 ^ 16 ∧
      ¬ Computes ((callLabel (2 ^ 32 + 1)).runs NarrowCells.noFloats (fun _ _ _ => false) 0 start)
        ((callLabel (2 ^ 32 + 1)).meaning (fun _ _ _ => false) ()) := by
  refine ⟨callLabel_accepted _, by decide, fun meant => ?_⟩
  have runs : Computes ((callLabel (2 ^ 32 + 1)).runs NarrowCells.noFloats (fun _ _ _ => false) 0 start)
      ((callLabel (2 ^ 32 + 1)).runBy
        (comparedEqual NarrowCells.noFloats (fun _ _ _ => false) (callLabel (2 ^ 32 + 1)).compare) ()) :=
    does_switch _ 0 start (by decide)
  have events := congrArg Prod.fst (runs.unique meant)
  revert events
  decide

theorem runs_clause_callLabel :
    Computes ((callLabel 1).runs NarrowCells.noFloats (fun _ _ _ => false) 0 start)
        ((callLabel 1).meaning (fun _ _ _ => false) start.world) ∧
      (checkDuplicateCaseLabels NarrowCells.noFloats [] ≠ [] ↔ TwoOf (SameValue NarrowCells.noFloats) []) := by
  refine (runs_clause_iff NarrowCells.noFloats (fun _ _ _ => false) (callLabel 1) 0 start [] (callLabel_accepted 1)
    (by decide)).mpr ⟨?_, ?_⟩
  · rintro v ⟨⟩ w ⟨⟩
    exact ⟨.inr ⟨nofun, by decide⟩, fun _ => trivial⟩
  · rintro ⟨a, b, sublist, -⟩
    cases sublist

end NLang.Backend.Switches
