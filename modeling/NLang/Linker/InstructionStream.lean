import NLang.Linker.Remap

/-!
# Remapping keeps the instruction stream

The body of a function before and after remapping, instruction by instruction, against the operands that the
handlers read.
-/

namespace NLang.Linker
open NLang.Library.Words NLang.Vm

inductive TableSlot where
  | direct (off : Nat) (table : Table)
  | byKind (kindOff : Nat)

def tableSlot (op : OpCode) : Option TableSlot :=
  op.placed.findSome? fun (off, operand) =>
    match operand with
    | .index table => some (.direct off table)
    | .owner => (op.placed.find? fun (_, operand) => operand = .ownerKind).map fun (kindOff, _) => .byKind kindOff
    | _ => none

theorem tableOperands_eq (op : OpCode) (instr : Bytes) :
    op.tableOperands instr =
      match tableSlot op with
      | none => []
      | some (.direct off table) => [(off, table)]
      | some (.byKind kindOff) => ((ownerTable (wordAt 2 instr kindOff)).map fun table => (1, table)).toList := by
  cases op <;> rfl

theorem tableSlot_direct {op : OpCode} {off : Nat} {table : Table} (slot : tableSlot op = some (.direct off table)) :
    1 ≤ off ∧ off + 2 ≤ op.size := by
  cases op <;> cases slot <;> decide

theorem tableSlot_byKind {op : OpCode} {kindOff : Nat} (slot : tableSlot op = some (.byKind kindOff)) :
    3 ≤ kindOff ∧ kindOff + 2 = op.size := by
  cases op <;> cases slot <;> decide

section Patches
variable (maps : NcuOperandMaps)

def patchSlot (bc : Bytes) (pos : Nat) : Option TableSlot → Except RemapError Bytes
  | none => .ok bc
  | some (.direct off table) => patchOperand maps bc (pos + off) table
  | some (.byKind kindOff) => do
      let kind ← readUint16 bc (pos + kindOff)
      patchOperand maps bc (pos + 1) (if kind = 1 then .interfaces else .classes)

def patchedSlot (op : OpCode) : Option TableSlot := if op = .opAllocArrayDyn then none else tableSlot op

theorem patchOperands_eq (bc : Bytes) (pos : Nat) (op : OpCode) :
    patchOperands maps bc pos op = patchSlot maps bc pos (patchedSlot op) := by
  have later : ∀ x : Except RemapError Bytes, (x >>= fun bc => (.ok bc : Except RemapError Bytes) >>= .ok) = x := by
    intro x
    cases x <;> rfl
  cases op <;> first
    | rfl
    | exact later _

def patchAt (instr : Bytes) (off : Nat) (table : Table) : Except RemapError Bytes :=
  match maps.table table (wordAt 2 instr off) with
  | none => .error (.unmapped table (wordAt 2 instr off))
  | some newv => .ok (overwrite instr off (putWord 2 newv))

def patchedOperand (instr : Bytes) : Option (Nat × Table) :=
  ((opcodeOf instr).bind patchedSlot).map fun slot =>
    match slot with
    | .direct off table => (off, table)
    | .byKind kindOff => (1, if wordAt 2 instr kindOff = 1 then .interfaces else .classes)

def patchInstr (instr : Bytes) : Except RemapError Bytes :=
  match patchedOperand instr with
  | none => .ok instr
  | some (off, table) => patchAt maps instr off table

def WholeInstr (instr : Bytes) : Prop := ∃ op, opcodeOf instr = some op ∧ instr.length = op.size

variable {maps}

theorem patchOperand_of_read {bc : Bytes} {off oldv : Nat} (reads : readUint16 bc off = .ok oldv) (table : Table) :
    patchOperand maps bc off table =
      match maps.table table oldv with
      | none => .error (.unmapped table oldv)
      | some newv => .ok (overwrite bc off (putWord 2 newv)) := by
  unfold patchOperand
  rw [reads]
  rfl

theorem patchOperand_append {instr : Bytes} {off : Nat} (inside : Inside instr off 2) (table : Table) (before rest : Bytes) :
    patchOperand maps (before ++ (instr ++ rest)) (before.length + off) table =
      (patchAt maps instr off table).map fun instr' => before ++ (instr' ++ rest) := by
  have reads : readUint16 (before ++ (instr ++ rest)) (before.length + off) = .ok (wordAt 2 instr off) := by
    unfold readUint16
    rw [wordAt_append_right, wordAt_append_left inside, if_pos]
    unfold Inside at inside ⊢
    simp only [List.length_append]
    omega
  rw [patchOperand_of_read reads]
  unfold patchAt
  cases maps.table table (wordAt 2 instr off) with
  | none => rfl
  | some newv =>
    show Except.ok _ = Except.ok _
    rw [overwrite_append_right, overwrite_append_left]
    rw [putWord_length]
    exact inside

theorem patchedOperand_inside {instr : Bytes} {operand : Nat × Table} (whole : WholeInstr instr)
    (patched : patchedOperand instr = some operand) : 1 ≤ operand.1 ∧ Inside instr operand.1 2 := by
  obtain ⟨op, opcode, size⟩ := whole
  unfold patchedOperand at patched
  rw [opcode, Option.bind_some, Option.map_eq_some_iff] at patched
  obtain ⟨slot, found, rfl⟩ := patched
  unfold patchedSlot at found
  split at found
  · cases found
  · unfold Inside
    cases slot with
    | direct off table =>
      have bounds := tableSlot_direct found
      constructor <;> simp only <;> omega
    | byKind kindOff =>
      have bounds := tableSlot_byKind found
      constructor <;> simp only <;> omega

theorem patchOperands_whole {instr : Bytes} {op : OpCode} (opcode : opcodeOf instr = some op)
    (size : instr.length = op.size) (before rest : Bytes) :
    patchOperands maps (before ++ (instr ++ rest)) before.length op =
      (patchInstr maps instr).map fun instr' => before ++ (instr' ++ rest) := by
  rw [patchOperands_eq]
  have inside : ∀ operand, patchedOperand instr = some operand → 1 ≤ operand.1 ∧ Inside instr operand.1 2 :=
    fun _ => patchedOperand_inside ⟨op, opcode, size⟩
  unfold patchInstr
  unfold patchedOperand at inside ⊢
  rw [opcode, Option.bind_some] at inside ⊢
  cases slot : patchedSlot op with
  | none => rfl
  | some place =>
    rw [slot] at inside
    cases place with
    | direct off table => exact patchOperand_append (inside _ rfl).2 table before rest
    | byKind kindOff =>
      have kindInside : Inside instr kindOff 2 := by
        unfold patchedSlot at slot
        split at slot
        · cases slot
        · have bounds := tableSlot_byKind slot
          unfold Inside
          omega
      have reads : readUint16 (before ++ (instr ++ rest)) (before.length + kindOff) =
          .ok (wordAt 2 instr kindOff) := by
        unfold readUint16
        rw [wordAt_append_right, wordAt_append_left kindInside, if_pos]
        unfold Inside at kindInside ⊢
        simp only [List.length_append]
        omega
      rw [patchSlot, reads]
      exact patchOperand_append (inside _ rfl).2 _ before rest

theorem patchInstr_length {instr instr' : Bytes} (whole : WholeInstr instr)
    (patched : patchInstr maps instr = .ok instr') : instr'.length = instr.length := by
  unfold patchInstr at patched
  split at patched
  · cases patched
    rfl
  · rename_i off table found
    have inside := (patchedOperand_inside whole found).2
    unfold patchAt at patched
    split at patched
    · cases patched
    · cases patched
      exact overwrite_length (by rw [putWord_length]; exact inside)

theorem patchInstr_opcode {instr instr' : Bytes} (whole : WholeInstr instr)
    (patched : patchInstr maps instr = .ok instr') : opcodeOf instr' = opcodeOf instr := by
  have sameHead : instr'[0]? = instr[0]? := by
    unfold patchInstr at patched
    split at patched
    · cases patched
      rfl
    · rename_i off table found
      obtain ⟨behind, inside⟩ := patchedOperand_inside whole found
      unfold patchAt at patched
      split at patched
      · cases patched
      · cases patched
        exact overwrite_getElem?_of_outside (by rw [putWord_length]; exact inside) (.inl behind)
  unfold opcodeOf
  rw [List.head?_eq_getElem?, List.head?_eq_getElem?, sameHead]

theorem patchInstr_whole {instr instr' : Bytes} (whole : WholeInstr instr)
    (patched : patchInstr maps instr = .ok instr') : WholeInstr instr' := by
  have sameLength := patchInstr_length whole patched
  have sameOpcode := patchInstr_opcode whole patched
  obtain ⟨op, opcode, size⟩ := whole
  exact ⟨op, sameOpcode.trans opcode, sameLength.trans size⟩

end Patches

theorem walk_cons (fuel : Nat) (code : UInt8) (rest : Bytes) {op : OpCode} (known : OpCode.ofByte code = some op)
    (fits : op.size ≤ rest.length + 1) :
    walk (fuel + 1) (code :: rest) =
      ((code :: rest).take op.size :: (walk fuel ((code :: rest).drop op.size)).1,
        (walk fuel ((code :: rest).drop op.size)).2) := by
  rw [walk, known]
  simp only [if_pos fits]

theorem walk_truncated (fuel : Nat) (code : UInt8) (rest : Bytes) {op : OpCode} (known : OpCode.ofByte code = some op)
    (cut : ¬ op.size ≤ rest.length + 1) : walk (fuel + 1) (code :: rest) = ([], code :: rest) := by
  rw [walk, known]
  simp only [if_neg cut]

theorem walk_unknown (fuel : Nat) (code : UInt8) (rest : Bytes) (unknown : OpCode.ofByte code = none) :
    walk (fuel + 1) (code :: rest) = ([], code :: rest) := by
  rw [walk, unknown]

theorem walk_whole (fuel : Nat) (body : Bytes) : ∀ instr ∈ (walk fuel body).1, WholeInstr instr := by
  fun_induction walk fuel body with
  | case1 => exact fun instr member => by cases member
  | case2 => exact fun instr member => by cases member
  | case3 => exact fun instr member => by cases member
  | case5 => exact fun instr member => by cases member
  | case4 fuel code rest op known fits instrs tail walked ih =>
    rw [walked] at ih
    intro instr member
    rcases List.mem_cons.mp member with rfl | later
    · refine ⟨op, ?_, ?_⟩
      · unfold opcodeOf
        rw [List.head?_take, if_neg (Nat.ne_of_gt op.size_pos)]
        exact known
      · rw [List.length_take, List.length_cons]
        exact Nat.min_eq_left fits
    · exact ih instr later

theorem walk_flatten {instrs : List Bytes} (whole : ∀ instr ∈ instrs, WholeInstr instr) (fuel : Nat)
    (enough : instrs.flatten.length ≤ fuel) : walk fuel instrs.flatten = (instrs, []) := by
  induction instrs generalizing fuel with
  | nil => cases fuel <;> rfl
  | cons instr rest ih =>
    obtain ⟨first, later⟩ := List.forall_mem_cons.mp whole
    obtain ⟨op, opcode, size⟩ := first
    rw [List.flatten_cons] at enough ⊢
    have positive := op.size_pos
    cases instr with
    | nil => cases opcode
    | cons code operands =>
      cases fuel with
      | zero => simp at enough
      | succ fuel =>
        have fits : op.size ≤ (operands ++ rest.flatten).length + 1 := by
          simp only [List.length_cons, List.length_append] at size ⊢
          omega
        rw [List.cons_append, walk_cons fuel code _ opcode fits, ← List.cons_append,
          List.take_append_of_le_length (Nat.le_of_eq size.symm), List.take_of_length_le (Nat.le_of_eq size),
          List.drop_append_of_le_length (Nat.le_of_eq size.symm), List.drop_of_length_le (Nat.le_of_eq size),
          List.nil_append, ih later fuel]
        simp only [List.length_append, List.length_cons] at enough size
        omega

section Loop
variable {maps : NcuOperandMaps}

theorem patchOperand_length {bc bc' : Bytes} {off : Nat} {table : Table}
    (patched : patchOperand maps bc off table = .ok bc') : bc'.length = bc.length := by
  by_cases inside : Inside bc off 2
  · rw [patchOperand_of_read (if_pos inside)] at patched
    split at patched
    · cases patched
    · cases patched
      exact overwrite_length (by rw [putWord_length]; exact inside)
  · unfold patchOperand readUint16 at patched
    rw [if_neg inside] at patched
    cases patched

theorem patchOperands_length {bc bc' : Bytes} {pos : Nat} {op : OpCode}
    (patched : patchOperands maps bc pos op = .ok bc') : bc'.length = bc.length := by
  rw [patchOperands_eq] at patched
  cases slot : patchedSlot op with
  | none =>
    rw [slot] at patched
    cases patched
    rfl
  | some place =>
    rw [slot] at patched
    cases place with
    | direct off table => exact patchOperand_length patched
    | byKind kindOff =>
      rw [patchSlot] at patched
      cases read : readUint16 bc (pos + kindOff) with
      | error e =>
        rw [read] at patched
        cases patched
      | ok kind =>
        rw [read] at patched
        exact patchOperand_length patched

theorem remapLoop_end {bc : Bytes} {pos : Nat} (fuel : Nat) (visited : List Nat) (ended : bc.length ≤ pos) :
    remapLoop maps fuel bc pos visited = .ok (bc, visited) := by
  cases fuel with
  | zero => rfl
  | succ fuel => rw [remapLoop, List.getElem?_eq_none ended]

def remapTail (maps : NcuOperandMaps) (done tail : Bytes) (visited : List Nat) :
    Except RemapError (Bytes × List Nat) :=
  match tail with
  | [] => .ok (done, visited)
  | code :: rest =>
    match OpCode.ofByte code with
    | none => .error .unknownOpcode
    | some op => (patchOperands maps (done ++ code :: rest) done.length op).map (·, visited ++ [done.length])

theorem remapLoop_walk {fuel : Nat} {rest : Bytes} (enough : rest.length ≤ fuel) (before : Bytes)
    (visited : List Nat) :
    remapLoop maps fuel (before ++ rest) before.length visited =
      ((walk fuel rest).1.mapM (patchInstr maps)).bind fun instrs =>
        remapTail maps (before ++ instrs.flatten) (walk fuel rest).2
          (visited ++ starts before.length (walk fuel rest).1) := by
  induction fuel generalizing rest before visited with
  | zero =>
    cases List.length_eq_zero_iff.mp (Nat.le_zero.mp enough)
    show Except.ok (before ++ [], visited) = Except.ok (before ++ [], visited ++ [])
    rw [List.append_nil visited]
  | succ fuel ih =>
    cases rest with
    | nil =>
      rw [remapLoop_end _ _ (by simp)]
      show Except.ok (before ++ [], visited) = Except.ok (before ++ [], visited ++ [])
      rw [List.append_nil visited]
    | cons code more =>
      have here : (before ++ code :: more)[before.length]? = some code := by simp
      rw [remapLoop, here]
      simp only
      cases known : OpCode.ofByte code with
      | none =>
        rw [walk_unknown fuel code more known]
        show _ = remapTail maps (before ++ []) (code :: more) (visited ++ [])
        rw [remapTail, known]
      | some op =>
        simp only [instructionStride_eq]
        by_cases fits : op.size ≤ more.length + 1
        · rw [walk_cons fuel code more known fits]
          generalize instr_eq : (code :: more).take op.size = instr
          generalize rest_eq : (code :: more).drop op.size = rest
          have size : instr.length = op.size := by
            rw [← instr_eq, List.length_take, List.length_cons]
            exact Nat.min_eq_left fits
          have opcode : opcodeOf instr = some op := by
            unfold opcodeOf
            rw [← instr_eq, List.head?_take, if_neg (Nat.ne_of_gt op.size_pos)]
            exact known
          have split : code :: more = instr ++ rest := by rw [← instr_eq, ← rest_eq, List.take_append_drop]
          have smaller : rest.length ≤ fuel := by
            have positive := op.size_pos
            have whole := congrArg List.length split
            rw [List.length_append] at whole
            omega
          rw [split, patchOperands_whole opcode size, List.mapM_cons]
          cases patched : patchInstr maps instr with
          | error e => rfl
          | ok instr' =>
            have sameLength := patchInstr_length ⟨op, opcode, size⟩ patched
            have next := ih smaller (before ++ instr') (visited ++ [before.length])
            rw [List.length_append, sameLength, size, List.append_assoc] at next
            refine next.trans ?_
            rw [starts, size]
            show _ = Except.bind (Except.bind (List.mapM (patchInstr maps) (walk fuel rest).1) _) _
            cases List.mapM (patchInstr maps) (walk fuel rest).1 with
            | error e => rfl
            | ok instrs =>
              show remapTail maps _ _ _ = remapTail maps _ _ _
              rw [List.flatten_cons, List.append_assoc, List.append_assoc]
              rfl
        · rw [walk_truncated fuel code more known fits]
          show _ = remapTail maps (before ++ []) (code :: more) (visited ++ [])
          rw [remapTail, known, List.append_nil, List.append_nil]
          simp only
          cases patched : patchOperands maps (before ++ code :: more) before.length op with
          | error e => rfl
          | ok bc =>
            have sameLength := patchOperands_length patched
            show remapLoop maps fuel bc _ _ = _
            rw [remapLoop_end]
            · rfl
            · simp only [sameLength, List.length_append, List.length_cons]
              omega

theorem ncuRemapBytecodeOperands_eq (maps : NcuOperandMaps) (body : Bytes) :
    ncuRemapBytecodeOperands maps body =
      ((instructions body).1.mapM (patchInstr maps)).bind fun instrs =>
        remapTail maps instrs.flatten (instructions body).2 (starts 0 (instructions body).1) :=
  remapLoop_walk (Nat.le_refl _) [] []

end Loop

section Instructions
variable (maps : NcuOperandMaps)

def mapped (instr : Bytes) (operand : Nat × Table) : Option Nat := maps.table operand.2 (wordAt 2 instr operand.1)

/-- Every table operand goes through the map of its table, and nothing else changes. -/
structure RewritesInstr (instr instr' : Bytes) : Prop where
  length : instr'.length = instr.length
  operands : ∀ operand ∈ tableOperands instr, mapped maps instr operand = some (wordAt 2 instr' operand.1)
  others : ∀ i, (∀ operand ∈ tableOperands instr, i < operand.1 ∨ operand.1 + 2 ≤ i) → instr'[i]? = instr[i]?

def isMissed (instr : Bytes) : Bool := opcodeOf instr = some .opAllocArrayDyn

def isStray (instr : Bytes) : Bool :=
  (opcodeOf instr).any fun op => (op.ownerKind instr).any fun kind => (ownerTable kind).isNone

def Unmapped (instr : Bytes) : Prop := ∃ operand ∈ tableOperands instr, mapped maps instr operand = none

structure RemapsExactly (instr : Bytes) : Prop where
  fits : ∀ operand ∈ tableOperands instr, ∃ newv < 2 ^ 16, mapped maps instr operand = some newv
  missed : isMissed instr = true →
    ∀ operand ∈ tableOperands instr, mapped maps instr operand = some (wordAt 2 instr operand.1)
  stray : isStray instr = true →
    ∃ newv, mapped maps instr (1, .classes) = some newv ∧ newv % 2 ^ 16 = wordAt 2 instr 1

inductive Agreement (instr : Bytes) : Prop where
  | none (operands : tableOperands instr = []) (patched : patchedOperand instr = .none)
      (found : isMissed instr = false) (known : isStray instr = false)
  | same (operand : Nat × Table) (operands : tableOperands instr = [operand])
      (patched : patchedOperand instr = some operand) (found : isMissed instr = false) (known : isStray instr = false)
  | missed (operands : tableOperands instr = [(3, .arrayTypes)]) (patched : patchedOperand instr = .none)
      (missed : isMissed instr = true) (known : isStray instr = false)
  | stray (operands : tableOperands instr = []) (patched : patchedOperand instr = some (1, .classes))
      (found : isMissed instr = false) (stray : isStray instr = true)

theorem isStray_of_slot {instr : Bytes} {op : OpCode} (opcode : opcodeOf instr = some op) :
    isStray instr =
      match tableSlot op with
      | some (.byKind kindOff) => (ownerTable (wordAt 2 instr kindOff)).isNone
      | _ => false := by
  unfold isStray
  rw [opcode, Option.any_some]
  cases op <;> rfl

theorem agreement {instr : Bytes} (whole : WholeInstr instr) : Agreement instr := by
  obtain ⟨op, opcode, -⟩ := whole
  have operands : tableOperands instr = op.tableOperands instr := by
    unfold tableOperands
    rw [opcode]
    rfl
  have stray := isStray_of_slot opcode
  rw [tableOperands_eq] at operands
  by_cases isAlloc : op = .opAllocArrayDyn
  · subst isAlloc
    refine .missed operands ?_ ?_ stray
    · unfold patchedOperand
      rw [opcode]
      rfl
    · unfold isMissed
      rw [opcode]
      rfl
  · have found : isMissed instr = false := by
      unfold isMissed
      rw [opcode]
      exact decide_eq_false fun same => isAlloc (Option.some.inj same)
    have patched : patchedOperand instr = (tableSlot op).map fun slot =>
        match slot with
        | .direct off table => (off, table)
        | .byKind kindOff => (1, if wordAt 2 instr kindOff = 1 then .interfaces else .classes) := by
      unfold patchedOperand patchedSlot
      rw [opcode, Option.bind_some, if_neg isAlloc]
    cases slot : tableSlot op with
    | none =>
      rw [slot] at operands patched stray
      exact .none operands patched found stray
    | some place =>
      rw [slot] at operands patched stray
      cases place with
      | direct off table => exact .same (off, table) operands patched found stray
      | byKind kindOff =>
        simp only [Option.map_some] at operands patched stray
        generalize wordAt 2 instr kindOff = kind at operands patched stray
        match kind with
        | 0 => exact .same _ operands patched found stray
        | 1 => exact .same _ operands patched found stray
        | kind + 2 =>
          rw [if_neg (by omega)] at patched
          exact .stray operands patched found stray

variable {maps}

theorem patchAt_ok {instr instr' : Bytes} (operand : Nat × Table)
    (patched : patchAt maps instr operand.1 operand.2 = .ok instr') :
    ∃ newv, mapped maps instr operand = some newv ∧ instr' = overwrite instr operand.1 (putWord 2 newv) := by
  unfold patchAt at patched
  split at patched
  · cases patched
  · rename_i newv found
    cases patched
    exact ⟨newv, found, rfl⟩

theorem RewritesInstr.of_unchanged {instr : Bytes}
    (operands : ∀ operand ∈ tableOperands instr, mapped maps instr operand = some (wordAt 2 instr operand.1)) :
    RewritesInstr maps instr instr := ⟨rfl, operands, fun _ _ => rfl⟩

theorem rewrites_same_iff {instr : Bytes} {operand : Nat × Table} {newv : Nat}
    (operands : tableOperands instr = [operand]) (inside : Inside instr operand.1 2)
    (found : mapped maps instr operand = some newv) :
    RewritesInstr maps instr (overwrite instr operand.1 (putWord 2 newv)) ↔ newv < 2 ^ 16 := by
  have written := wordAt_overwrite newv inside
  have inside' : Inside instr operand.1 (putWord 2 newv).length := by
    rw [putWord_length]
    exact inside
  constructor
  · intro rewrites
    have read := rewrites.operands operand (by rw [operands]; exact List.mem_singleton_self _)
    rw [found, written] at read
    have same := Option.some.inj read
    have bound := Nat.mod_lt newv (show 0 < 256 ^ 2 by decide)
    have word : (256 : Nat) ^ 2 = 2 ^ 16 := by decide
    omega
  · intro small
    refine ⟨overwrite_length inside', ?_, ?_⟩
    · intro other member
      rw [operands] at member
      cases List.mem_singleton.mp member
      have same : newv % 256 ^ 2 = newv := Nat.mod_eq_of_lt small
      rw [found, written, same]
    · intro i outside
      apply overwrite_getElem?_of_outside inside'
      rw [putWord_length]
      exact outside operand (by rw [operands]; exact List.mem_singleton_self _)

theorem rewrites_stray_iff {instr : Bytes} {off newv : Nat} (operands : tableOperands instr = [])
    (inside : Inside instr off 2) :
    RewritesInstr maps instr (overwrite instr off (putWord 2 newv)) ↔ newv % 2 ^ 16 = wordAt 2 instr off := by
  have written := wordAt_overwrite newv inside
  have inside' : Inside instr off (putWord 2 newv).length := by
    rw [putWord_length]
    exact inside
  have sameLength := overwrite_length inside'
  constructor
  · intro rewrites
    have unchanged : overwrite instr off (putWord 2 newv) = instr := by
      apply List.ext_getElem?
      intro i
      apply rewrites.others i
      intro operand member
      rw [operands] at member
      cases member
    rw [unchanged] at written
    exact written.symm
  · intro same
    have cut : (window instr off 2).length = 2 := by
      unfold Inside at inside
      unfold window
      rw [List.length_take, List.length_drop]
      omega
    have sameWord : putWord 2 newv = window instr off 2 := by
      have again := putWord_wordOf (window instr off 2)
      rw [cut] at again
      have low : putWord 2 (newv % 2 ^ 16) = putWord 2 newv := by
        simp only [putWord, List.cons.injEq, and_true]
        constructor
        · rw [← UInt8.toNat_inj]
          simp
        · rw [← UInt8.toNat_inj]
          simp
          omega
      rw [← low, same]
      exact again
    have unchanged : overwrite instr off (putWord 2 newv) = instr := by
      unfold overwrite
      rw [putWord_length, sameWord]
      unfold window
      rw [List.append_assoc, show off + 2 = off + 2 from rfl, ← List.drop_drop, List.take_append_drop,
        List.take_append_drop]
    rw [unchanged]
    apply RewritesInstr.of_unchanged
    intro operand member
    rw [operands] at member
    cases member

theorem rewrites_iff {instr instr' : Bytes} (whole : WholeInstr instr) (patched : patchInstr maps instr = .ok instr') :
    RewritesInstr maps instr instr' ↔ RemapsExactly maps instr := by
  unfold patchInstr at patched
  cases agreement whole with
  | none operands unpatched found known =>
    rw [unpatched] at patched
    cases patched
    constructor
    · intro _
      refine ⟨?_, ?_, ?_⟩
      · rw [operands]
        exact fun operand member => by cases member
      · rw [operands]
        exact fun _ operand member => by cases member
      · rw [known]
        exact fun stray => by cases stray
    · intro _
      apply RewritesInstr.of_unchanged
      rw [operands]
      exact fun operand member => by cases member
  | same operand operands place found known =>
    rw [place] at patched
    obtain ⟨newv, read, rfl⟩ := patchAt_ok operand patched
    rw [rewrites_same_iff operands (patchedOperand_inside whole place).2 read]
    constructor
    · intro small
      refine ⟨?_, ?_, ?_⟩
      · rw [operands]
        intro other member
        cases List.mem_singleton.mp member
        exact ⟨newv, small, read⟩
      · rw [found]
        exact fun missed => by cases missed
      · rw [known]
        exact fun stray => by cases stray
    · intro exactly_
      obtain ⟨other, small, read'⟩ := exactly_.fits operand (by rw [operands]; exact List.mem_singleton_self _)
      rw [read] at read'
      cases read'
      exact small
  | missed operands unpatched missed known =>
    rw [unpatched] at patched
    cases patched
    constructor
    · intro rewrites
      refine ⟨?_, fun _ => rewrites.operands, ?_⟩
      · intro operand member
        exact ⟨_, wordAt_lt 2 instr operand.1, rewrites.operands operand member⟩
      · rw [known]
        exact fun stray => by cases stray
    · intro exactly_
      exact RewritesInstr.of_unchanged (exactly_.missed missed)
  | stray operands place found stray =>
    rw [place] at patched
    obtain ⟨newv, read, rfl⟩ := patchAt_ok (1, .classes) patched
    rw [rewrites_stray_iff operands (patchedOperand_inside whole place).2]
    constructor
    · intro same
      refine ⟨?_, ?_, fun _ => ⟨newv, read, same⟩⟩
      · rw [operands]
        exact fun operand member => by cases member
      · rw [operands]
        exact fun _ operand member => by cases member
    · intro exactly_
      obtain ⟨other, read', same⟩ := exactly_.stray stray
      rw [read] at read'
      cases read'
      exact same

def Fails (maps : NcuOperandMaps) (instr : Bytes) : Prop :=
  ∃ operand, patchedOperand instr = some operand ∧ mapped maps instr operand = none

theorem fails_iff {instr : Bytes} (whole : WholeInstr instr) :
    Fails maps instr ↔ (isMissed instr = false ∧ Unmapped maps instr) ∨
      (isStray instr = true ∧ mapped maps instr (1, .classes) = none) := by
  unfold Fails Unmapped
  cases agreement whole with
  | none operands patched found known => simp [operands, patched, known]
  | same operand operands patched found known => simp [operands, patched, found, known]
  | missed operands patched missed known => simp [patched, missed, known]
  | stray operands patched found stray => simp [operands, patched, stray]

theorem patchInstr_error {instr : Bytes} (fails : Fails maps instr) :
    ∃ table index, patchInstr maps instr = .error (.unmapped table index) := by
  obtain ⟨operand, patched, unmapped⟩ := fails
  refine ⟨operand.2, wordAt 2 instr operand.1, ?_⟩
  unfold patchInstr patchAt
  unfold mapped at unmapped
  rw [patched]
  simp only [unmapped]

theorem patchInstr_ok {instr : Bytes} (passes : ¬ Fails maps instr) : ∃ instr', patchInstr maps instr = .ok instr' := by
  unfold patchInstr
  cases patched : patchedOperand instr with
  | none => exact ⟨instr, rfl⟩
  | some operand =>
    have someIndex : mapped maps instr operand ≠ none := fun unmapped => passes ⟨operand, patched, unmapped⟩
    obtain ⟨newv, found⟩ := Option.ne_none_iff_exists'.mp someIndex
    unfold mapped at found
    refine ⟨overwrite instr operand.1 (putWord 2 newv), ?_⟩
    unfold patchAt
    simp only [found]

theorem mapM_patchInstr_error {instrs : List Bytes} (fails : ∃ instr ∈ instrs, Fails maps instr) :
    ∃ table index, instrs.mapM (patchInstr maps) = .error (.unmapped table index) := by
  induction instrs with
  | nil =>
    obtain ⟨instr, member, -⟩ := fails
    cases member
  | cons first rest ih =>
    rw [List.mapM_cons]
    by_cases firstFails : Fails maps first
    · obtain ⟨table, index, patched⟩ := patchInstr_error firstFails
      rw [patched]
      exact ⟨table, index, rfl⟩
    · obtain ⟨instr', patched⟩ := patchInstr_ok firstFails
      obtain ⟨instr, member, instrFails⟩ := fails
      rcases List.mem_cons.mp member with rfl | later
      · exact absurd instrFails firstFails
      · obtain ⟨table, index, failed⟩ := ih ⟨instr, later, instrFails⟩
        rw [patched, failed]
        exact ⟨table, index, rfl⟩

theorem mapM_patchInstr_ok {instrs : List Bytes} (passes : ∀ instr ∈ instrs, ¬ Fails maps instr) :
    ∃ instrs', instrs.mapM (patchInstr maps) = .ok instrs' ∧
      List.Forall₂ (fun instr instr' => patchInstr maps instr = .ok instr') instrs instrs' := by
  induction instrs with
  | nil => exact ⟨[], rfl, .nil⟩
  | cons first rest ih =>
    obtain ⟨firstPasses, restPasses⟩ := List.forall_mem_cons.mp passes
    obtain ⟨instr', patched⟩ := patchInstr_ok firstPasses
    obtain ⟨instrs', patchedRest, related⟩ := ih restPasses
    refine ⟨instr' :: instrs', ?_, .cons patched related⟩
    rw [List.mapM_cons, patched, patchedRest]
    rfl

end Instructions

section Bodies
variable (maps : NcuOperandMaps) (body : Bytes)

def KeepsStream : Prop :=
  match (instructions body).2, ncuRemapBytecodeOperands maps body with
  | [], .ok (body', visited) =>
    visited = starts 0 (instructions body).1 ∧
      ∃ instrs', instructions body' = (instrs', []) ∧ starts 0 instrs' = visited ∧
        List.Forall₂ (RewritesInstr maps) (instructions body).1 instrs'
  | [], .error e =>
    (∃ table index, e = .unmapped table index) ∧ ∃ instr ∈ (instructions body).1, Unmapped maps instr
  | _ :: _, .ok _ => False
  | _ :: _, .error e => e ≠ .overrun

def CutUnmapped (tail : Bytes) : Prop :=
  ∃ op off table, opcodeOf tail = some op ∧ op ≠ .opAllocArrayDyn ∧ tableSlot op = some (.direct off table) ∧
    off + 2 ≤ tail.length ∧ mapped maps tail (off, table) = none

def Remappable : Prop :=
  match instructions body with
  | (instrs, []) =>
    (∃ instr ∈ instrs, isMissed instr = false ∧ Unmapped maps instr) ∨
    ((∃ instr ∈ instrs, Unmapped maps instr) ∧
      ∃ instr ∈ instrs, isStray instr = true ∧ mapped maps instr (1, .classes) = none) ∨
    ∀ instr ∈ instrs, RemapsExactly maps instr
  | (instrs, tail) =>
    opcodeOf tail = none ∨ CutUnmapped maps tail ∨
    (∃ instr ∈ instrs, isMissed instr = false ∧ Unmapped maps instr) ∨
    ∃ instr ∈ instrs, isStray instr = true ∧ mapped maps instr (1, .classes) = none

variable {maps body}

theorem starts_congr {instrs instrs' : List Bytes} (pos : Nat)
    (same : List.Forall₂ (fun instr instr' => instr'.length = instr.length) instrs instrs') :
    starts pos instrs' = starts pos instrs := by
  induction same generalizing pos with
  | nil => rfl
  | cons sameLength _ ih => rw [starts, starts, sameLength, ih]

theorem patched_whole {instrs instrs' : List Bytes} (whole : ∀ instr ∈ instrs, WholeInstr instr)
    (related : List.Forall₂ (fun instr instr' => patchInstr maps instr = .ok instr') instrs instrs') :
    ∀ instr' ∈ instrs', WholeInstr instr' := by
  induction related with
  | nil => exact fun _ member => by cases member
  | cons patched _ ih =>
    obtain ⟨first, rest⟩ := List.forall_mem_cons.mp whole
    exact List.forall_mem_cons.mpr ⟨patchInstr_whole first patched, ih rest⟩

theorem patched_lengths {instrs instrs' : List Bytes} (whole : ∀ instr ∈ instrs, WholeInstr instr)
    (related : List.Forall₂ (fun instr instr' => patchInstr maps instr = .ok instr') instrs instrs') :
    List.Forall₂ (fun instr instr' => instr'.length = instr.length) instrs instrs' := by
  induction related with
  | nil => exact .nil
  | cons patched _ ih =>
    obtain ⟨first, rest⟩ := List.forall_mem_cons.mp whole
    exact .cons (patchInstr_length first patched) (ih rest)

theorem patched_rewrites_iff {instrs instrs' : List Bytes} (whole : ∀ instr ∈ instrs, WholeInstr instr)
    (related : List.Forall₂ (fun instr instr' => patchInstr maps instr = .ok instr') instrs instrs') :
    List.Forall₂ (RewritesInstr maps) instrs instrs' ↔ ∀ instr ∈ instrs, RemapsExactly maps instr := by
  induction related with
  | nil =>
    constructor
    · intro _ instr member
      cases member
    · intro _
      exact .nil
  | cons patched _ ih =>
    obtain ⟨first, rest⟩ := List.forall_mem_cons.mp whole
    rw [List.forall₂_cons, List.forall_mem_cons, rewrites_iff first patched, ih rest]

theorem keepsStream_whole_iff {instrs : List Bytes} (walked : instructions body = (instrs, [])) :
    KeepsStream maps body ↔ Remappable maps body := by
  have whole : ∀ instr ∈ instrs, WholeInstr instr := by
    have each := walk_whole body.length body
    rw [show walk body.length body = (instrs, []) from walked] at each
    exact each
  have result := ncuRemapBytecodeOperands_eq maps body
  unfold KeepsStream Remappable
  rw [result, walked]
  by_cases fails : ∃ instr ∈ instrs, Fails maps instr
  · obtain ⟨table, index, failed⟩ := mapM_patchInstr_error fails
    obtain ⟨bad, badMember, badFails⟩ := fails
    rw [failed]
    show ((∃ table' index', _) ∧ ∃ instr ∈ instrs, Unmapped maps instr) ↔ _
    constructor
    · intro ⟨_, instr, member, unmapped⟩
      rcases (fails_iff (whole bad badMember)).mp badFails with here | stray
      · exact .inl ⟨bad, badMember, here⟩
      · exact .inr (.inl ⟨⟨instr, member, unmapped⟩, bad, badMember, stray⟩)
    · intro condition
      refine ⟨⟨table, index, rfl⟩, ?_⟩
      rcases condition with ⟨instr, member, -, unmapped⟩ | ⟨unmapped, -⟩ | exactly_
      · exact ⟨instr, member, unmapped⟩
      · exact unmapped
      · have bad_exact := exactly_ bad badMember
        rcases (fails_iff (whole bad badMember)).mp badFails with ⟨-, operand, inOperands, none_⟩ | ⟨stray, none_⟩
        · obtain ⟨newv, -, found⟩ := bad_exact.fits operand inOperands
          rw [none_] at found
          cases found
        · obtain ⟨newv, found, -⟩ := bad_exact.stray stray
          rw [none_] at found
          cases found
  · have passes : ∀ instr ∈ instrs, ¬ Fails maps instr := fun instr member failed => fails ⟨instr, member, failed⟩
    obtain ⟨instrs', patched, related⟩ := mapM_patchInstr_ok passes
    have whole' := patched_whole whole related
    have sameStarts := starts_congr 0 (patched_lengths whole related)
    have again : instructions instrs'.flatten = (instrs', []) := walk_flatten whole' _ (Nat.le_refl _)
    rw [patched]
    show (starts 0 instrs = starts 0 instrs ∧ _) ↔ _
    constructor
    · rintro ⟨-, other, walked', -, rewrites⟩
      rw [again] at walked'
      cases walked'
      exact .inr (.inr ((patched_rewrites_iff whole related).mp rewrites))
    · intro condition
      refine ⟨rfl, instrs', again, sameStarts, (patched_rewrites_iff whole related).mpr ?_⟩
      rcases condition with ⟨instr, member, here⟩ | ⟨-, instr, member, stray⟩ | exactly_
      · exact absurd ((fails_iff (whole instr member)).mpr (.inl here)) (passes instr member)
      · exact absurd ((fails_iff (whole instr member)).mpr (.inr stray)) (passes instr member)
      · exact exactly_

theorem readUint16_append (done : Bytes) {tail : Bytes} {off : Nat} :
    readUint16 (done ++ tail) (done.length + off) = readUint16 tail off := by
  unfold readUint16
  rw [wordAt_append_right]
  have same : Inside (done ++ tail) (done.length + off) 2 ↔ Inside tail off 2 := by
    unfold Inside
    rw [List.length_append]
    omega
  simp only [same]

theorem patchOperands_cut (maps : NcuOperandMaps) (done : Bytes) {tail : Bytes} {op : OpCode} (opcode : opcodeOf tail = some op)
    (cut : tail.length < op.size) :
    (∃ e, patchOperands maps (done ++ tail) done.length op = .error e ∧ e ≠ .overrun) ↔ CutUnmapped maps tail := by
  have same : ∀ other, opcodeOf tail = some other → other = op :=
    fun other found => Option.some.inj (found.symm.trans opcode)
  rw [patchOperands_eq]
  unfold patchedSlot
  by_cases isAlloc : op = .opAllocArrayDyn
  · rw [if_pos isAlloc]
    constructor
    · rintro ⟨e, failed, -⟩
      cases failed
    · rintro ⟨other, _, _, found, notAlloc, -⟩
      cases same other found
      exact absurd isAlloc notAlloc
  · rw [if_neg isAlloc]
    cases slot : tableSlot op with
    | none =>
      constructor
      · rintro ⟨e, failed, -⟩
        cases failed
      · rintro ⟨other, _, _, found, -, direct, -⟩
        cases same other found
        rw [slot] at direct
        cases direct
    | some place =>
      cases place with
      | byKind kindOff =>
        have bounds := tableSlot_byKind slot
        have outside : ¬ Inside tail kindOff 2 := by
          unfold Inside
          omega
        rw [patchSlot, readUint16_append, readUint16, if_neg outside]
        constructor
        · rintro ⟨e, failed, notOverrun⟩
          cases failed
          exact absurd rfl notOverrun
        · rintro ⟨other, _, _, found, -, direct, -⟩
          cases same other found
          rw [slot] at direct
          cases direct
      | direct off table =>
        rw [patchSlot]
        by_cases inside : Inside tail off 2
        · have reads : readUint16 (done ++ tail) (done.length + off) = .ok (wordAt 2 tail off) := by
            rw [readUint16_append, readUint16, if_pos inside]
          rw [patchOperand_of_read reads]
          cases read : maps.table table (wordAt 2 tail off) with
          | none =>
            constructor
            · intro _
              exact ⟨op, off, table, opcode, isAlloc, slot, inside, read⟩
            · intro _
              exact ⟨_, rfl, RemapError.noConfusion⟩
          | some newv =>
            constructor
            · rintro ⟨e, failed, -⟩
              cases failed
            · rintro ⟨other, _, _, found, -, direct, -, none_⟩
              cases same other found
              rw [slot] at direct
              cases direct
              cases read.symm.trans none_
        · rw [patchOperand, readUint16_append, readUint16, if_neg inside]
          constructor
          · rintro ⟨e, failed, notOverrun⟩
            cases failed
            exact absurd rfl notOverrun
          · rintro ⟨other, _, _, found, -, direct, fits, -⟩
            cases same other found
            rw [slot] at direct
            cases direct
            exact absurd fits inside

theorem walk_tail {fuel : Nat} {body : Bytes} (enough : body.length ≤ fuel) {op : OpCode}
    (opcode : opcodeOf (walk fuel body).2 = some op) : (walk fuel body).2.length < op.size := by
  fun_induction walk fuel body with
  | case1 rest =>
    cases List.length_eq_zero_iff.mp (Nat.le_zero.mp enough)
    cases opcode
  | case2 => cases opcode
  | case3 fuel code rest unknown =>
    change OpCode.ofByte code = some op at opcode
    rw [unknown] at opcode
    cases opcode
  | case4 fuel code rest other known fits instrs tail walked ih =>
    rw [walked] at ih
    apply ih _ opcode
    have positive := other.size_pos
    rw [List.length_drop]
    omega
  | case5 fuel code rest other known cut =>
    change OpCode.ofByte code = some op at opcode
    rw [known] at opcode
    cases opcode
    rw [List.length_cons]
    omega

theorem keepsStream_cut_iff {instrs : List Bytes} {code : UInt8} {rest : Bytes}
    (walked : instructions body = (instrs, code :: rest)) : KeepsStream maps body ↔ Remappable maps body := by
  have whole : ∀ instr ∈ instrs, WholeInstr instr := by
    have each := walk_whole body.length body
    rw [show walk body.length body = (instrs, code :: rest) from walked] at each
    exact each
  have reports : KeepsStream maps body ↔
      ∃ e, ncuRemapBytecodeOperands maps body = .error e ∧ e ≠ .overrun := by
    unfold KeepsStream
    rw [walked]
    cases ncuRemapBytecodeOperands maps body with
    | ok result => exact ⟨False.elim, fun ⟨_, failed, _⟩ => by cases failed⟩
    | error e => exact ⟨fun reported => ⟨e, rfl, reported⟩, fun ⟨_, failed, reported⟩ => by cases failed; exact reported⟩
  have anyFails : (∃ instr ∈ instrs, Fails maps instr) ↔
      (∃ instr ∈ instrs, isMissed instr = false ∧ Unmapped maps instr) ∨
        ∃ instr ∈ instrs, isStray instr = true ∧ mapped maps instr (1, .classes) = none := by
    constructor
    · rintro ⟨instr, member, failed⟩
      rcases (fails_iff (whole instr member)).mp failed with here | stray
      · exact .inl ⟨instr, member, here⟩
      · exact .inr ⟨instr, member, stray⟩
    · rintro (⟨instr, member, here⟩ | ⟨instr, member, stray⟩)
      · exact ⟨instr, member, (fails_iff (whole instr member)).mpr (.inl here)⟩
      · exact ⟨instr, member, (fails_iff (whole instr member)).mpr (.inr stray)⟩
  rw [reports, ncuRemapBytecodeOperands_eq]
  unfold Remappable
  rw [walked]
  show _ ↔ opcodeOf (code :: rest) = none ∨ CutUnmapped maps (code :: rest) ∨ _
  rw [← anyFails]
  by_cases fails : ∃ instr ∈ instrs, Fails maps instr
  · obtain ⟨table, index, failed⟩ := mapM_patchInstr_error fails
    rw [failed]
    exact ⟨fun _ => .inr (.inr fails), fun _ => ⟨_, rfl, RemapError.noConfusion⟩⟩
  · have passes : ∀ instr ∈ instrs, ¬ Fails maps instr := fun instr member failed => fails ⟨instr, member, failed⟩
    obtain ⟨instrs', patched, -⟩ := mapM_patchInstr_ok passes
    rw [patched]
    show (∃ e, remapTail maps instrs'.flatten (code :: rest) _ = .error e ∧ _) ↔ _
    rw [remapTail]
    cases known : OpCode.ofByte code with
    | none => exact ⟨fun _ => .inl known, fun _ => ⟨_, rfl, RemapError.noConfusion⟩⟩
    | some op =>
      have opcode : opcodeOf (code :: rest) = some op := known
      have cut : (code :: rest).length < op.size := by
        have ends : (walk body.length body).2 = code :: rest := congrArg Prod.snd walked
        have tail := walk_tail (Nat.le_refl body.length) (ends ▸ opcode)
        rwa [ends] at tail
      have cutIff := patchOperands_cut maps instrs'.flatten opcode cut
      simp only
      constructor
      · rintro ⟨e, failed, reported⟩
        cases patches : patchOperands maps (instrs'.flatten ++ code :: rest) instrs'.flatten.length op with
        | ok bc =>
          rw [patches] at failed
          cases failed
        | error e' =>
          rw [patches] at failed
          cases failed
          exact .inr (.inl (cutIff.mp ⟨e, patches, reported⟩))
      · rintro (unknown | cutUnmapped | failed)
        · rw [opcode] at unknown
          cases unknown
        · obtain ⟨e, patches, reported⟩ := cutIff.mpr cutUnmapped
          rw [patches]
          exact ⟨e, rfl, reported⟩
        · exact absurd failed fails

/-- Exactly the bodies of which the linker keeps the instruction stream. -/
theorem keepsStream_iff (maps : NcuOperandMaps) (body : Bytes) : KeepsStream maps body ↔ Remappable maps body := by
  cases walked : instructions body with
  | mk instrs tail =>
    cases tail with
    | nil => exact keepsStream_whole_iff walked
    | cons code rest => exact keepsStream_cut_iff walked

def shiftedArrayTypes : NcuOperandMaps where
  strings _ := none
  functions _ := none
  classes _ := none
  structs _ := none
  arrayTypes index := some (index + 1)
  enums _ := none
  interfaces _ := none
  slots _ := none

def dynamicArray : Bytes := [87, 0, 0, 0, 0, 8, 0]

theorem dynamicArray_not_remapped : ¬ KeepsStream shiftedArrayTypes dynamicArray := by
  have walked : instructions dynamicArray = ([dynamicArray], []) := by decide +kernel
  rw [keepsStream_whole_iff walked]
  unfold Remappable
  rw [walked]
  rintro (⟨instr, member, found, -⟩ | ⟨-, instr, member, stray, -⟩ | exactly_)
  · cases List.mem_singleton.mp member
    revert found
    decide +kernel
  · cases List.mem_singleton.mp member
    revert stray
    decide +kernel
  · have kept := (exactly_ dynamicArray (List.mem_singleton_self _)).missed (by decide +kernel) (3, .arrayTypes)
      (by decide +kernel)
    revert kept
    decide +kernel

end Bodies

end NLang.Linker
