import NLang.Library.Outcomes

/-!
# Compound assignments

The code of `t op= e` for each shape of the target (`EmitStmtCompound.cpp`, `EmitCompoundOp`), and the meaning of the
statement. The machine that runs it is a parameter: expressions may do anything to the locals and the heap, but they
leave the slots of the claim that the statement holds. The gate of a static field is asked for by the type of the field
and emits nothing.
-/

namespace NLang.Backend.CompoundAssign
open NLang.Library

inductive Operator where
  | add | sub | mul | div | mod | shl | shr
  deriving DecidableEq

inductive ValueType where
  | string
  | numeric (kind : Nat)

structure World (V H : Type) where
  locals : Nat → V
  heap : H

structure Machine (V H E Err : Type) where
  eval : E → World V H → Except Err (World V H × V)
  implicitThisSlot : Nat
  nullCheck : V → Except Err Unit
  loadField : V → Nat → H → Except Err V
  storeField : V → Nat → V → H → Except Err H
  loadStatic : Nat → H → V
  storeStatic : Nat → V → H → H
  loadElement : Bool → V → List V → H → Except Err V
  storeElement : Bool → V → List V → V → H → Except Err H
  box : Nat → V → H → H × V
  unbox : Nat → V → H → Except Err V
  get : V → V → H → Except Err (H × V)
  set : V → V → V → H → Except Err H
  concat : V → V → H → H × V
  binOp : Operator → Nat → V → V → H → Except Err V

inductive Slot where
  | local (slot : Nat)
  | claim (i : Nat)

inductive Instr (E : Type) where
  | expression (e : E) (result : Slot)
  | move (source target : Slot)
  | nullCheck (slot : Slot)
  | loadField (target object : Slot) (fieldOff : Nat)
  | storeField (object : Slot) (fieldOff : Nat) (source : Slot)
  | loadStatic (target : Slot) (slotIdx : Nat)
  | storeStatic (slotIdx : Nat) (source : Slot)
  | loadElement (dyn : Bool) (target array : Slot) (indices count : Nat)
  | storeElement (dyn : Bool) (array : Slot) (indices : Nat) (source : Slot) (count : Nat)
  | box (tag : Nat) (slot : Slot)
  | unbox (tag : Nat) (slot : Slot)
  | get (object index target : Slot)
  | set (object index source : Slot)
  | concatStr (target source : Slot)
  | binOp (op : Operator) (kind : Nat) (target source : Slot)

inductive Target (E : Type) where
  | local (slot : Nat)
  | thisField (fieldOff : Nat)
  | staticField (slotIdx : Nat)
  | memberField (outer : E) (isClass : Bool) (fieldOff : Nat)
  | arrayElement (array : E) (dyn : Bool) (indices : List E)
  | containerElement (base index : E) (keyBox valBox : Option Nat)

structure CompoundAssignStmt (E : Type) where
  left : Target E
  op : Operator
  lhsType : ValueType
  right : E

variable {V H E Err : Type}

def emitCompoundOp (op : Operator) (lhsType : ValueType) (target source : Slot) : List (Instr E) :=
  match lhsType with
  | .string => if op = .add then [.concatStr target source] else []
  | .numeric kind => [.binOp op kind target source]

def emitBox (tag : Option Nat) (slot : Slot) : List (Instr E) := tag.toList.map (.box · slot)

def emitUnbox (tag : Option Nat) (slot : Slot) : List (Instr E) := tag.toList.map (.unbox · slot)

def emitIndices (idxBase : Nat) : List E → List (Instr E)
  | [] => []
  | index :: indices => .expression index (.claim idxBase) :: emitIndices (idxBase + 1) indices

def emitCompoundAssign (m : Machine V H E Err) (ca : CompoundAssignStmt E) : List (Instr E) :=
  match ca.left with
  | .local slot =>
    .expression ca.right (.claim 0) :: emitCompoundOp ca.op ca.lhsType (.local slot) (.claim 0)
  | .thisField fieldOff =>
    [.move (.local m.implicitThisSlot) (.claim 0), .nullCheck (.claim 0), .loadField (.claim 1) (.claim 0) fieldOff,
      .expression ca.right (.claim 2)] ++ emitCompoundOp ca.op ca.lhsType (.claim 1) (.claim 2) ++
      [.storeField (.claim 0) fieldOff (.claim 1)]
  | .staticField slotIdx =>
    [.loadStatic (.claim 0) slotIdx, .expression ca.right (.claim 1)] ++
      emitCompoundOp ca.op ca.lhsType (.claim 0) (.claim 1) ++ [.storeStatic slotIdx (.claim 0)]
  | .memberField outer isClass fieldOff =>
    .expression outer (.claim 0) :: (if isClass then [.nullCheck (.claim 0)] else []) ++
      [.loadField (.claim 1) (.claim 0) fieldOff, .expression ca.right (.claim 2)] ++
      emitCompoundOp ca.op ca.lhsType (.claim 1) (.claim 2) ++ [.storeField (.claim 0) fieldOff (.claim 1)]
  | .arrayElement array dyn indices =>
    let rank := indices.length
    [.expression array (.claim 0), .nullCheck (.claim 0)] ++ emitIndices 1 indices ++
      [.loadElement dyn (.claim (rank + 1)) (.claim 0) 1 rank, .expression ca.right (.claim (rank + 2))] ++
      emitCompoundOp ca.op ca.lhsType (.claim (rank + 1)) (.claim (rank + 2)) ++
      [.storeElement dyn (.claim 0) 1 (.claim (rank + 1)) rank]
  | .containerElement base index keyBox valBox =>
    [.expression base (.claim 0), .nullCheck (.claim 0), .expression index (.claim 1)] ++ emitBox keyBox (.claim 1) ++
      [.get (.claim 0) (.claim 1) (.claim 2)] ++ emitUnbox valBox (.claim 2) ++ [.expression ca.right (.claim 3)] ++
      emitCompoundOp ca.op ca.lhsType (.claim 2) (.claim 3) ++ emitBox valBox (.claim 2) ++
      [.set (.claim 0) (.claim 1) (.claim 2)]

abbrev Running (V H : Type) := World V H × (Nat → V)

def park (claim : Nat → V) (i : Nat) (value : V) : Nat → V := fun j => if j = i then value else claim j

def Slot.read (s : Running V H) : Slot → V
  | .local slot => s.1.locals slot
  | .claim i => s.2 i

def World.setLocal (w : World V H) (slot : Nat) (value : V) : World V H :=
  { w with locals := fun other => if other = slot then value else w.locals other }

def Slot.write (s : Running V H) (value : V) : Slot → Running V H
  | .local slot => (s.1.setLocal slot value, s.2)
  | .claim i => (s.1, park s.2 i value)

def setHeap (s : Running V H) (heap : H) : Running V H := ({ s.1 with heap }, s.2)

def claimed (s : Running V H) (indices count : Nat) : List V := (List.range count).map fun d => s.2 (indices + d)

def execInstr (m : Machine V H E Err) (s : Running V H) : Instr E → Except Err (Running V H)
  | .expression e result => (m.eval e s.1).map fun (w, value) => result.write (w, s.2) value
  | .move source target => .ok (target.write s (source.read s))
  | .nullCheck slot => (m.nullCheck (slot.read s)).map fun _ => s
  | .loadField target object fieldOff => (m.loadField (object.read s) fieldOff s.1.heap).map (target.write s)
  | .storeField object fieldOff source =>
    (m.storeField (object.read s) fieldOff (source.read s) s.1.heap).map (setHeap s)
  | .loadStatic target slotIdx => .ok (target.write s (m.loadStatic slotIdx s.1.heap))
  | .storeStatic slotIdx source => .ok (setHeap s (m.storeStatic slotIdx (source.read s) s.1.heap))
  | .loadElement dyn target array indices count =>
    (m.loadElement dyn (array.read s) (claimed s indices count) s.1.heap).map (target.write s)
  | .storeElement dyn array indices source count =>
    (m.storeElement dyn (array.read s) (claimed s indices count) (source.read s) s.1.heap).map (setHeap s)
  | .box tag slot =>
    let (heap, boxed) := m.box tag (slot.read s) s.1.heap
    .ok (slot.write (setHeap s heap) boxed)
  | .unbox tag slot => (m.unbox tag (slot.read s) s.1.heap).map (slot.write s)
  | .get object index target =>
    (m.get (object.read s) (index.read s) s.1.heap).map fun (heap, value) => target.write (setHeap s heap) value
  | .set object index source =>
    (m.set (object.read s) (index.read s) (source.read s) s.1.heap).map (setHeap s)
  | .concatStr target source =>
    let (heap, value) := m.concat (target.read s) (source.read s) s.1.heap
    .ok (target.write (setHeap s heap) value)
  | .binOp op kind target source =>
    (m.binOp op kind (target.read s) (source.read s) s.1.heap).map (target.write s)

def exec (m : Machine V H E Err) (code : List (Instr E)) (s : Running V H) : Except Err (Running V H) :=
  code.foldlM (execInstr m) s

inductive Place (V : Type) where
  | local (slot : Nat)
  | field (object : V) (fieldOff : Nat)
  | staticField (slotIdx : Nat)
  | element (dyn : Bool) (array : V) (indices : List V)
  | entry (base index : V) (valBox : Option Nat)

namespace Machine
variable (m : Machine V H E Err)

def evalAll : List E → World V H → Except Err (World V H × List V)
  | [], w => .ok (w, [])
  | e :: es, w => do
      let (w, value) ← m.eval e w
      let (w, values) ← evalAll es w
      return (w, value :: values)

def boxed (tag : Option Nat) (value : V) (heap : H) : H × V :=
  match tag with
  | some tag => m.box tag value heap
  | none => (heap, value)

def locate : Target E → World V H → Except Err (World V H × Place V)
  | .local slot, w => .ok (w, .local slot)
  | .thisField fieldOff, w => do
      m.nullCheck (w.locals m.implicitThisSlot)
      return (w, .field (w.locals m.implicitThisSlot) fieldOff)
  | .staticField slotIdx, w => .ok (w, .staticField slotIdx)
  | .memberField outer isClass fieldOff, w => do
      let (w, object) ← m.eval outer w
      if isClass then m.nullCheck object
      return (w, .field object fieldOff)
  | .arrayElement array dyn indices, w => do
      let (w, array) ← m.eval array w
      m.nullCheck array
      let (w, indices) ← m.evalAll indices w
      return (w, .element dyn array indices)
  | .containerElement base index keyBox valBox, w => do
      let (w, base) ← m.eval base w
      m.nullCheck base
      let (w, index) ← m.eval index w
      let (heap, index) := m.boxed keyBox index w.heap
      return ({ w with heap }, .entry base index valBox)

def read (w : World V H) : Place V → Except Err (H × V)
  | .local slot => .ok (w.heap, w.locals slot)
  | .field object fieldOff => (m.loadField object fieldOff w.heap).map (w.heap, ·)
  | .staticField slotIdx => .ok (w.heap, m.loadStatic slotIdx w.heap)
  | .element dyn array indices => (m.loadElement dyn array indices w.heap).map (w.heap, ·)
  | .entry base index valBox => do
      let (heap, value) ← m.get base index w.heap
      match valBox with
      | some tag => (m.unbox tag value heap).map (heap, ·)
      | none => return (heap, value)

def store (w : World V H) (value : V) : Place V → Except Err (World V H)
  | .local slot => .ok (w.setLocal slot value)
  | .field object fieldOff => (m.storeField object fieldOff value w.heap).map fun heap => { w with heap }
  | .staticField slotIdx => .ok { w with heap := m.storeStatic slotIdx value w.heap }
  | .element dyn array indices => (m.storeElement dyn array indices value w.heap).map fun heap => { w with heap }
  | .entry base index valBox => do
      let (heap, value) := m.boxed valBox value w.heap
      (m.set base index value heap).map fun heap => { w with heap }

def operate (lhsType : ValueType) (op : Operator) (old rhs : V) (heap : H) : Except Err (H × V) :=
  match lhsType with
  | .string => if op = .add then .ok (m.concat old rhs heap) else .ok (heap, old)
  | .numeric kind => (m.binOp op kind old rhs heap).map (heap, ·)

def compoundAssign (ca : CompoundAssignStmt E) (w : World V H) : Except Err (World V H) := do
  let (w, place) ← m.locate ca.left w
  let (heap, old) ← m.read w place
  let (w, rhs) ← m.eval ca.right { w with heap }
  let (heap, result) ← m.operate ca.lhsType ca.op old rhs w.heap
  m.store { w with heap } result place

end Machine

section Parts
variable {m : Machine V H E Err} {s : Running V H}

theorem exec_cons (instr : Instr E) (code : List (Instr E)) :
    exec m (instr :: code) s = (execInstr m s instr).bind (exec m code) :=
  List.foldlM_cons

theorem exec_append (first second : List (Instr E)) :
    exec m (first ++ second) s = (exec m first s).bind (exec m second) :=
  List.foldlM_append

theorem write_read (slot : Slot) : slot.write s (slot.read s) = s := by
  obtain ⟨w, claim⟩ := s
  cases slot with
  | «local» slot =>
    have same : (fun other => if other = slot then w.locals slot else w.locals other) = w.locals := by
      funext other
      split
      · rename_i here
        rw [here]
      · rfl
    simp only [Slot.write, Slot.read, World.setLocal, same]
  | claim i =>
    have same : park claim i (claim i) = claim := by
      funext j
      unfold park
      split
      · rename_i here
        rw [here]
      · rfl
    simp only [Slot.write, Slot.read, same]

theorem exec_compoundOp (op : Operator) (lhsType : ValueType) (target source : Slot) :
    exec m (emitCompoundOp op lhsType target source) s =
      (m.operate lhsType op (target.read s) (source.read s) s.1.heap).map fun result =>
        target.write (setHeap s result.1) result.2 := by
  cases lhsType with
  | string =>
    by_cases adds : op = .add
    · subst adds
      rfl
    · rw [emitCompoundOp, Machine.operate]
      simp only [if_neg adds]
      exact congrArg Except.ok (write_read target).symm
  | numeric kind =>
    change (execInstr m s (.binOp op kind target source)).bind Except.ok = _
    rw [execInstr, Machine.operate]
    cases m.binOp op kind (target.read s) (source.read s) s.1.heap with
    | error error => rfl
    | ok value => rfl

theorem exec_box (tag : Option Nat) (slot : Slot) : exec m (emitBox tag slot) s =
    .ok (slot.write (setHeap s (m.boxed tag (slot.read s) s.1.heap).1) (m.boxed tag (slot.read s) s.1.heap).2) := by
  cases tag with
  | none => exact congrArg Except.ok (write_read slot).symm
  | some tag => rfl

def parkAll (claim : Nat → V) (i : Nat) : List V → Nat → V
  | [] => claim
  | value :: values => parkAll (park claim i value) (i + 1) values

theorem parkAll_below {claim : Nat → V} {i j : Nat} {values : List V} (below : j < i) :
    parkAll claim i values j = claim j := by
  induction values generalizing claim i with
  | nil => rfl
  | cons value values ih => exact (ih (Nat.lt_succ_of_lt below)).trans (if_neg (Nat.ne_of_lt below))

theorem parkAll_range (claim : Nat → V) (i : Nat) (values : List V) :
    (List.range values.length).map (fun d => parkAll claim i values (i + d)) = values := by
  induction values generalizing claim i with
  | nil => rfl
  | cons value values ih =>
    rw [List.length_cons, List.range_succ_eq_map, List.map_cons, List.map_map]
    congr 1
    · exact (parkAll_below (Nat.lt_succ_self i)).trans (if_pos rfl)
    · refine Eq.trans (List.map_congr_left fun d _ => ?_) (ih (park claim i value) (i + 1))
      change parkAll (park claim i value) (i + 1) values (i + (d + 1)) = _
      rw [Nat.add_comm d 1, ← Nat.add_assoc]

theorem exec_indices (indices : List E) (i : Nat) : exec m (emitIndices i indices) s =
    (m.evalAll indices s.1).map fun result => (result.1, parkAll s.2 i result.2) := by
  induction indices generalizing s i with
  | nil => rfl
  | cons index indices ih =>
    rw [emitIndices, exec_cons, execInstr, Machine.evalAll]
    cases m.eval index s.1 with
    | error error => rfl
    | ok result =>
      change exec m (emitIndices (i + 1) indices) _ = _
      rw [ih]
      cases rest : m.evalAll indices result.1 with
      | error error => simp [Slot.write, rest, Except.map, bind, Except.bind]
      | ok values => simp [Slot.write, rest, Except.map, bind, Except.bind, pure, Except.pure, parkAll]

theorem evalAll_length {indices : List E} {w w' : World V H} {values : List V}
    (done : m.evalAll indices w = .ok (w', values)) : values.length = indices.length := by
  induction indices generalizing w values with
  | nil =>
    cases done
    rfl
  | cons index indices ih =>
    obtain ⟨⟨w, value⟩, -, done⟩ := except_bind_ok.mp done
    obtain ⟨⟨w, values⟩, rest, done⟩ := except_bind_ok.mp done
    cases done
    rw [List.length_cons, List.length_cons, ih rest]

end Parts

section Statement
variable (m : Machine V H E Err) (ca : CompoundAssignStmt E) (w : World V H) (claim : Nat → V)

def Machine.runCompoundAssign : Except Err (World V H) := (exec m (emitCompoundAssign m ca) (w, claim)).map Prod.fst

def Machine.KeepsOperand : Prop := ∀ slot, ca.left = .local slot → ∀ w' rhs, m.eval ca.right w = .ok (w', rhs) →
  m.operate ca.lhsType ca.op (w.locals slot) rhs w'.heap = m.operate ca.lhsType ca.op (w'.locals slot) rhs w'.heap

def Machine.finish (place : Place V) (old : V) (w : World V H) : Except Err (World V H) := do
  let (w, rhs) ← m.eval ca.right w
  let (heap, result) ← m.operate ca.lhsType ca.op old rhs w.heap
  m.store { w with heap } result place

variable {m ca w claim}

theorem compoundAssign_eq : m.compoundAssign ca w = (do
    let (w, place) ← m.locate ca.left w
    let (heap, old) ← m.read w place
    m.finish ca place old { w with heap }) := rfl

theorem exec_finish (s : Running V H) (old right : Nat) (place : Place V) (storing : List (Instr E))
    (apart : old ≠ right) (stores : ∀ w' rhs result,
      (exec m storing (w', park (park s.2 right rhs) old result)).map Prod.fst = m.store w' result place) :
    (exec m (.expression ca.right (.claim right) ::
      (emitCompoundOp ca.op ca.lhsType (.claim old) (.claim right) ++ storing)) s).map Prod.fst =
      m.finish ca place (s.2 old) s.1 := by
  rw [exec_cons, execInstr, Machine.finish]
  cases m.eval ca.right s.1 with
  | error error => rfl
  | ok result =>
    change (exec m _ (result.1, park s.2 right result.2)).map Prod.fst = _
    rw [exec_append, exec_compoundOp]
    have reads : Slot.read (result.1, park s.2 right result.2) (.claim old) = s.2 old := if_neg apart
    have rhs : Slot.read (result.1, park s.2 right result.2) (.claim right) = result.2 := if_pos rfl
    rw [reads, rhs]
    change _ = (m.operate ca.lhsType ca.op (s.2 old) result.2 result.1.heap).bind _
    cases m.operate ca.lhsType ca.op (s.2 old) result.2 result.1.heap with
    | error error => rfl
    | ok combined => exact stores _ result.2 combined.2

theorem run_static {slotIdx : Nat} (left : ca.left = .staticField slotIdx) :
    m.runCompoundAssign ca w claim = m.compoundAssign ca w := by
  rw [Machine.runCompoundAssign, emitCompoundAssign, compoundAssign_eq, left]
  exact exec_finish (w, park claim 0 (m.loadStatic slotIdx w.heap)) 0 1 (.staticField slotIdx)
    [.storeStatic slotIdx (.claim 0)] (by decide) fun _ _ _ => rfl

theorem exec_field (s : Running V H) (fieldOff : Nat) :
    (exec m (.loadField (.claim 1) (.claim 0) fieldOff :: .expression ca.right (.claim 2) ::
      (emitCompoundOp ca.op ca.lhsType (.claim 1) (.claim 2) ++ [.storeField (.claim 0) fieldOff (.claim 1)])) s).map
        Prod.fst = (do
      let (heap, old) ← m.read s.1 (.field (s.2 0) fieldOff)
      m.finish ca (.field (s.2 0) fieldOff) old { s.1 with heap }) := by
  rw [exec_cons, execInstr, Machine.read]
  change ((((m.loadField (s.2 0) fieldOff s.1.heap).map _).bind _).map _) = _
  cases m.loadField (s.2 0) fieldOff s.1.heap with
  | error error => rfl
  | ok old =>
    refine exec_finish (s.1, park s.2 1 old) 1 2 (.field (s.2 0) fieldOff) _ (by decide) fun w' rhs result => ?_
    change ((((m.storeField (s.2 0) fieldOff result w'.heap).map _).bind _).map _) = Except.map _ _
    cases m.storeField (s.2 0) fieldOff result w'.heap with
    | error error => rfl
    | ok heap => rfl

theorem run_thisField {fieldOff : Nat} (left : ca.left = .thisField fieldOff) :
    m.runCompoundAssign ca w claim = m.compoundAssign ca w := by
  rw [Machine.runCompoundAssign, emitCompoundAssign, compoundAssign_eq, left, Machine.locate]
  change (((m.nullCheck (w.locals m.implicitThisSlot)).map _).bind _).map _ =
    ((m.nullCheck (w.locals m.implicitThisSlot)).bind _).bind _
  cases m.nullCheck (w.locals m.implicitThisSlot) with
  | error error => rfl
  | ok _ => exact exec_field (w, park claim 0 (w.locals m.implicitThisSlot)) fieldOff

theorem run_memberField {outer : E} {isClass : Bool} {fieldOff : Nat}
    (left : ca.left = .memberField outer isClass fieldOff) :
    m.runCompoundAssign ca w claim = m.compoundAssign ca w := by
  rw [Machine.runCompoundAssign, emitCompoundAssign, compoundAssign_eq, left, Machine.locate]
  change (((m.eval outer w).map _).bind _).map _ = ((m.eval outer w).bind _).bind _
  cases m.eval outer w with
  | error error => rfl
  | ok object =>
    cases isClass with
    | false => exact exec_field (object.1, park claim 0 object.2) fieldOff
    | true =>
      change (((m.nullCheck object.2).map _).bind _).map _ = ((m.nullCheck object.2).bind _).bind _
      cases m.nullCheck object.2 with
      | error error => rfl
      | ok _ => exact exec_field (object.1, park claim 0 object.2) fieldOff

theorem claimed_park (w' : World V H) (slots : Nat → V) {indices count i : Nat} (value : V) (past : indices + count ≤ i) :
    claimed (w', park slots i value) indices count = claimed (w, slots) indices count :=
  List.map_congr_left fun _ here =>
    if_neg (Nat.ne_of_lt (Nat.lt_of_lt_of_le (Nat.add_lt_add_left (List.mem_range.mp here) indices) past))

theorem exec_element (s : Running V H) (dyn : Bool) (array : V) (indices : List V) (base : s.2 0 = array)
    (parked : claimed s 1 indices.length = indices) :
    (exec m (.loadElement dyn (.claim (indices.length + 1)) (.claim 0) 1 indices.length ::
      .expression ca.right (.claim (indices.length + 2)) ::
      (emitCompoundOp ca.op ca.lhsType (.claim (indices.length + 1)) (.claim (indices.length + 2)) ++
        [.storeElement dyn (.claim 0) 1 (.claim (indices.length + 1)) indices.length])) s).map Prod.fst = (do
      let (heap, old) ← m.read s.1 (.element dyn array indices)
      m.finish ca (.element dyn array indices) old { s.1 with heap }) := by
  rw [exec_cons, execInstr, Machine.read, parked]
  change ((((m.loadElement dyn (s.2 0) indices s.1.heap).map _).bind _).map _) = _
  rw [base]
  cases m.loadElement dyn array indices s.1.heap with
  | error error => rfl
  | ok old =>
    have read : park s.2 (indices.length + 1) old (indices.length + 1) = old := if_pos rfl
    refine Eq.trans (exec_finish (s.1, park s.2 (indices.length + 1) old) (indices.length + 1) (indices.length + 2)
      (.element dyn array indices) _ (Nat.ne_of_lt (Nat.lt_succ_self _)) fun w' rhs result => ?_)
      (congrArg (m.finish ca (.element dyn array indices) · s.1) read)
    let slots := park (park (park s.2 (indices.length + 1) old) (indices.length + 2) rhs) (indices.length + 1) result
    have still : claimed (w', slots) 1 indices.length = indices := by
      rw [claimed_park w' _ result (Nat.le_of_eq (Nat.add_comm _ _)), claimed_park w' _ rhs (by omega),
        claimed_park w' _ old (Nat.le_of_eq (Nat.add_comm _ _))]
      exact parked
    have combined : slots (indices.length + 1) = result := if_pos rfl
    have root : slots 0 = array := base
    change ((((m.storeElement dyn (slots 0) (claimed (w', slots) 1 indices.length) (slots (indices.length + 1))
      w'.heap).map _).bind _).map _) = Except.map _ _
    rw [still, combined, root]
    cases m.storeElement dyn array indices result w'.heap with
    | error error => rfl
    | ok heap => rfl

theorem run_arrayElement {array : E} {dyn : Bool} {indices : List E} (left : ca.left = .arrayElement array dyn indices) :
    m.runCompoundAssign ca w claim = m.compoundAssign ca w := by
  rw [Machine.runCompoundAssign, emitCompoundAssign, compoundAssign_eq, left, Machine.locate]
  simp only [List.append_assoc, List.cons_append, List.nil_append]
  change (((m.eval array w).map _).bind _).map _ = ((m.eval array w).bind _).bind _
  cases m.eval array w with
  | error error => rfl
  | ok base =>
    change (((m.nullCheck base.2).map _).bind _).map _ = ((m.nullCheck base.2).bind _).bind _
    cases m.nullCheck base.2 with
    | error error => rfl
    | ok _ =>
      change (exec m (emitIndices 1 indices ++ _) (base.1, park claim 0 base.2)).map _ =
        ((m.evalAll indices base.1).bind _).bind _
      rw [exec_append, exec_indices]
      cases done : m.evalAll indices base.1 with
      | error error => rfl
      | ok located =>
        have count := evalAll_length done
        rw [← count]
        refine exec_element (located.1, parkAll (park claim 0 base.2) 1 located.2) dyn base.2 located.2 ?_ ?_
        · exact (parkAll_below Nat.zero_lt_one).trans (if_pos rfl)
        · exact parkAll_range _ 1 located.2

theorem exec_entry (s : Running V H) (valBox : Option Nat) :
    (exec m (.get (.claim 0) (.claim 1) (.claim 2) :: (emitUnbox valBox (.claim 2) ++
      .expression ca.right (.claim 3) :: (emitCompoundOp ca.op ca.lhsType (.claim 2) (.claim 3) ++
        (emitBox valBox (.claim 2) ++ [.set (.claim 0) (.claim 1) (.claim 2)])))) s).map Prod.fst = (do
      let (heap, old) ← m.read s.1 (.entry (s.2 0) (s.2 1) valBox)
      m.finish ca (.entry (s.2 0) (s.2 1) valBox) old { s.1 with heap }) := by
  rw [exec_cons, execInstr, Machine.read]
  change (((m.get (s.2 0) (s.2 1) s.1.heap).map _).bind _).map _ = ((m.get (s.2 0) (s.2 1) s.1.heap).bind _).bind _
  cases m.get (s.2 0) (s.2 1) s.1.heap with
  | error error => rfl
  | ok got =>
    have stores : ∀ slots : Nat → V, slots 0 = s.2 0 → slots 1 = s.2 1 → ∀ w' result,
        (exec m (emitBox valBox (.claim 2) ++ [.set (.claim 0) (.claim 1) (.claim 2)])
          (w', park slots 2 result)).map Prod.fst = m.store w' result (.entry (s.2 0) (s.2 1) valBox) := by
      intro slots base index w' result
      rw [exec_append, exec_box, ← base, ← index]
      change (((m.set (slots 0) (slots 1) (m.boxed valBox result w'.heap).2 (m.boxed valBox result w'.heap).1).map
        _).bind _).map _ =
        (m.set (slots 0) (slots 1) (m.boxed valBox result w'.heap).2 (m.boxed valBox result w'.heap).1).map _
      cases m.set (slots 0) (slots 1) (m.boxed valBox result w'.heap).2 (m.boxed valBox result w'.heap).1 with
      | error error => rfl
      | ok heap => rfl
    have finish : ∀ old (slots : Nat → V), slots 0 = s.2 0 → slots 1 = s.2 1 →
        (exec m (.expression ca.right (.claim 3) :: (emitCompoundOp ca.op ca.lhsType (.claim 2) (.claim 3) ++
          (emitBox valBox (.claim 2) ++ [.set (.claim 0) (.claim 1) (.claim 2)])))
            ({ s.1 with heap := got.1 }, park slots 2 old)).map Prod.fst =
          m.finish ca (.entry (s.2 0) (s.2 1) valBox) old { s.1 with heap := got.1 } := by
      intro old slots base index
      exact exec_finish ({ s.1 with heap := got.1 }, park slots 2 old) 2 3 (.entry (s.2 0) (s.2 1) valBox) _
        (by decide) fun w' rhs result => stores (park (park slots 2 old) 3 rhs) base index w' result
    cases valBox with
    | none => exact finish got.2 s.2 rfl rfl
    | some tag =>
      change (((m.unbox tag got.2 got.1).map _).bind _).map _ = ((m.unbox tag got.2 got.1).map _).bind _
      cases m.unbox tag got.2 got.1 with
      | error error => rfl
      | ok old => exact finish old (park s.2 2 got.2) rfl rfl

theorem run_containerElement {base index : E} {keyBox valBox : Option Nat}
    (left : ca.left = .containerElement base index keyBox valBox) :
    m.runCompoundAssign ca w claim = m.compoundAssign ca w := by
  rw [Machine.runCompoundAssign, emitCompoundAssign, compoundAssign_eq, left, Machine.locate]
  simp only [List.append_assoc, List.cons_append, List.nil_append]
  change (((m.eval base w).map _).bind _).map _ = ((m.eval base w).bind _).bind _
  cases m.eval base w with
  | error error => rfl
  | ok receiver =>
    change (((m.nullCheck receiver.2).map _).bind _).map _ = ((m.nullCheck receiver.2).bind _).bind _
    cases m.nullCheck receiver.2 with
    | error error => rfl
    | ok _ =>
      change (((m.eval index receiver.1).map _).bind _).map _ = ((m.eval index receiver.1).bind _).bind _
      cases m.eval index receiver.1 with
      | error error => rfl
      | ok key =>
        change (exec m (emitBox keyBox (.claim 1) ++ _)
          (key.1, park (park claim 0 receiver.2) 1 key.2)).map _ = _
        rw [exec_append, exec_box]
        exact exec_entry _ valBox

theorem run_local {slot : Nat} (left : ca.left = .local slot) : m.runCompoundAssign ca w claim =
    (m.eval ca.right w).bind fun (w', rhs) =>
      (m.operate ca.lhsType ca.op (w'.locals slot) rhs w'.heap).map fun (heap, result) =>
        ({ w' with heap } : World V H).setLocal slot result := by
  rw [Machine.runCompoundAssign, emitCompoundAssign, left]
  change (((m.eval ca.right w).map _).bind _).map _ = _
  cases m.eval ca.right w with
  | error error => rfl
  | ok right =>
    change (exec m _ (right.1, park claim 0 right.2)).map _ = _
    rw [exec_compoundOp]
    change ((m.operate ca.lhsType ca.op (right.1.locals slot) right.2 right.1.heap).map _).map _ =
      (m.operate ca.lhsType ca.op (right.1.locals slot) right.2 right.1.heap).map _
    cases m.operate ca.lhsType ca.op (right.1.locals slot) right.2 right.1.heap with
    | error error => rfl
    | ok result => rfl

theorem compoundAssign_local {slot : Nat} (left : ca.left = .local slot) : m.compoundAssign ca w =
    (m.eval ca.right w).bind fun (w', rhs) =>
      (m.operate ca.lhsType ca.op (w.locals slot) rhs w'.heap).map fun (heap, result) =>
        ({ w' with heap } : World V H).setLocal slot result := by
  rw [compoundAssign_eq, left]
  change (m.eval ca.right w).bind _ = _
  cases m.eval ca.right w with
  | error error => rfl
  | ok right =>
    change (m.operate ca.lhsType ca.op (w.locals slot) right.2 right.1.heap).bind _ =
      (m.operate ca.lhsType ca.op (w.locals slot) right.2 right.1.heap).map _
    cases m.operate ca.lhsType ca.op (w.locals slot) right.2 right.1.heap with
    | error error => rfl
    | ok result => rfl

theorem setLocal_injective (w' : World V H) (slot : Nat) {x y : Except Err (H × V)}
    (same : x.map (fun result => ({ w' with heap := result.1 } : World V H).setLocal slot result.2) =
      y.map fun result => ({ w' with heap := result.1 } : World V H).setLocal slot result.2) : x = y := by
  cases x with
  | error error =>
    cases y with
    | error other => exact congrArg Except.error (Except.error.inj same)
    | ok result => cases same
  | ok result =>
    cases y with
    | error other => cases same
    | ok other =>
      have worlds := Except.ok.inj same
      have heaps : result.1 = other.1 := congrArg World.heap worlds
      have values : result.2 = other.2 := by
        have here := congrFun (congrArg World.locals worlds) slot
        simpa only [World.setLocal, if_true] using here
      exact congrArg Except.ok (Prod.ext heaps values)

theorem local_iff {slot : Nat} (left : ca.left = .local slot) :
    m.runCompoundAssign ca w claim = m.compoundAssign ca w ↔ m.KeepsOperand ca w := by
  rw [run_local left, compoundAssign_local left]
  constructor
  · intro same slot' left' w' rhs done
    cases left.symm.trans left'
    rw [done] at same
    exact (setLocal_injective w' slot same).symm
  · intro keeps
    cases done : m.eval ca.right w with
    | error error => rfl
    | ok right => exact congrArg (Except.map _) (keeps slot left right.1 right.2 done).symm

def outCall : Machine Int Unit Unit Unit where
  eval _ w := .ok (w.setLocal 0 10, 5)
  implicitThisSlot := 1
  nullCheck _ := .error ()
  loadField _ _ _ := .error ()
  storeField _ _ _ _ := .error ()
  loadStatic _ _ := 0
  storeStatic _ _ _ := ()
  loadElement _ _ _ _ := .error ()
  storeElement _ _ _ _ _ := .error ()
  box _ value _ := ((), value)
  unbox _ value _ := .ok value
  get _ _ _ := .error ()
  set _ _ _ _ := .error ()
  concat old rhs _ := ((), old + rhs)
  binOp op _ old rhs _ :=
    match op with
    | .add => .ok (old + rhs)
    | .sub => .ok (old - rhs)
    | .mul => .ok (old * rhs)
    | _ => .error ()

end Statement

end NLang.Backend.CompoundAssign
