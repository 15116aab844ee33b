import NLang.Library.Worklist
import NLang.Vm.Sweep

/-!
# Marking

`VmExecutorGC.cpp`, `VmExecutorGCContainers.cpp` and `MarkString`. An arm of `MarkPhase` is the list of
tests it makes on the values of one record; a root scan is such a list too.
-/

namespace NLang.Vm
open NLang.Library

inductive StrForm where
  | flat
  | cons (left right : Int)
  | dead
  deriving DecidableEq

structure StringStore where
  size : Nat
  form : Nat → StrForm

namespace StringStore

def isLive (strings : StringStore) (handle : Int) : Bool :=
  0 < handle ∧ handle.toNat < strings.size ∧ strings.form handle.toNat ≠ .dead

def live (strings : StringStore) (values : List Int) : List Nat :=
  (values.filter strings.isLive).map Int.toNat

def children (strings : StringStore) (handle : Nat) : List Nat :=
  match strings.form handle with
  | .cons left right => strings.live [left, right]
  | _ => []

def markString (strings : StringStore) (marked : List Nat) (handle : Int) : List Nat :=
  ((Worklist.pushAll ⟨marked, []⟩ (strings.live [handle])).drain strings.children
    (2 * strings.size + 2)).marked

end StringStore

inductive MarkAction where
  | string (value : Int)
  | record (value : Int)
  | both (value : Int)

namespace Heap
variable (tables : TypeTables) (h : Heap)

def inRange (value : Int) : Bool := 0 < value ∧ value.toNat < h.size

def refKind (value : Int) : Rtk := (h.slot value.toNat).kind

def declaredFieldAcceptsRuntime (declaredKind runtimeKind : Rtk) : Bool :=
  (declaredKind = .cls ∧ (runtimeKind = .cls ∨ runtimeKind = .boxed ∨ runtimeKind = .array ∨
      runtimeKind = .arrayView)) ∨
    (declaredKind = .struct ∧ runtimeKind = .struct) ∨
    (declaredKind = .func ∧ runtimeKind = .func) ∨
    (declaredKind = .array ∧ (runtimeKind = .array ∨ runtimeKind = .arrayView))

def arrayElemKindAccepts (elemKind runtimeKind : Rtk) : Bool :=
  declaredFieldAcceptsRuntime elemKind runtimeKind

def isChildBearingHeapKind (kind : Rtk) : Bool :=
  kind = .cls ∨ kind = .struct ∨ kind = .boxed ∨ kind = .func ∨ kind = .array ∨ kind = .arrayView

def testRef (accepts : Rtk → Bool) (value : Int) : List MarkAction :=
  if h.inRange value && accepts (h.refKind value) then [.record value] else []

def markClassField (kind : Rtk) (value : Int) : List MarkAction :=
  match kind with
  | .string => [.string value]
  | .typeParam => [.both value]
  | _ => h.testRef (declaredFieldAcceptsRuntime kind) value

def markStructField (kind : Rtk) (value : Int) : List MarkAction :=
  match kind with
  | .string => [.string value]
  | _ => h.testRef (declaredFieldAcceptsRuntime kind) value

def markArrayElement (elemKind : Rtk) (value : Int) : List MarkAction :=
  match elemKind with
  | .string => [.string value]
  | _ => h.testRef (arrayElemKindAccepts elemKind) value

def markClassFields (i : Nat) : List MarkAction :=
  (tables.classFields (sizeCast (h.cell i 0))).zipIdx.flatMap fun (field, p) =>
    h.markClassField field.kind (h.cell i (2 * p + 1))

def markStructFields (i : Nat) : List MarkAction :=
  (tables.structRow (h.slot i).structIdx).fields.zipIdx.flatMap fun (field, p) =>
    h.markStructField field.kind (h.cell i (2 * p))

def markArrayElements (i : Nat) : Option (List MarkAction) :=
  match tables.arrayTypes[(h.slot i).structIdx]? with
  | none => none
  | some arrayType =>
    (h.slot i).arrayPayloadBase.map fun base =>
      (List.range (h.cell i 3).toNat).flatMap fun p =>
        h.markArrayElement arrayType.elemKind (h.cell i (base + p * arrayElemCells arrayType.elemKind))

def arrayViewTargetCell (rank : Nat) : Nat := 5 + 2 * rank

def markArrayViewTarget (i : Nat) : Option (List MarkAction) :=
  let viewRank := h.cell i 2
  if viewRank < 1 ∨ kMaxArrayRank < viewRank then none
  else some (h.testRef (· = .array) (h.cell i (arrayViewTargetCell viewRank.toNat)))

def markFuncReceiver (i : Nat) : List MarkAction := h.testRef (· = .cls) (h.cell i 1)

def rtkStringCode : Int := 2

def markBoxedPayload (i : Nat) : List MarkAction :=
  if h.cell i 0 = rtkStringCode then [.string (h.cell i 1)] else []

def containerElements (kind : SideKind) (i : Nat) : List Int :=
  let handle := h.cell i kListHandleFieldOffset
  if int16Cast (h.cell i 0) = (h.table kind).classIdx ∧ 0 < handle then
    (h.table kind).store.getD (handle - 1).toNat []
  else []

def markContainerElements (kind : SideKind) (i : Nat) : List MarkAction :=
  (h.containerElements kind i).flatMap (h.testRef isChildBearingHeapKind)

def markListElements (i : Nat) : List MarkAction := h.markContainerElements .list i
def markDictEntries (i : Nat) : List MarkAction := h.markContainerElements .dict i
def markChannelElements (i : Nat) : List MarkAction := h.markContainerElements .channel i

def markRecord (i : Nat) : Option (List MarkAction) :=
  match (h.slot i).kind with
  | .func => some (h.markFuncReceiver i)
  | .boxed => some (h.markBoxedPayload i)
  | .cls => some (h.markClassFields tables i ++ h.markListElements i ++ h.markDictEntries i ++
      h.markChannelElements i)
  | .struct => some (h.markStructFields tables i)
  | .array => h.markArrayElements tables i
  | .arrayView => h.markArrayViewTarget i
  | _ => some []

end Heap

structure MarkState where
  records : Worklist Nat := {}
  strMarks : List Nat := []

namespace MarkState
variable (tables : TypeTables) (h : Heap) (strings : StringStore)

def pushRecord (s : MarkState) (value : Int) : MarkState :=
  if h.inRange value then { s with records := s.records.push value.toNat } else s

def markString (s : MarkState) (value : Int) : MarkState :=
  { s with strMarks := strings.markString s.strMarks value }

def act (s : MarkState) : MarkAction → MarkState
  | .string value => s.markString strings value
  | .record value => s.pushRecord h value
  | .both value => (s.markString strings value).pushRecord h value

def actAll (s : MarkState) (actions : List MarkAction) : MarkState := actions.foldl (act h strings) s

/-- The trace loop; `none` is an error on a corrupt record, or no fuel. -/
def trace : Nat → MarkState → Option MarkState
  | 0, _ => none
  | fuel+1, s =>
    match s.records.work with
    | [] => some s
    | i :: rest =>
      (h.markRecord tables i).bind fun actions =>
        trace fuel (actAll h strings { s with records := { s.records with work := rest } } actions)

end MarkState

def markPhase (tables : TypeTables) (h : Heap) (strings : StringStore) (roots : List MarkAction) :
    Option MarkState :=
  (MarkState.actAll h strings {} roots).trace tables h strings (2 * h.size + 2)

end NLang.Vm
