import NLang.Vm.ObjectStream

/-!
# Object graphs

What a typed object graph is, which records it reaches, what a copy of it is, and which graphs fit
what the reader accepts.
-/

namespace NLang.Vm.ObjectStream
open NLang.Library.Words

mutual

def Value.leaves : Value → List Value
  | .struct fields => leavesOfAll fields
  | .scalar bytes => [.scalar bytes]
  | .handle i => [.handle i]
  | .str text => [.str text]
  | .ref i => [.ref i]
  | .boxed kind payload => [.boxed kind payload]
  | .func => [.func]

def leavesOfAll : List Value → List Value
  | [] => []
  | value :: values => value.leaves ++ leavesOfAll values

end

mutual

def Value.renumber (onRef onHandle : Nat → Nat) : Value → Value
  | .struct fields => .struct (renumberAll onRef onHandle fields)
  | .handle i => .scalar (putWord 4 (onHandle i))
  | .ref i => .ref (onRef i)
  | .scalar bytes => .scalar bytes
  | .str text => .str text
  | .boxed kind payload => .boxed kind payload
  | .func => .func

def renumberAll (onRef onHandle : Nat → Nat) : List Value → List Value
  | [] => []
  | value :: values => value.renumber onRef onHandle :: renumberAll onRef onHandle values

end

@[simp] theorem leavesOfAll_eq (values : List Value) :
    leavesOfAll values = values.flatMap Value.leaves := by
  induction values with
  | nil => rfl
  | cons value values ih => rw [leavesOfAll, ih, List.flatMap_cons]

@[simp] theorem renumberAll_eq (onRef onHandle : Nat → Nat) (values : List Value) :
    renumberAll onRef onHandle values = values.map (Value.renumber onRef onHandle) := by
  induction values with
  | nil => rfl
  | cons value values ih => rw [renumberAll, ih, List.map_cons]

theorem mem_leaves_struct {fields : List Value} {leaf : Value} :
    leaf ∈ (Value.struct fields).leaves ↔ ∃ field ∈ fields, leaf ∈ field.leaves := by
  rw [Value.leaves, leavesOfAll_eq, List.mem_flatMap]

mutual

theorem struct_notMem_leaves (fields : List Value) : (value : Value) → .struct fields ∉ value.leaves
  | .struct inner => struct_notMem_leavesOfAll fields inner
  | .scalar _ | .handle _ | .str _ | .ref _ | .boxed _ _ | .func => by simp [Value.leaves]

theorem struct_notMem_leavesOfAll (fields : List Value) : (values : List Value) →
    .struct fields ∉ leavesOfAll values
  | [] => List.not_mem_nil
  | value :: values => by
      rw [leavesOfAll, List.mem_append, not_or]
      exact ⟨struct_notMem_leaves fields value, struct_notMem_leavesOfAll fields values⟩

end

mutual

theorem leaves_renumber (onRef onHandle : Nat → Nat) : (value : Value) →
    (value.renumber onRef onHandle).leaves = value.leaves.map (Value.renumber onRef onHandle)
  | .struct fields => by
      rw [Value.renumber, Value.leaves, Value.leaves, leavesOfAll_renumberAll]
  | .scalar _ | .handle _ | .str _ | .ref _ | .boxed _ _ | .func => rfl

theorem leavesOfAll_renumberAll (onRef onHandle : Nat → Nat) : (values : List Value) →
    leavesOfAll (renumberAll onRef onHandle values) =
      (leavesOfAll values).map (Value.renumber onRef onHandle)
  | [] => rfl
  | value :: values => by
      rw [renumberAll, leavesOfAll, leavesOfAll, List.map_append, leaves_renumber,
        leavesOfAll_renumberAll]

end

mutual

theorem renumber_eq_iff (onRef onHandle onRef' onHandle' : Nat → Nat) : (value : Value) →
    (value.renumber onRef onHandle = value.renumber onRef' onHandle' ↔
      ∀ leaf ∈ value.leaves, leaf.renumber onRef onHandle = leaf.renumber onRef' onHandle')
  | .struct fields => by
      rw [Value.renumber, Value.renumber, Value.struct.injEq, Value.leaves, renumberAll_eq_iff]
  | .scalar _ | .handle _ | .str _ | .ref _ | .boxed _ _ | .func => by simp [Value.leaves]

theorem renumberAll_eq_iff (onRef onHandle onRef' onHandle' : Nat → Nat) : (values : List Value) →
    (renumberAll onRef onHandle values = renumberAll onRef' onHandle' values ↔
      ∀ leaf ∈ leavesOfAll values, leaf.renumber onRef onHandle = leaf.renumber onRef' onHandle')
  | [] => by simp [leavesOfAll, renumberAll]
  | value :: values => by
      rw [renumberAll, renumberAll, List.cons.injEq, leavesOfAll, List.forall_mem_append,
        renumber_eq_iff, renumberAll_eq_iff]

end

def Value.target : Value → Option Nat
  | .ref (i+1) => some (i + 1)
  | .handle (i+1) => some (i + 1)
  | _ => none

def Record.values : Record → List Value
  | .object _ fields => fields
  | .array _ _ elements => elements
  | .view .. => []

def Record.renumber (onRef onHandle : Nat → Nat) : Record → Record
  | .object classIdx fields => .object classIdx (fields.map (Value.renumber onRef onHandle))
  | .array arrayTypeIdx dims elements =>
    .array arrayTypeIdx dims (elements.map (Value.renumber onRef onHandle))
  | .view arrayTypeIdx dims strides offset target => .view arrayTypeIdx dims strides offset target

section Graph
variable (tables : Tables) (records : Records)

inductive Reached (root : Value) : Nat → Prop where
  | root {leaf : Value} {i : Nat} : leaf ∈ root.leaves → leaf.target = some i → Reached root i
  | step {i j : Nat} {record : Record} {value leaf : Value} : Reached root i →
      content records i = some record → value ∈ record.values → leaf ∈ value.leaves →
      leaf.target = some j → Reached root j

def BoxFits (kind : Rtk) (payload : Bytes) : Prop :=
  kind = .string ∨ ∃ width, kind.scalarWidth = some width ∧ payload.length = max 4 width

inductive HasType : FieldEntry → Value → Prop where
  | scalar {field : FieldEntry} {bytes : Bytes} :
      field.kind.scalarWidth = some bytes.length → HasType field (.scalar bytes)
  | handle {field : FieldEntry} {i : Nat} : field.kind = .int32 → HasType field (.handle i)
  | str {field : FieldEntry} {text : Bytes} : field.kind = .string → HasType field (.str text)
  | struct {field : FieldEntry} {structIdx : Nat} {row : StructRow} {fields : List Value} :
      field.kind = .struct → field.structIdx = some structIdx →
      tables.structs[structIdx]? = some row → List.Forall₂ HasType row.fields fields →
      HasType field (.struct fields)
  | null {field : FieldEntry} : field.kind = .cls ∨ field.kind = .array → HasType field (.ref 0)
  | object {field : FieldEntry} {declared i classIdx : Nat} {fields : List Value} :
      field.kind = .cls → field.classIdx = some declared →
      content records i = some (.object classIdx fields) →
      tables.isSubclassOf classIdx declared = true → HasType field (.ref i)
  | objectArray {field : FieldEntry} {declared i arrayTypeIdx : Nat} {dims : List Int}
      {elements : List Value} : field.kind = .cls → field.classIdx = some declared →
      tables.objectRootClassIdx = some declared →
      content records i = some (.array arrayTypeIdx dims elements) → HasType field (.ref i)
  | array {field : FieldEntry} {i arrayTypeIdx : Nat} {dims : List Int} {elements : List Value} :
      field.kind = .array → content records i = some (.array arrayTypeIdx dims elements) →
      HasType field (.ref i)
  | boxed {field : FieldEntry} {declared : Nat} {kind : Rtk} {payload : Bytes} :
      field.kind = .cls → field.classIdx = some declared →
      tables.objectRootClassIdx = some declared → BoxFits kind payload →
      HasType field (.boxed kind payload)
  | func {field : FieldEntry} : field.kind = .func ∨ field.kind = .cls → HasType field .func
  | typeParam {field : FieldEntry} {value : Value} : field.kind = .typeParam → HasType field value

inductive RecordTyped : Record → Prop where
  | object {classIdx : Nat} {row : ClassRow} {fields : List Value} :
      tables.classes[classIdx]? = some row →
      List.Forall₂ (HasType tables records) row.fields fields → RecordTyped (.object classIdx fields)
  | array {arrayTypeIdx : Nat} {row : CompiledArrayType} {dims : List Int} {elements : List Value} :
      tables.arrayTypes[arrayTypeIdx]? = some row → row.rank = dims.length →
      1 ≤ row.rank → row.rank ≤ kMaxArrayRank →
      validateArrayDims dims = some (elements.length : Int) →
      (∀ value ∈ elements, HasType tables records (elementEntry row) value) →
      RecordTyped (.array arrayTypeIdx dims elements)

structure Typed : Prop where
  records_typed : ∀ i record, content records i = some record → RecordTyped tables records record
  indices : records.length < 2 ^ 31

def ReadCall.entry : ReadCall → FieldEntry
  | .object declared => { kind := .cls, classIdx := some declared }
  | .array => { kind := .array }

def ReadCall.Suits (call : ReadCall) (root : Value) : Prop := HasType tables records call.entry root

structure Copied (root : Value) (after : Records) (copy : Value) (renamed : Nat → Nat) : Prop where
  null : renamed 0 = 0
  fresh : ∀ i, Reached records root i → records.length < renamed i
  injective : ∀ i j, Reached records root i → Reached records root j → renamed i = renamed j → i = j
  root_eq : copy = root.renumber renamed renamed
  records_eq : ∀ i, Reached records root i → ∃ record, content records i = some record ∧
    recordAt after (renamed i) = some (record.renumber renamed renamed)

def RoundTrips (call : ReadCall) (root : Value) (bytes : Bytes) : Prop :=
  ∃ copy after renamed, call.read tables records bytes = some (copy, after) ∧
    Copied records root after copy renamed

def Value.Fits : Value → Prop
  | .str text => text.length ≤ maxStringLength
  | .boxed kind payload =>
    match kind.scalarWidth with
    | some width => ∀ byte ∈ payload.drop width, byte = 0
    | none => payload.length ≤ maxStringLength
  | _ => True

def Value.Portable (leaf : Value) : Prop := leaf.Fits ∧ ∀ i, leaf = .handle i → i = 0

def Record.NamesFit : Record → Prop
  | .object classIdx _ => ∀ row, tables.classes[classIdx]? = some row → row.name.length ≤ maxStringLength
  | .array arrayTypeIdx _ _ => ∀ row, tables.arrayTypes[arrayTypeIdx]? = some row → row.elemKind = .struct →
      ∀ elem, row.elemTypeIdx.bind (tables.structs[·]?) = some elem → elem.name.length ≤ maxStringLength
  | .view .. => True

abbrev Walk := List Nat → Option (List Nat)

def walkAll (nested : FieldEntry → Value → Walk) (fields : List FieldEntry) (values : List Value) : Walk :=
  fun met => (fields.zip values).foldlM (fun met place => nested place.1 place.2 met) met

def classFields (classIdx : Nat) : List FieldEntry :=
  (tables.classes[classIdx]?.map (·.fields)).getD []

def walkRecord (nested : FieldEntry → Value → Walk) (elements : Option (FieldEntry → Value → Walk))
    (field : FieldEntry) (value : Value) : Walk := fun met =>
  match value with
  | .struct values =>
    match field.structIdx.bind (tables.structs[·]?) with
    | some row => walkAll nested row.fields values met
    | none => none
  | .ref 0 => some met
  | .ref i =>
    if i ∈ met then some met
    else match content records i with
      | some (.object classIdx values) =>
        walkAll nested (classFields tables classIdx) values (met ++ [i])
      | some (.array arrayTypeIdx _ values) =>
        match elements, tables.arrayTypes[arrayTypeIdx]? with
        | some visit, some row =>
          walkAll visit (List.replicate values.length (elementEntry row)) values (met ++ [i])
        | _, _ => none
      | _ => none
  | _ => some met

def walkField : Nat → FieldEntry → Value → Walk
  | 0 => fun field _ met => if field.kind ∈ plainKinds then some met else none
  | 1 => fun field => walkRecord tables records (walkField 0)
      (if field.kind = .cls then none else some (walkField 0)) field
  | levels+2 => fun field => walkRecord tables records (walkField (levels + 1))
      (some (if field.kind = .cls then walkField levels else walkField (levels + 1))) field

structure Portable (call : ReadCall) (root : Value) : Prop where
  root_leaves : ∀ leaf ∈ root.leaves, leaf.Portable
  leaves : ∀ i record, Reached records root i → content records i = some record →
    ∀ value ∈ record.values, ∀ leaf ∈ value.leaves, leaf.Portable
  names : ∀ i record, Reached records root i → content records i = some record → record.NamesFit tables
  levels : (walkField tables records depthLimit call.entry root []).isSome

end Graph

end NLang.Vm.ObjectStream
