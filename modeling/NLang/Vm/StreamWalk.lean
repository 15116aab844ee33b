import NLang.Vm.ObjectStream

/-!
# The walk of the object streams over any session

The writers and readers of `ObjectStream` with the heap and the id tables as parameters: what the writer asks of them,
and what the reader does to them. Over lists of records they are the writers and readers of a single stream.
-/

namespace NLang.Vm.StreamWalk
open NLang.Library.Words NLang.Library.Decoding NLang.Vm.ObjectStream

variable {σ : Type}

structure WriteOps (σ : Type) where
  peek : Nat → σ → Option Record
  /-- `serializeObjIds`: the id of a record written before; otherwise the record is registered. -/
  identity : Nat → σ → Option Nat × σ
  load : Nat → σ → Option (Record × σ)

section Writer
open Encoder
variable (ops : WriteOps σ) (tables : Tables)

def plainBytes (writer : Writer) : Encoder σ := fun s => (writer []).map fun (bytes, _) => (bytes, s)

def writeIdentity (i : Nat) (payload : Encoder σ) : Encoder σ := fun s =>
  match ops.identity i s with
  | (some id, s) => emit (2 :: putWord 4 id) s
  | (none, s) => payload s

def peeking (i : Nat) (next : Option Record → Encoder σ) : Encoder σ := fun s => next (ops.peek i s) s

def withRecord (i : Nat) (payload : Record → Encoder σ) : Encoder σ := fun s =>
  match ops.load i s with
  | some (record, s) => payload record s
  | none => none

abbrev NestedWriter (σ : Type) := FieldEntry → Value → Encoder σ

def serializeStructFields (nested : NestedWriter σ) (structIdx : Option Nat) (value : Value) : Encoder σ :=
  match structIdx.bind (tables.structs[·]?), value with
  | some row, .struct fields => all₂ nested row.fields fields
  | _, _ => refuse

def writeArrayElements (nested : NestedWriter σ) (row : CompiledArrayType) (elements : List Value) : Encoder σ :=
  if row.elemKind ∈ Rtk.struct :: plainKinds then all (nested (elementEntry row)) elements else refuse

def writeArrayPayload (nested : NestedWriter σ) : Record → Encoder σ
  | .array arrayTypeIdx dims elements =>
    match tables.arrayTypes[arrayTypeIdx]? with
    | some row => andThen (plainBytes (writeArrayHeader tables row dims)) (writeArrayElements nested row elements)
    | none => refuse
  | _ => refuse

def serializeArrayRecord (nested : NestedWriter σ) (i : Nat) : Encoder σ :=
  if i = 0 then emit [0]
  else peeking ops i fun
    | some (.array ..) | some (.view ..) => writeIdentity ops i (withRecord ops i (writeArrayPayload tables nested))
    | _ => refuse

def writeClassPayload (nested : NestedWriter σ) (classIdx : Nat) (fields : List Value) : Encoder σ :=
  match tables.classes[classIdx]? with
  | some row => andThen (emit (1 :: nameBytes row.name)) (all₂ nested row.fields fields)
  | none => refuse

def serializeReference (nested : NestedWriter σ) (i : Nat) : Encoder σ :=
  peeking ops i fun
    | some (.object classIdx fields) => writeIdentity ops i (writeClassPayload tables nested classIdx fields)
    | some (.array ..) | some (.view ..) => serializeArrayRecord ops tables nested i
    | none => refuse

def serializeClassFields (nested : NestedWriter σ) (value : Value) : Encoder σ :=
  match value with
  | .ref i => if i = 0 then emit [0] else serializeReference ops tables nested i
  | .boxed kind payload => plainBytes (writeBoxedRecord kind payload)
  | _ => refuse

def writeRecord (nested : NestedWriter σ) (field : FieldEntry) (value : Value) : Encoder σ :=
  match field.kind with
  | .struct => serializeStructFields tables nested field.structIdx value
  | .cls => if field.classIdx = none then refuse else serializeClassFields ops tables nested value
  | .array =>
    match value with
    | .ref i => serializeArrayRecord ops tables nested i
    | _ => refuse
  | _ => refuse

def serializeField : Nat → NestedWriter σ
  | 0 => fun field value => plainBytes (writePlain field value refuse)
  | levels+1 => fun field value =>
    if field.kind ∈ plainKinds then plainBytes (writePlain field value refuse)
    else writeRecord ops tables (serializeField levels) field value

def writeObject (value : Value) : Encoder σ :=
  serializeClassFields ops tables (serializeField ops tables (depthLimit - 1)) value

def writeStruct (structIdx : Nat) (value : Value) : Encoder σ :=
  serializeStructFields tables (serializeField ops tables (depthLimit - 1)) (some structIdx) value

end Writer

structure ReadOps (σ : Type) where
  resolve : Nat → σ → Option (Nat × σ)
  alloc : Record → σ → Nat × σ
  store : Nat → Record → σ → σ

section Reader
open Decoder
variable (ops : ReadOps σ) (tables : Tables) {α : Type}

def plainRead (read : Reader α) : Decoder σ α := fun bytes s =>
  (read bytes ⟨[], []⟩).map fun (value, rest, _) => (value, rest, s)

def readBackReference : Decoder σ Value := do
  let id ← word 4
  fun bytes s => (ops.resolve id s).map fun (i, s) => (.ref i, bytes, s)

def readRecordValues (start : Record) (finish : List Value → Record) (values : Decoder σ (List Value)) : Decoder σ Value := do
  let i ← fun bytes s => some ((ops.alloc start s).1, bytes, (ops.alloc start s).2)
  let values ← values
  modify (ops.store i (finish values))
  return .ref i

abbrev NestedReader (σ : Type) := FieldEntry → Decoder σ Value

def deserializeStructFields (nested : NestedReader σ) (structIdx : Option Nat) : Decoder σ Value :=
  match structIdx.bind (tables.structs[·]?) with
  | some row => do return .struct (← all nested row.fields)
  | none => fail

def deserializeArrayRecordTagged (nested : NestedReader σ) (tag : Nat) : Decoder σ Value :=
  match tag with
  | 0 => return .ref 0
  | 2 => readBackReference ops
  | 3 => do
      let (elemKind, elemTypeIdx) ← plainRead (readElementType tables)
      let dims ← plainRead readDims
      match tables.findArrayTypeDef elemKind elemTypeIdx dims.length, validateArrayDims dims with
      | some arrayTypeIdx, some count =>
        readRecordValues ops (.array arrayTypeIdx dims []) (.array arrayTypeIdx dims)
          (all (fun _ => nested { kind := elemKind, structIdx := elemTypeIdx }) (List.replicate count.toNat ()))
      | _, _ => fail
  | _ => fail

def deserializeClassFields (nested : NestedReader σ) (taggedArray : Decoder σ Value) (declared : Nat) :
    Decoder σ Value := do
  let tag ← word 1
  match tag with
  | 0 => return .ref 0
  | 1 =>
    let name ← plainRead readName
    match tables.findClass name with
    | none => fail
    | some classIdx =>
      if tables.isSubclassOf classIdx declared = false then fail
      else
        readRecordValues ops (.object classIdx []) (.object classIdx)
          (all nested ((tables.classes[classIdx]?.map (·.fields)).getD []))
  | 2 => readBackReference ops
  | 3 => if tables.objectRootClassIdx = some declared then taggedArray else fail
  | 4 => if tables.objectRootClassIdx = some declared then plainRead readBoxedRecord else fail
  | _ => fail

def readRecord (nested : NestedReader σ) (taggedArray : Decoder σ Value) (field : FieldEntry) : Decoder σ Value :=
  match field.kind with
  | .struct => deserializeStructFields tables nested field.structIdx
  | .cls =>
    match field.classIdx with
    | some declared => deserializeClassFields ops tables nested taggedArray declared
    | none => fail
  | .array => do deserializeArrayRecordTagged ops tables nested (← word 1)
  | _ => fail

def readPlainOr (field : FieldEntry) (other : Decoder σ Value) : Decoder σ Value :=
  if field.kind ∈ plainKinds then plainRead (readPlain field fail) else other

def deserializeField : Nat → NestedReader σ
  | 0 => fun field => readPlainOr field fail
  | 1 => fun field => readPlainOr field (readRecord ops tables (deserializeField 0) fail field)
  | levels+2 => fun field => readPlainOr field
      (readRecord ops tables (deserializeField (levels + 1))
        (deserializeArrayRecordTagged ops tables (deserializeField levels) 3) field)

inductive ReadCall where
  | object (declared : Nat)
  | array
  | struct (structIdx : Nat)

def ReadCall.reader : ReadCall → Decoder σ Value
  | .object declared =>
    deserializeClassFields ops tables (deserializeField ops tables (depthLimit - 1))
      (deserializeArrayRecordTagged ops tables (deserializeField ops tables (depthLimit - 2)) 3) declared
  | .array => do
      deserializeArrayRecordTagged ops tables (deserializeField ops tables (depthLimit - 1)) (← word 1)
  | .struct structIdx => deserializeStructFields tables (deserializeField ops tables (depthLimit - 1)) (some structIdx)

end Reader

section Keeps
variable {α β τ : Type} (Held : σ → Prop)

def Writes (writer : Encoder σ) : Prop := ∀ s bytes s', Held s → writer s = some (bytes, s') → Held s'

def Reads (reader : Decoder σ α) : Prop :=
  ∀ bytes s value rest s', Held s → reader bytes s = some (value, rest, s') → Held s'

structure WriteOps.Keeps (ops : WriteOps σ) : Prop where
  identity : ∀ i s, Held s → (ops.peek i s).isSome → Held (ops.identity i s).2
  load : ∀ i s record s', Held s → ops.load i s = some (record, s') → Held s'

structure ReadOps.Keeps (ops : ReadOps σ) : Prop where
  resolve : ∀ id s i s', Held s → ops.resolve id s = some (i, s') → Held s'
  alloc : ∀ record s, Held s → Held (ops.alloc record s).2
  store : ∀ i record s, Held s → Held (ops.store i record s)

variable {Held}

namespace Writes
open Encoder

theorem refuse : Writes Held refuse := fun _ _ _ _ written => nomatch written

theorem emit (bytes : Bytes) : Writes Held (emit bytes) := by
  intro s out s' held written
  obtain ⟨-, rfl⟩ := emit_eq_some.mp written
  exact held

theorem andThen {first second : Encoder σ} (one : Writes Held first) (two : Writes Held second) :
    Writes Held (andThen first second) := by
  intro s out s' held written
  obtain ⟨front, middle, back, first, second, -⟩ := andThen_eq_some.mp written
  exact two _ _ _ (one _ _ _ held first) second

theorem all {write : τ → Encoder σ} (each : ∀ item, Writes Held (write item)) (items : List τ) :
    Writes Held (all write items) := by
  induction items with
  | nil => exact .emit []
  | cons item items ih => exact .andThen (each item) ih

theorem all₂ {write : τ → α → Encoder σ} (each : ∀ item value, Writes Held (write item value)) (items : List τ)
    (values : List α) : Writes Held (all₂ write items values) := by
  induction items generalizing values with
  | nil =>
    cases values with
    | nil => exact .emit []
    | cons value values => exact .refuse
  | cons item items ih =>
    cases values with
    | nil => exact .refuse
    | cons value values => exact .andThen (each item value) (ih values)

theorem plainBytes (writer : Writer) : Writes Held (plainBytes writer) := by
  intro s out s' held written
  obtain ⟨⟨bytes, ids⟩, -, same⟩ := Option.map_eq_some_iff.mp written
  cases same
  exact held

section Ops
variable {ops : WriteOps σ} {tables : Tables} (keeps : ops.Keeps Held)
include keeps

theorem identity {i : Nat} {payload : Encoder σ} (inner : Writes Held payload) {s s' : σ} {bytes : Bytes} (held : Held s)
    (known : (ops.peek i s).isSome) (written : writeIdentity ops i payload s = some (bytes, s')) : Held s' := by
  have entered := keeps.identity i s held known
  unfold writeIdentity at written
  generalize ops.identity i s = result at entered written
  obtain ⟨found, middle⟩ := result
  cases found with
  | some id => exact emit _ _ _ _ entered written
  | none => exact inner _ _ _ entered written

theorem withRecord {i : Nat} {payload : Record → Encoder σ} (inner : ∀ record, Writes Held (payload record)) :
    Writes Held (withRecord ops i payload) := by
  intro s out s' held written
  unfold StreamWalk.withRecord at written
  cases loaded : ops.load i s with
  | none =>
    rw [loaded] at written
    cases written
  | some result =>
    rw [loaded] at written
    exact inner _ _ _ _ (keeps.load _ _ _ _ held loaded) written

variable {nested : NestedWriter σ} (below : ∀ field value, Writes Held (nested field value))
include below

omit keeps in
theorem structFields (structIdx : Option Nat) (value : Value) :
    Writes Held (serializeStructFields tables nested structIdx value) := by
  unfold serializeStructFields
  split
  · exact .all₂ below _ _
  · exact .refuse

omit keeps in
theorem arrayPayload (tables : Tables) (record : Record) : Writes Held (writeArrayPayload tables nested record) := by
  unfold writeArrayPayload
  split
  · split
    · refine .andThen (.plainBytes _) ?_
      unfold writeArrayElements
      split
      · exact .all (below _) _
      · exact .refuse
    · exact .refuse
  · exact .refuse

theorem arrayRecord (i : Nat) : Writes Held (serializeArrayRecord ops tables nested i) := by
  have inner := withRecord keeps (i := i) (arrayPayload below tables)
  unfold serializeArrayRecord
  split
  · exact .emit _
  · intro s out s' held written
    unfold peeking at written
    cases known : ops.peek i s with
    | none =>
      rw [known] at written
      cases written
    | some record =>
      have live : (ops.peek i s).isSome := by rw [known]; rfl
      rw [known] at written
      cases record with
      | object classIdx fields => cases written
      | array arrayTypeIdx dims elements => exact identity keeps inner held live written
      | view arrayTypeIdx dims strides offset target => exact identity keeps inner held live written

omit keeps in
theorem classPayload (classIdx : Nat) (fields : List Value) :
    Writes Held (writeClassPayload tables nested classIdx fields) := by
  unfold writeClassPayload
  split
  · exact .andThen (.emit _) (.all₂ below _ _)
  · exact .refuse

theorem reference (i : Nat) : Writes Held (serializeReference ops tables nested i) := by
  intro s out s' held written
  unfold serializeReference peeking at written
  cases known : ops.peek i s with
  | none =>
    rw [known] at written
    cases written
  | some record =>
    have live : (ops.peek i s).isSome := by rw [known]; rfl
    rw [known] at written
    cases record with
    | object classIdx fields => exact identity keeps (classPayload below classIdx fields) held live written
    | array arrayTypeIdx dims elements => exact arrayRecord keeps below i _ _ _ held written
    | view arrayTypeIdx dims strides offset target => exact arrayRecord keeps below i _ _ _ held written

theorem classFields (value : Value) : Writes Held (serializeClassFields ops tables nested value) := by
  cases value with
  | ref i =>
    unfold serializeClassFields
    dsimp only
    split
    · exact .emit _
    · exact reference keeps below i
  | boxed kind payload => exact .plainBytes _
  | scalar bytes => exact .refuse
  | handle i => exact .refuse
  | str bytes => exact .refuse
  | struct fields => exact .refuse
  | func => exact .refuse

theorem record (field : FieldEntry) (value : Value) : Writes Held (writeRecord ops tables nested field value) := by
  unfold writeRecord
  split
  · exact structFields below _ _
  · split
    · exact .refuse
    · exact classFields keeps below _
  · split
    · exact arrayRecord keeps below _
    · exact .refuse
  · exact .refuse

omit below in
theorem field (levels : Nat) (entry : FieldEntry) (value : Value) :
    Writes Held (serializeField ops tables levels entry value) := by
  induction levels generalizing entry value with
  | zero => exact .plainBytes _
  | succ levels ih =>
    unfold serializeField
    split
    · exact .plainBytes _
    · exact record keeps ih entry value

end Ops

end Writes

namespace Reads
open Decoder

theorem fail : Reads Held (fail : Decoder σ α) := fun _ _ _ _ _ _ read => absurd read fail_eq_some

theorem pure (value : α) : Reads Held (pure value : Decoder σ α) := by
  intro bytes s value' rest s' held read
  obtain ⟨-, -, rfl⟩ := pure_eq_some.mp read
  exact held

theorem bind {first : Decoder σ α} {next : α → Decoder σ β} (one : Reads Held first)
    (two : ∀ value, Reads Held (next value)) : Reads Held (first >>= next) := by
  intro bytes s result rest s' held read
  obtain ⟨value, back, middle, first, second⟩ := bind_eq_some.mp read
  exact two value _ _ _ _ _ (one _ _ _ _ _ held first) second

theorem ite {p : Prop} [Decidable p] {one two : Decoder σ α} (yes : Reads Held one) (no : Reads Held two) :
    Reads Held (if p then one else two) := by
  split
  · exact yes
  · exact no

theorem word (width : Nat) : Reads Held (word width : Decoder σ Nat) := by
  refine .bind (fun bytes s value rest s' held read => ?_) fun _ => .pure _
  unfold take at read
  split at read
  · cases read
    exact held
  · cases read

theorem all {read : τ → Decoder σ α} (each : ∀ item, Reads Held (read item)) (items : List τ) :
    Reads Held (all read items) := by
  induction items with
  | nil => exact .pure []
  | cons item items ih => exact .bind (each item) fun _ => .bind ih fun _ => .pure _

theorem plainRead (read : Reader α) : Reads Held (plainRead read : Decoder σ α) := by
  intro bytes s value rest s' held done
  obtain ⟨⟨value', rest', state⟩, -, same⟩ := Option.map_eq_some_iff.mp done
  cases same
  exact held

section Ops
variable {ops : ReadOps σ} {tables : Tables} (keeps : ops.Keeps Held)
include keeps

theorem backReference : Reads Held (readBackReference ops) := by
  refine .bind (word 4) fun id bytes s value rest s' held read => ?_
  obtain ⟨⟨i, middle⟩, found, same⟩ := Option.map_eq_some_iff.mp read
  cases same
  exact keeps.resolve _ _ _ _ held found

theorem recordValues {start : Record} {finish : List Value → Record} {values : Decoder σ (List Value)}
    (inner : Reads Held values) : Reads Held (readRecordValues ops start finish values) := by
  refine .bind (fun bytes s value rest s' held read => ?_) fun i => .bind inner fun made =>
    .bind (fun bytes s value rest s' held read => ?_) fun _ => .pure _
  · cases read
    exact keeps.alloc start s held
  · obtain ⟨-, rfl⟩ := modify_eq_some.mp read
    exact keeps.store i (finish made) s held

variable {nested : NestedReader σ} (below : ∀ field, Reads Held (nested field))
include below

omit keeps in
theorem structFields (structIdx : Option Nat) : Reads Held (deserializeStructFields tables nested structIdx) := by
  unfold deserializeStructFields
  cases structIdx.bind (tables.structs[·]?) with
  | none => exact .fail
  | some row => exact .bind (.all below _) fun _ => .pure _

theorem arrayRecordTagged (tag : Nat) : Reads Held (deserializeArrayRecordTagged ops tables nested tag) := by
  match tag with
  | 0 => exact .pure _
  | 1 => exact .fail
  | 2 => exact backReference keeps
  | 3 =>
    refine .bind (.plainRead _) fun ⟨elemKind, elemTypeIdx⟩ => .bind (.plainRead _) fun dims => ?_
    generalize tables.findArrayTypeDef elemKind elemTypeIdx dims.length = found
    generalize validateArrayDims dims = valid
    match found, valid with
    | some arrayTypeIdx, some count => exact recordValues keeps (.all (fun _ => below _) _)
    | none, _ => exact .fail
    | some _, none => exact .fail
  | tag + 4 => exact .fail

theorem classFields {taggedArray : Decoder σ Value} (tagged : Reads Held taggedArray) (declared : Nat) :
    Reads Held (deserializeClassFields ops tables nested taggedArray declared) := by
  refine .bind (word 1) fun tag => ?_
  match tag with
  | 0 => exact .pure _
  | 1 =>
    refine .bind (.plainRead _) fun name => ?_
    cases tables.findClass name with
    | none => exact .fail
    | some classIdx => exact .ite .fail (recordValues keeps (.all below _))
  | 2 => exact backReference keeps
  | 3 => exact .ite tagged .fail
  | 4 => exact .ite (.plainRead _) .fail
  | tag + 5 => exact .fail

theorem record {taggedArray : Decoder σ Value} (tagged : Reads Held taggedArray) (field : FieldEntry) :
    Reads Held (readRecord ops tables nested taggedArray field) := by
  unfold readRecord
  split
  · exact structFields below _
  · split
    · exact classFields keeps below tagged _
    · exact .fail
  · exact .bind (word 1) fun tag => arrayRecordTagged keeps below tag
  · exact .fail

omit keeps below in
theorem plainOr {other : Decoder σ Value} (reads : Reads Held other) (field : FieldEntry) :
    Reads Held (readPlainOr field other) := .ite (.plainRead _) reads

omit below in
theorem field (levels : Nat) (entry : FieldEntry) : Reads Held (deserializeField ops tables levels entry) :=
  match levels with
  | 0 => plainOr .fail entry
  | 1 => plainOr (record keeps (field 0) .fail entry) entry
  | levels + 2 => plainOr (record keeps (field (levels + 1)) (arrayRecordTagged keeps (field levels) 3) entry) entry

omit below in
theorem call (call : ReadCall) : Reads Held (call.reader ops tables) := by
  cases call with
  | object declared => exact classFields keeps (field keeps _) (arrayRecordTagged keeps (field keeps _) 3) declared
  | array => exact .bind (word 1) fun tag => arrayRecordTagged keeps (field keeps _) tag
  | struct structIdx => exact structFields (field keeps _) _

end Ops

end Reads

end Keeps

end NLang.Vm.StreamWalk
