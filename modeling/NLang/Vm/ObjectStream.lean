import NLang.Library.Decoding
import NLang.Vm.Alloc

/-!
# Object streams

`VmExecutorSer.h`, `VmExecutorSerArray.h` and the `writeObject`, `readObject` and `readArray` arms of
`IntrinsicsByteStream.cpp`. Structs and boxes have no identity on the wire and stand inline in the
place that holds them; objects, arrays and views are records with an index, and index `0` is null. A
scalar is the bytes of its registry width, which is all a typed read looks at. A thrown error is a
refusal. `levels` is what is left of `STRUCT_SERIALIZE_DEPTH_LIMIT`: the source counts it upwards.
-/

namespace NLang.Vm.ObjectStream
open NLang.Library.Words NLang.Library.Decoding

def depthLimit : Nat := 64
def maxStringLength : Nat := 16 * 1024 * 1024

def kindCode : Rtk → UInt8
  | .int32 => 0 | .float => 1 | .string => 2 | .struct => 3 | .cls => 4 | .array => 5 | .boxed => 6
  | .func => 7 | .list => 8 | .dict => 9 | .byte => 10 | .ubyte => 11 | .short => 12 | .ushort => 13
  | .uint32 => 14 | .long => 15 | .ulong => 16 | .double => 17 | .bool => 18 | .char => 19
  | .typeParam => 20 | .arrayView => 21 | .void => 0xFE

def plainKinds : List Rtk :=
  [.int32, .float, .string, .byte, .ubyte, .short, .ushort, .uint32, .long, .ulong, .double, .bool,
    .char]

def wireKind (code : UInt8) : Option Rtk :=
  (Rtk.struct :: plainKinds).find? fun kind => kindCode kind = code

structure StructRow where
  name : Bytes
  fields : List FieldEntry

structure ClassRow where
  name : Bytes
  superClassIdx : Option Nat
  fields : List FieldEntry

structure Tables where
  structs : List StructRow
  classes : List ClassRow
  arrayTypes : List CompiledArrayType
  structs_distinct : (structs.map (·.name)).Nodup
  classes_distinct : (classes.map (·.name)).Nodup
  arrayTypes_distinct : arrayTypes.Nodup
  plain_elements : ∀ row ∈ arrayTypes, row.elemKind ∈ plainKinds → row.elemTypeIdx = none

def objectName : Bytes := [79, 98, 106, 101, 99, 116]

namespace Tables

theorem plain_elements_nil : ∀ row ∈ ([] : List CompiledArrayType), row.elemKind ∈ plainKinds → row.elemTypeIdx = none :=
  nofun

variable (tables : Tables)

def findStruct (name : Bytes) : Option Nat := tables.structs.findIdx? fun row => row.name = name
def findClass (name : Bytes) : Option Nat := tables.classes.findIdx? fun row => row.name = name
def objectRootClassIdx : Option Nat := tables.findClass objectName

def findArrayTypeDef (elemKind : Rtk) (elemTypeIdx : Option Nat) (rank : Nat) : Option Nat :=
  tables.arrayTypes.findIdx? fun row => row = ⟨elemKind, elemTypeIdx, rank⟩

def superWithin : Nat → Nat → Nat → Bool
  | 0, _, _ => false
  | bound+1, current, declared =>
    current = declared ||
      match tables.classes[current]? with
      | some { superClassIdx := some next, .. } => superWithin bound next declared
      | _ => false

def isSubclassOf (actual declared : Nat) : Bool :=
  actual < 2 ^ 15 && declared < 2 ^ 15 &&
    tables.superWithin (tables.classes.length + 1) actual declared

end Tables

inductive Value where
  | scalar (bytes : Bytes)
  | handle (i : Nat)
  | str (bytes : Bytes)
  | struct (fields : List Value)
  | ref (i : Nat)
  | boxed (kind : Rtk) (payload : Bytes)
  | func

instance : Inhabited Value := ⟨.scalar []⟩

inductive Record where
  | object (classIdx : Nat) (fields : List Value)
  | array (arrayTypeIdx : Nat) (dims : List Int) (elements : List Value)
  | view (arrayTypeIdx : Nat) (dims strides : List Int) (offset : Int) (target : Nat)

abbrev Records := List Record

def recordAt (records : Records) : Nat → Option Record
  | 0 => none
  | i+1 => records[i]?

def viewAddress (dims strides : List Int) (offset : Int) (flat : Nat) : Int :=
  ((dims.zip strides).reverse.foldl
    (fun (address, rest) (dim, stride) => (address + rest % dim * stride, rest / dim))
    (offset, (flat : Int))).1

def content (records : Records) (i : Nat) : Option Record :=
  match recordAt records i with
  | some (.view arrayTypeIdx dims strides offset target) =>
    match recordAt records target with
    | some (.array _ _ elements) =>
      let element := fun flat =>
        elements.getD (viewAddress dims strides offset flat).toNat default
      some (.array arrayTypeIdx dims ((List.range dims.prod.toNat).map element))
    | _ => none
  | record => record

abbrev Writer := Encoder (List Nat)

abbrev WriteAt := FieldEntry → Value → Writer

def stringBytes (text : Bytes) : Bytes := putWord 4 text.length ++ text

def nameBytes (name : Bytes) : Bytes := putWord 4 name.length ++ name.take (name.length % 2 ^ 32)

section Writer
open Encoder
variable (tables : Tables) (records : Records)

def writePlain (field : FieldEntry) (value : Value) (other : Writer) : Writer :=
  match field.kind.scalarWidth with
  | some width =>
    match value with
    | .scalar bytes => emit bytes
    | .handle i => emit (putWord width i)
    | _ => refuse
  | none =>
    if field.kind = .string then
      match value with
      | .str text => emit (stringBytes text)
      | _ => refuse
    else other

def writeIdentity (i : Nat) (payload : Writer) : Writer := fun ids =>
  match ids.idxOf? i with
  | some k => emit (2 :: putWord 4 (k + 1)) ids
  | none => payload (ids ++ [i])

def serializeStructFields (nested : WriteAt) (structIdx : Option Nat) (value : Value) : Writer :=
  match structIdx.bind (tables.structs[·]?), value with
  | some row, .struct fields => all₂ nested row.fields fields
  | _, _ => refuse

def elementEntry (row : CompiledArrayType) : FieldEntry :=
  { kind := row.elemKind, structIdx := row.elemTypeIdx }

def dimsBytes (dims : List Int) : Bytes :=
  UInt8.ofNat dims.length :: dims.flatMap fun dim => putWord 4 dim.toNat

def writeArrayHeader (row : CompiledArrayType) (dims : List Int) : Writer :=
  if row.elemKind = .struct then
    match row.elemTypeIdx.bind (tables.structs[·]?) with
    | some elem => emit (3 :: kindCode row.elemKind :: (nameBytes elem.name ++ dimsBytes dims))
    | none => refuse
  else emit (3 :: kindCode row.elemKind :: dimsBytes dims)

def writeArrayElements (nested : WriteAt) (row : CompiledArrayType) (elements : List Value) : Writer :=
  if row.elemKind ∈ Rtk.struct :: plainKinds then all (nested (elementEntry row)) elements else refuse

def serializeArrayRecord (nested : WriteAt) (i : Nat) : Writer :=
  if i = 0 then emit [0]
  else match content records i with
    | some (.array arrayTypeIdx dims elements) => writeIdentity i <|
        match tables.arrayTypes[arrayTypeIdx]? with
        | some row => andThen (writeArrayHeader tables row dims) (writeArrayElements nested row elements)
        | none => refuse
    | _ => refuse

def writeBoxedRecord (kind : Rtk) (payload : Bytes) : Writer :=
  if kind = .string then emit (4 :: kindCode kind :: stringBytes payload)
  else match kind.scalarWidth with
    | some width => emit (4 :: kindCode kind :: payload.take width)
    | none => refuse

def serializeClassFields (nested : WriteAt) (value : Value) : Writer :=
  match value with
  | .ref 0 => emit [0]
  | .ref i =>
    match content records i with
    | some (.object classIdx fields) => writeIdentity i <|
        match tables.classes[classIdx]? with
        | some row => andThen (emit (1 :: nameBytes row.name)) (all₂ nested row.fields fields)
        | none => refuse
    | some (.array ..) => serializeArrayRecord tables records nested i
    | _ => refuse
  | .boxed kind payload => writeBoxedRecord kind payload
  | _ => refuse

def writeRecord (nested : WriteAt) (field : FieldEntry) (value : Value) : Writer :=
  match field.kind with
  | .struct => serializeStructFields tables nested field.structIdx value
  | .cls => if field.classIdx = none then refuse else serializeClassFields tables records nested value
  | .array =>
    match value with
    | .ref i => serializeArrayRecord tables records nested i
    | _ => refuse
  | _ => refuse

def serializeField : Nat → WriteAt
  | 0 => fun field value => writePlain field value refuse
  | levels+1 => fun field value =>
    writePlain field value (writeRecord tables records (serializeField levels) field value)

def writeObject (value : Value) : Option Bytes :=
  (serializeClassFields tables records (serializeField tables records (depthLimit - 1)) value []).map
    Prod.fst

end Writer

structure ReadState where
  records : Records
  deserializeObjIds : List Nat

abbrev Reader := Decoder ReadState

abbrev ReadAt := FieldEntry → Reader Value

section Reader
open Decoder
variable (tables : Tables)

def readString : Reader Bytes := do
  let len ← word 4
  -- A length with the top bit set is negative.
  if 2 ^ 31 ≤ len ∨ maxStringLength < len then fail else take len

def readName : Reader Bytes := do
  let len ← word 4
  if maxStringLength < len then fail else take len

def readPlain (field : FieldEntry) (other : Reader Value) : Reader Value :=
  match field.kind.scalarWidth with
  | some width => do return .scalar (← take width)
  | none => if field.kind = .string then do return .str (← readString) else other

def readBackReference : Reader Value := do
  let id ← word 4
  let state ← get
  match id with
  | 0 => fail
  | k+1 =>
    match state.deserializeObjIds[k]? with
    | some i => return .ref i
    | none => fail

def allocRecord (record : Record) : Reader Nat := do
  let state ← get
  let i := state.records.length + 1
  modify fun state =>
    { records := state.records ++ [record], deserializeObjIds := state.deserializeObjIds ++ [i] }
  return i

def storeRecord (i : Nat) (record : Record) : Reader Unit :=
  modify fun state => { state with records := state.records.set (i - 1) record }

def deserializeStructFields (nested : ReadAt) (structIdx : Option Nat) : Reader Value :=
  match structIdx.bind (tables.structs[·]?) with
  | some row => do return .struct (← all nested row.fields)
  | none => fail

def int32Of (word : Nat) : Int := if word < 2 ^ 31 then word else word - 2 ^ 32

def readElementType : Reader (Rtk × Option Nat) := do
  let code ← word 1
  match wireKind (UInt8.ofNat code) with
  | none => fail
  | some kind =>
    if kind = .struct then
      let name ← readName
      match tables.findStruct name with
      | some structIdx => return (.struct, some structIdx)
      | none => fail
    else return (kind, none)

def readDims : Reader (List Int) := do
  let rank ← word 1
  if rank < 1 ∨ kMaxArrayRank < rank then fail
  else all (fun _ => do return int32Of (← word 4)) (List.replicate rank ())

def deserializeArrayRecordTagged (nested : ReadAt) (tag : Nat) : Reader Value :=
  match tag with
  | 0 => return .ref 0
  | 2 => readBackReference
  | 3 => do
      let (elemKind, elemTypeIdx) ← readElementType tables
      let dims ← readDims
      match tables.findArrayTypeDef elemKind elemTypeIdx dims.length, validateArrayDims dims with
      | some arrayTypeIdx, some count =>
        let i ← allocRecord (.array arrayTypeIdx dims [])
        let elements ← all (fun _ => nested { kind := elemKind, structIdx := elemTypeIdx })
          (List.replicate count.toNat ())
        storeRecord i (.array arrayTypeIdx dims elements)
        return .ref i
      | _, _ => fail
  | _ => fail

def readBoxedRecord : Reader Value := do
  let code ← word 1
  match wireKind (UInt8.ofNat code) with
  | none => fail
  | some kind =>
    if kind = .string then return .boxed .string (← readString)
    else match kind.scalarWidth with
      | some width =>
        let bytes ← take width
        return .boxed kind (bytes ++ List.replicate (max 4 width - width) 0)
      | none => fail

def deserializeClassFields (nested : ReadAt) (taggedArray : Reader Value) (declared : Nat) :
    Reader Value := do
  let tag ← word 1
  match tag with
  | 0 => return .ref 0
  | 1 =>
    let name ← readName
    match tables.findClass name with
    | none => fail
    | some classIdx =>
      if tables.isSubclassOf classIdx declared = false then fail
      else
        let i ← allocRecord (.object classIdx [])
        let fields ← all nested ((tables.classes[classIdx]?.map (·.fields)).getD [])
        storeRecord i (.object classIdx fields)
        return .ref i
  | 2 => readBackReference
  | 3 => if tables.objectRootClassIdx = some declared then taggedArray else fail
  | 4 => if tables.objectRootClassIdx = some declared then readBoxedRecord else fail
  | _ => fail

def readRecord (nested : ReadAt) (taggedArray : Reader Value) (field : FieldEntry) : Reader Value :=
  match field.kind with
  | .struct => deserializeStructFields tables nested field.structIdx
  | .cls =>
    match field.classIdx with
    | some declared => deserializeClassFields tables nested taggedArray declared
    | none => fail
  | .array => do deserializeArrayRecordTagged tables nested (← word 1)
  | _ => fail

def deserializeField : Nat → ReadAt
  | 0 => fun field => readPlain field fail
  | 1 => fun field => readPlain field (readRecord tables (deserializeField 0) fail field)
  | levels+2 => fun field => readPlain field
      (readRecord tables (deserializeField (levels + 1))
        (deserializeArrayRecordTagged tables (deserializeField levels) 3) field)

end Reader

inductive ReadCall where
  | object (declared : Nat)
  | array

def ReadCall.reader (tables : Tables) : ReadCall → Reader Value
  | .object declared =>
    deserializeClassFields tables (deserializeField tables (depthLimit - 1))
      (deserializeArrayRecordTagged tables (deserializeField tables (depthLimit - 2)) 3) declared
  | .array => do
      deserializeArrayRecordTagged tables (deserializeField tables (depthLimit - 1)) (← Decoder.word 1)

def ReadCall.read (tables : Tables) (records : Records) (call : ReadCall) (bytes : Bytes) :
    Option (Value × Records) :=
  (call.reader tables bytes ⟨records, []⟩).map fun (value, _, state) => (value, state.records)

end NLang.Vm.ObjectStream
