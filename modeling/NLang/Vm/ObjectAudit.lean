import NLang.Vm.ObjectTypes

/-!
# What the readers take on trust

The readers of `ObjectStream`, walking the declared types, with a list of the values that they store without a look at
the declared type: what a back-reference names, what stands in an array-typed place, and the number in an
interface-typed one. Everything else they read as its type says.
-/

namespace NLang.Vm.ObjectStream
open NLang.Library.Words NLang.Library.Decoding

abbrev Place := FieldType × Value

structure Audit where
  state : ReadState
  trusted : List Place

abbrev Auditor := Decoder Audit

section Auditor
open Decoder

variable {α : Type}

def lift (read : Reader α) : Auditor α := fun bytes audit =>
  (read bytes audit.state).map fun (value, rest, state) => (value, rest, { audit with state })

def note (type : FieldType) (value : Value) : Auditor Unit :=
  modify fun audit => { audit with trusted := audit.trusted ++ [(type, value)] }

def trust (type : FieldType) (read : Auditor Value) : Auditor Value := do
  let value ← read
  note type value
  return value

variable (typed : TypedTables)

def auditPlain (type : FieldType) (other : Auditor Value) : Auditor Value :=
  match type with
  | .scalar _ | .enum | .string => lift (readPlain type.entry fail)
  | .iface _ => trust type (lift (readPlain type.entry fail))
  | _ => other

def auditStructFields (nested : FieldType → Auditor Value) (structIdx : Option Nat) : Auditor Value :=
  match structIdx with
  | some s =>
    if s < typed.tables.structs.length then do return .struct (← all nested (typed.structTypes s)) else fail
  | none => fail

def auditRecordValues (start : Record) (finish : List Value → Record) (values : Auditor (List Value)) : Auditor Value := do
  let i ← lift (allocRecord start)
  let values ← values
  lift (storeRecord i (finish values))
  return .ref i

def auditArrayRecordTagged (nested : FieldType → Auditor Value) (tag : Nat) : Auditor Value :=
  match tag with
  | 0 => return .ref 0
  | 2 => lift readBackReference
  | 3 => do
      let (elemKind, elemTypeIdx) ← lift (readElementType typed.tables)
      let dims ← lift readDims
      match typed.tables.findArrayTypeDef elemKind elemTypeIdx dims.length, validateArrayDims dims with
      | some arrayTypeIdx, some count =>
        auditRecordValues (.array arrayTypeIdx dims []) (.array arrayTypeIdx dims)
          (all (fun _ => nested (.element elemKind elemTypeIdx)) (List.replicate count.toNat ()))
      | _, _ => fail
  | _ => fail

def auditClassFields (nested : FieldType → Auditor Value) (taggedArray : Auditor Value) (declared : Nat) :
    Auditor Value := do
  let tag ← lift (word 1)
  match tag with
  | 0 => return .ref 0
  | 1 =>
    let name ← lift readName
    match typed.tables.findClass name with
    | none => fail
    | some classIdx =>
      if typed.tables.isSubclassOf classIdx declared = false then fail
      else auditRecordValues (.object classIdx []) (.object classIdx) (all nested (typed.classTypes classIdx))
  | 2 => trust (.cls (some declared)) (lift readBackReference)
  | 3 => if typed.tables.objectRootClassIdx = some declared then taggedArray else fail
  | 4 => if typed.tables.objectRootClassIdx = some declared then lift readBoxedRecord else fail
  | _ => fail

def auditRecord (nested : FieldType → Auditor Value) (taggedArray : Auditor Value) (type : FieldType) : Auditor Value :=
  match type with
  | .struct structIdx => auditStructFields typed nested structIdx
  | .cls (some declared) => auditClassFields typed nested taggedArray declared
  | .array row => trust (.array row) do auditArrayRecordTagged typed nested (← lift (word 1))
  | _ => fail

def auditField : Nat → FieldType → Auditor Value
  | 0 => fun type => auditPlain type fail
  | 1 => fun type => auditPlain type (auditRecord typed (auditField 0) fail type)
  | levels+2 => fun type => auditPlain type
      (auditRecord typed (auditField (levels + 1)) (auditArrayRecordTagged typed (auditField levels) 3) type)

def auditObject (declared : Nat) : Auditor Value :=
  auditClassFields typed (auditField typed (depthLimit - 1))
    (auditArrayRecordTagged typed (auditField typed (depthLimit - 2)) 3) declared

end Auditor

def Erases {α : Type} (auditor : Auditor α) (read : Reader α) : Prop :=
  ∀ bytes audit, (auditor bytes audit).map (fun (value, rest, audit) => (value, rest, audit.state)) =
    read bytes audit.state

namespace Erases
open Decoder
variable {α β : Type}

theorem lift (read : Reader α) : Erases (lift read) read := by
  intro bytes audit
  rw [ObjectStream.lift, Option.map_map]
  cases read bytes audit.state with
  | none => rfl
  | some result => rfl

theorem fail : Erases (fail : Auditor α) fail := fun _ _ => rfl

theorem pure (value : α) : Erases (pure value) (pure value) := fun _ _ => rfl

theorem bind_of {first : Auditor α} {read : Reader α} {next : α → Auditor β} {readNext : α → Reader β} (Fact : α → Prop)
    (one : Erases first read)
    (fact : ∀ bytes state value rest last, read bytes state = some (value, rest, last) → Fact value)
    (two : ∀ value, Fact value → Erases (next value) (readNext value)) : Erases (first >>= next) (read >>= readNext) := by
  intro bytes audit
  have here := one bytes audit
  change ((first bytes audit).bind fun (value, rest, middle) => next value rest middle).map _ =
    (read bytes audit.state).bind fun (value, rest, middle) => readNext value rest middle
  cases made : first bytes audit with
  | none =>
    rw [made] at here
    rw [← here]
    rfl
  | some result =>
    obtain ⟨value, rest, middle⟩ := result
    rw [made] at here
    rw [← here]
    exact two value (fact _ _ _ _ _ here.symm) rest middle

theorem bind {first : Auditor α} {read : Reader α} {next : α → Auditor β} {readNext : α → Reader β}
    (one : Erases first read) (two : ∀ value, Erases (next value) (readNext value)) :
    Erases (first >>= next) (read >>= readNext) :=
  bind_of (fun _ => True) one (fun _ _ _ _ _ _ => trivial) fun value _ => two value

theorem ite (p : Prop) [Decidable p] {auditor other : Auditor α} {read readOther : Reader α} (one : Erases auditor read)
    (two : Erases other readOther) : Erases (if p then auditor else other) (if p then read else readOther) := by
  split
  · exact one
  · exact two

theorem trust {type : FieldType} {auditor : Auditor Value} {read : Reader Value} (erases : Erases auditor read) :
    Erases (trust type auditor) read := by
  intro bytes audit
  rw [← erases bytes audit]
  change ((auditor bytes audit).bind fun (value, rest, middle) => some (value, rest, _)).map _ = _
  cases auditor bytes audit with
  | none => rfl
  | some result => rfl

theorem all {σ τ : Type} {auditor : σ → Auditor α} {read : τ → Reader α} (entry : σ → τ)
    (erases : ∀ item, Erases (auditor item) (read (entry item))) (items : List σ) :
    Erases (all auditor items) (Decoder.all read (items.map entry)) := by
  induction items with
  | nil => exact pure []
  | cons item items ih => exact bind (erases item) fun value => bind ih fun values => pure (value :: values)

end Erases

section Erasure
open Decoder
variable {typed : TypedTables}

theorem readPlain_plain {type : FieldType} (plain : type.entry.kind ∈ plainKinds) (other : Reader Value) :
    readPlain type.entry other = readPlain type.entry fail := by
  unfold readPlain
  split
  · rfl
  · rename_i wide
    rw [if_pos, if_pos]
    all_goals
      revert plain wide
      cases type.entry.kind <;> decide

theorem runtimeTypeKind_scalar (kind : Rtk) : (FieldType.scalar kind).entry.kind ∈ plainKinds := by
  cases kind <;> decide

theorem auditPlain_erases {type : FieldType} {auditor : Auditor Value} {other : Reader Value}
    (erases : Erases auditor other) : Erases (auditPlain type auditor) (readPlain type.entry other) := by
  have plain (plain : type.entry.kind ∈ plainKinds) : Erases (lift (readPlain type.entry fail)) (readPlain type.entry other) := by
    rw [readPlain_plain plain other]
    exact .lift _
  cases type with
  | scalar kind => exact plain (runtimeTypeKind_scalar kind)
  | enum => exact plain (by decide)
  | string => exact plain (by decide)
  | iface index => exact .trust (plain (show Rtk.int32 ∈ plainKinds by decide))
  | struct structIdx => exact erases
  | cls classIdx => exact erases
  | func => exact erases
  | typeParam => exact erases
  | array row => exact erases

theorem auditStructFields_erases {nested : FieldType → Auditor Value} {readNested : ReadAt}
    (erases : ∀ type, Erases (nested type) (readNested type.entry)) (structIdx : Option Nat) :
    Erases (auditStructFields typed nested structIdx) (deserializeStructFields typed.tables readNested structIdx) := by
  unfold auditStructFields deserializeStructFields
  cases structIdx with
  | none => exact .fail
  | some s =>
    rw [Option.bind_some]
    cases row : typed.tables.structs[s]? with
    | none =>
      dsimp only
      rw [if_neg (by have := List.getElem?_eq_none_iff.mp row; omega)]
      exact .fail
    | some structRow =>
      dsimp only
      rw [if_pos (List.getElem?_eq_some_iff.mp row).1, typed.structs_entry s structRow row]
      exact .bind (.all FieldType.entry erases _) fun values => .pure _

theorem auditRecordValues_erases {start : Record} {finish : List Value → Record} {values : Auditor (List Value)}
    {readValues : Reader (List Value)} (erases : Erases values readValues) :
    Erases (auditRecordValues start finish values) (do
      let i ← allocRecord start
      let values ← readValues
      storeRecord i (finish values)
      return .ref i) :=
  .bind (.lift _) fun _ => .bind erases fun _ => .bind (.lift _) fun _ => .pure _

theorem readElementType_kind {tables : Tables} {bytes rest : Bytes} {state last : ReadState}
    {result : Rtk × Option Nat} (read : readElementType tables bytes state = some (result, rest, last)) :
    (FieldType.element result.1 result.2).entry = { kind := result.1, structIdx := result.2 } := by
  unfold readElementType at read
  obtain ⟨code, back, middle, -, read⟩ := bind_eq_some.mp read
  cases known : wireKind (UInt8.ofNat code) with
  | none =>
    rw [known] at read
    exact absurd read fail_eq_some
  | some kind =>
    rw [known] at read
    dsimp only at read
    split at read
    · obtain ⟨name, back', middle', -, read⟩ := bind_eq_some.mp read
      cases found : tables.findStruct name with
      | none =>
        rw [found] at read
        exact absurd read fail_eq_some
      | some structIdx =>
        rw [found] at read
        obtain ⟨rfl, -⟩ := pure_eq_some.mp read
        rfl
    · rename_i apart
      obtain ⟨rfl, -⟩ := pure_eq_some.mp read
      have wire : kind ∈ Rtk.struct :: plainKinds := List.mem_of_find?_eq_some known
      revert wire apart
      cases kind <;> decide

theorem auditArrayRecordTagged_erases {nested : FieldType → Auditor Value} {readNested : ReadAt}
    (erases : ∀ type, Erases (nested type) (readNested type.entry)) (tag : Nat) :
    Erases (auditArrayRecordTagged typed nested tag) (deserializeArrayRecordTagged typed.tables readNested tag) := by
  match tag with
  | 0 => exact .pure _
  | 1 => exact .fail
  | 2 => exact .lift _
  | 3 =>
    refine .bind_of _ (.lift _) (fun _ _ _ _ _ => readElementType_kind) fun ⟨elemKind, elemTypeIdx⟩ entry => ?_
    refine .bind (.lift _) fun dims => ?_
    have element : ∀ item : Unit, Erases (nested (.element elemKind elemTypeIdx))
        (readNested { kind := elemKind, structIdx := elemTypeIdx }) := fun _ => entry ▸ erases _
    generalize typed.tables.findArrayTypeDef elemKind elemTypeIdx dims.length = found
    generalize validateArrayDims dims = valid
    match found, valid with
    | some arrayTypeIdx, some count =>
      have values : Erases (all (fun _ : Unit => nested (.element elemKind elemTypeIdx)) (List.replicate count.toNat ()))
          (all (fun _ : Unit => readNested { kind := elemKind, structIdx := elemTypeIdx })
            ((List.replicate count.toNat ()).map id)) := .all id element _
      rw [List.map_id] at values
      exact auditRecordValues_erases values
    | none, _ => exact .fail
    | some _, none => exact .fail
  | tag + 4 => exact .fail

theorem auditClassFields_erases {nested : FieldType → Auditor Value} {readNested : ReadAt}
    (erases : ∀ type, Erases (nested type) (readNested type.entry)) {taggedArray : Auditor Value}
    {readTaggedArray : Reader Value} (tagged : Erases taggedArray readTaggedArray) (declared : Nat) :
    Erases (auditClassFields typed nested taggedArray declared)
      (deserializeClassFields typed.tables readNested readTaggedArray declared) := by
  refine .bind (.lift _) fun tag => ?_
  match tag with
  | 0 => exact .pure _
  | 1 =>
    refine .bind (.lift _) fun name => ?_
    cases found : typed.tables.findClass name with
    | none => exact .fail
    | some classIdx =>
      dsimp only
      split
      · exact .fail
      · have inside := (List.findIdx?_eq_some_iff_getElem.mp found).1
        have row := List.getElem?_eq_getElem inside
        rw [row, Option.map_some, Option.getD_some, typed.classes_entry classIdx _ row]
        exact auditRecordValues_erases (.all FieldType.entry erases _)
  | 2 => exact .trust (.lift _)
  | 3 => exact .ite _ tagged .fail
  | 4 => exact .ite _ (.lift _) .fail
  | tag + 5 => exact .fail

theorem auditRecord_erases {nested : FieldType → Auditor Value} {readNested : ReadAt}
    (erases : ∀ type, Erases (nested type) (readNested type.entry)) {taggedArray : Auditor Value}
    {readTaggedArray : Reader Value} (tagged : Erases taggedArray readTaggedArray) (type : FieldType) :
    Erases (auditRecord typed nested taggedArray type)
      (readRecord typed.tables readNested readTaggedArray type.entry) := by
  cases type with
  | scalar kind => cases kind <;> exact .fail
  | struct structIdx => exact auditStructFields_erases erases structIdx
  | cls classIdx =>
    cases classIdx with
    | none => exact .fail
    | some declared => exact auditClassFields_erases erases tagged declared
  | array row => exact .trust (.bind (.lift _) fun tag => auditArrayRecordTagged_erases erases tag)
  | func => exact .fail
  | typeParam => exact .fail
  | enum => exact .fail
  | string => exact .fail
  | iface index => exact .fail

theorem auditField_erases (levels : Nat) (type : FieldType) :
    Erases (auditField typed levels type) (deserializeField typed.tables levels type.entry) :=
  match levels with
  | 0 => auditPlain_erases .fail
  | 1 => auditPlain_erases (auditRecord_erases (auditField_erases 0) .fail type)
  | levels + 2 => auditPlain_erases
      (auditRecord_erases (auditField_erases (levels + 1)) (auditArrayRecordTagged_erases (auditField_erases levels) 3) type)

theorem auditObject_erases (declared : Nat) :
    Erases (auditObject typed declared) ((ReadCall.object declared).reader typed.tables) :=
  auditClassFields_erases (auditField_erases _) (auditArrayRecordTagged_erases (auditField_erases _) 3) declared

end Erasure

end NLang.Vm.ObjectStream
