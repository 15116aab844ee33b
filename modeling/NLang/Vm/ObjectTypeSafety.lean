import NLang.Vm.ArrayAccess
import NLang.Vm.ObjectAudit

/-!
# Typed reads

What `readObject` makes of any bytes has the declared types exactly when what it takes on trust has them.
-/

namespace NLang.Vm.ObjectStream
open NLang.Library.Words NLang.Library.Decoding

section Safety
variable (typed : TypedTables)

def HaveTypes (types : Nat → Option RunType) (records : Records) : Prop :=
  ∀ i record, recordAt records i = some record → types i = some record.runType

theorem HaveTypes.of_append {types : Nat → Option RunType} {records more : Records}
    (haveTypes : HaveTypes types (records ++ more)) : HaveTypes types records := by
  intro i record at_i
  refine haveTypes i record ?_
  cases i with
  | zero => cases at_i
  | succ i =>
    rw [recordAt] at at_i ⊢
    rw [List.getElem?_append_left (List.getElem?_eq_some_iff.mp at_i).1, at_i]

theorem HaveTypes.of_set {types : Nat → Option RunType} {records : Records} {n : Nat} {record filled : Record}
    (haveTypes : HaveTypes types (records.set n filled)) (at_n : records[n]? = some record)
    (sameType : filled.runType = record.runType) : HaveTypes types records := by
  intro i other at_i
  cases i with
  | zero => cases at_i
  | succ i =>
    rw [recordAt] at at_i
    by_cases here : n = i
    · subst here
      cases at_n.symm.trans at_i
      rw [← sameType]
      exact haveTypes (n + 1) filled (by rw [recordAt, List.getElem?_set_self (List.getElem?_eq_some_iff.mp at_n).1])
    · exact haveTypes (i + 1) other (by rw [recordAt, List.getElem?_set_ne here, at_i])

def Audits {α : Type} (auditor : Auditor α) (F P : (Nat → Option RunType) → α → Prop) : Prop :=
  ∀ bytes audit value rest last, auditor bytes audit = some (value, rest, last) →
    ∃ used more trusted, bytes = used ++ rest ∧ last.state.records = audit.state.records ++ more ∧
      last.trusted = audit.trusted ++ trusted ∧ ∀ types, HaveTypes types last.state.records → F types value ∧
        ((P types value ∧ ∀ record ∈ more, RecordConforms typed types record) ↔
          ∀ place ∈ trusted, Conforms typed types place.1 place.2)

def Reads {α : Type} (read : Reader α) (Fact : α → Prop) : Prop :=
  ∀ bytes state value rest last, read bytes state = some (value, rest, last) →
    (∃ used, bytes = used ++ rest) ∧ last = state ∧ Fact value

end Safety

namespace Reads
open Decoder
variable {α β : Type}

theorem fail (Fact : α → Prop) : Reads fail Fact := fun _ _ _ _ _ read => absurd read fail_eq_some

theorem pure {Fact : α → Prop} {value : α} (fact : Fact value) : Reads (pure value) Fact := by
  intro bytes state value' rest last read
  obtain ⟨rfl, rfl, rfl⟩ := pure_eq_some.mp read
  exact ⟨⟨[], rfl⟩, rfl, fact⟩

theorem bind {first : Reader α} {next : α → Reader β} {Fact : α → Prop} {Fact' : β → Prop} (one : Reads first Fact)
    (two : ∀ value, Fact value → Reads (next value) Fact') : Reads (first >>= next) Fact' := by
  intro bytes state result rest last read
  obtain ⟨value, back, middle, here, later⟩ := bind_eq_some.mp read
  obtain ⟨⟨front, rfl⟩, rfl, fact⟩ := one _ _ _ _ _ here
  obtain ⟨⟨used, rfl⟩, same, fact'⟩ := two value fact _ _ _ _ _ later
  exact ⟨⟨front ++ used, (List.append_assoc ..).symm⟩, same, fact'⟩

theorem ite {p : Prop} [Decidable p] {one two : Reader α} {Fact : α → Prop} (yes : p → Reads one Fact)
    (no : ¬ p → Reads two Fact) : Reads (if p then one else two) Fact := by
  split
  · exact yes ‹_›
  · exact no ‹_›

theorem take (count : Nat) : Reads (take count) (fun bytes => bytes.length = count) := by
  intro bytes state value rest last read
  unfold Decoder.take at read
  split at read
  · cases read
    exact ⟨⟨_, (List.take_append_drop count bytes).symm⟩, rfl, List.length_take_of_le ‹_›⟩
  · cases read

theorem word (width : Nat) : Reads (word width) (fun _ => True) :=
  .bind (take width) fun _ _ => .pure trivial

theorem get : Reads Decoder.get (fun _ => True) := by
  intro bytes state value rest last read
  obtain ⟨rfl, rfl, rfl⟩ := get_eq_some.mp read
  exact ⟨⟨[], rfl⟩, rfl, trivial⟩

theorem all {τ : Type} {read : τ → Reader α} {Fact : α → Prop} (reads : ∀ item, Reads (read item) Fact)
    (items : List τ) : Reads (all read items) (fun values => values.length = items.length) := by
  induction items with
  | nil => exact .pure rfl
  | cons item items ih =>
    refine .bind (reads item) fun value _ => .bind ih fun values count => .pure ?_
    rw [List.length_cons, List.length_cons, count]

theorem mono {read : Reader α} {Fact Fact' : α → Prop} (reads : Reads read Fact)
    (weaker : ∀ value, Fact value → Fact' value) : Reads read Fact' := by
  intro bytes state value rest last run
  obtain ⟨used, same, fact⟩ := reads _ _ _ _ _ run
  exact ⟨used, same, weaker value fact⟩

theorem string : Reads readString (fun _ => True) :=
  .bind (word 4) fun _ _ => .ite (fun _ => .fail _) fun _ => (take _).mono fun _ _ => trivial

theorem name : Reads readName (fun _ => True) :=
  .bind (word 4) fun _ _ => .ite (fun _ => .fail _) fun _ => (take _).mono fun _ _ => trivial

theorem backReference : Reads readBackReference (fun _ => True) := by
  refine .bind (word 4) fun id _ => .bind get fun state _ => ?_
  cases id with
  | zero => exact .fail _
  | succ k =>
    cases known : state.deserializeObjIds[k]? with
    | none =>
      simp only [known]
      exact .fail _
    | some i =>
      simp only [known]
      exact .pure trivial

theorem elementType (tables : Tables) : Reads (readElementType tables) (fun _ => True) := by
  refine .bind (word 1) fun code _ => ?_
  cases wireKind (UInt8.ofNat code) with
  | none => exact .fail _
  | some kind =>
    refine .ite (fun _ => .bind name fun structName _ => ?_) fun _ => .pure trivial
    cases tables.findStruct structName with
    | none => exact .fail _
    | some structIdx => exact .pure trivial

theorem dims : Reads readDims (fun _ => True) := by
  refine .bind (word 1) fun rank _ => .ite (fun _ => .fail _) fun _ => ?_
  have each : ∀ _ : Unit, Reads (do return int32Of (← Decoder.word 4)) (fun _ => True) :=
    fun _ => .bind (word 4) fun _ _ => .pure trivial
  exact (all each _).mono fun _ _ => trivial

theorem boxedRecord : Reads readBoxedRecord (fun value => ∃ kind payload, value = .boxed kind payload ∧ BoxFits kind payload) := by
  refine .bind (word 1) fun code _ => ?_
  cases wireKind (UInt8.ofNat code) with
  | none => exact .fail _
  | some kind =>
    refine .ite (fun _ => .bind string fun text _ => .pure ⟨.string, text, rfl, .inl rfl⟩) fun _ => ?_
    cases wide : kind.scalarWidth with
    | none => exact .fail _
    | some width =>
      refine .bind (take width) fun bytes long => .pure ⟨kind, _, rfl, .inr ⟨width, wide, ?_⟩⟩
      rw [List.length_append, List.length_replicate, long]
      omega

theorem plain (typed : TypedTables) {type : FieldType} (plain : type.entry.kind ∈ plainKinds)
    (known : type.declType ≠ .iface) : Reads (readPlain type.entry Decoder.fail)
      (fun value => ∀ types, Conforms typed types type value) := by
  unfold readPlain
  cases wide : type.entry.kind.scalarWidth with
  | some width =>
    refine .bind (take width) fun bytes long => .pure fun types => .scalar known ?_
    rw [wide, long]
  | none =>
    refine .ite (fun text => .bind string fun bytes _ => .pure fun types => ?_) fun _ => .fail _
    cases type with
    | string => exact .string
    | scalar kind => cases kind <;> cases text
    | _ => cases text

theorem plain_iface (index : Nat) : Reads (readPlain (FieldType.iface index).entry Decoder.fail) (fun _ => True) :=
  .bind (take 4) fun _ _ => .pure trivial

end Reads

namespace Audits
open Decoder
variable {α β : Type} {typed : TypedTables} {F F' P P' : (Nat → Option RunType) → α → Prop}

theorem fail : Audits typed (fail : Auditor α) F P := fun _ _ _ _ _ run => absurd run fail_eq_some

theorem ite {p : Prop} [Decidable p] {one two : Auditor α} (yes : p → Audits typed one F P)
    (no : ¬ p → Audits typed two F P) : Audits typed (if p then one else two) F P := by
  split
  · exact yes ‹_›
  · exact no ‹_›

theorem lift {read : Reader α} {Fact : α → Prop} (reads : Reads read Fact) :
    Audits typed (lift read) (fun _ => Fact) (fun _ _ => True) := by
  intro bytes audit value rest last run
  obtain ⟨⟨value', rest', state⟩, made, same⟩ := Option.map_eq_some_iff.mp run
  cases same
  obtain ⟨⟨used, rfl⟩, rfl, fact⟩ := reads _ _ _ _ _ made
  exact ⟨used, [], [], rfl, (List.append_nil _).symm, (List.append_nil _).symm, fun types _ => ⟨fact, by simp⟩⟩

theorem change {auditor : Auditor α} (audits : Audits typed auditor F P) (facts : ∀ types value, F types value → F' types value)
    (same : ∀ types value, F types value → (P types value ↔ P' types value)) : Audits typed auditor F' P' := by
  intro bytes audit value rest last run
  obtain ⟨used, more, trusted, consumed, records, places, conform⟩ := audits _ _ _ _ _ run
  refine ⟨used, more, trusted, consumed, records, places, fun types haveTypes => ?_⟩
  obtain ⟨fact, iff⟩ := conform types haveTypes
  exact ⟨facts types value fact, by rw [← same types value fact, iff]⟩

theorem lift_bind {read : Reader β} {Fact : β → Prop} {next : β → Auditor α} (reads : Reads read Fact)
    (audits : ∀ value, Fact value → Audits typed (next value) F P) :
    Audits typed (ObjectStream.lift read >>= next) F P := by
  intro bytes audit result rest last run
  obtain ⟨value, back, middle, one, two⟩ := bind_eq_some.mp run
  obtain ⟨⟨value', rest', state⟩, made, same⟩ := Option.map_eq_some_iff.mp one
  cases same
  obtain ⟨⟨front, rfl⟩, rfl, fact⟩ := reads _ _ _ _ _ made
  obtain ⟨used, more, trusted, rfl, rest⟩ := audits _ fact _ _ _ _ _ two
  exact ⟨front ++ used, more, trusted, (List.append_assoc ..).symm, rest⟩

theorem pure (value : α) : Audits typed (pure value) (fun _ made => made = value) (fun _ _ => True) := by
  intro bytes audit value' rest last run
  obtain ⟨rfl, rfl, rfl⟩ := pure_eq_some.mp run
  exact ⟨[], [], [], rfl, (List.append_nil _).symm, (List.append_nil _).symm, fun types _ => ⟨rfl, by simp⟩⟩

theorem map {auditor : Auditor α} {f : α → β} {F' P' : (Nat → Option RunType) → β → Prop}
    (audits : Audits typed auditor F P) (facts : ∀ types value, F types value → F' types (f value))
    (same : ∀ types value, F types value → (P types value ↔ P' types (f value))) :
    Audits typed (auditor >>= fun value => Pure.pure (f value)) F' P' := by
  intro bytes audit result rest last run
  obtain ⟨value, back, middle, one, done⟩ := bind_eq_some.mp run
  obtain ⟨rfl, rfl, rfl⟩ := pure_eq_some.mp done
  obtain ⟨used, more, trusted, consumed, records, places, conform⟩ := audits _ _ _ _ _ one
  refine ⟨used, more, trusted, consumed, records, places, fun types haveTypes => ?_⟩
  obtain ⟨fact, iff⟩ := conform types haveTypes
  exact ⟨facts types value fact, by rw [← same types value fact, iff]⟩

theorem trust {F P : (Nat → Option RunType) → Value → Prop} {auditor : Auditor Value} (audits : Audits typed auditor F P)
    (type : FieldType) : Audits typed (trust type auditor) F (fun types value => P types value ∧ Conforms typed types type value) := by
  intro bytes audit result rest last run
  obtain ⟨value, back, middle, one, two⟩ := bind_eq_some.mp run
  obtain ⟨_, back', middle', noted, done⟩ := bind_eq_some.mp two
  obtain ⟨rfl, rfl⟩ := modify_eq_some.mp noted
  obtain ⟨rfl, rfl, rfl⟩ := pure_eq_some.mp done
  obtain ⟨used, more, trusted, consumed, records, places, conform⟩ := audits _ _ _ _ _ one
  refine ⟨used, more, trusted ++ [(type, value)], consumed, records, ?_, fun types haveTypes => ?_⟩
  · show middle.trusted ++ _ = _
    rw [places, List.append_assoc]
  · obtain ⟨fact, iff⟩ := conform types haveTypes
    refine ⟨fact, ?_⟩
    rw [List.forall_mem_append, ← iff, List.forall_mem_singleton, and_right_comm]

theorem all {σ : Type} {auditor : σ → Auditor α} {P : σ → (Nat → Option RunType) → α → Prop}
    (audits : ∀ item, Audits typed (auditor item) (fun _ _ => True) (P item)) (items : List σ) :
    Audits typed (all auditor items) (fun _ values => values.length = items.length)
      (fun types values => List.Forall₂ (fun item value => P item types value) items values) := by
  induction items with
  | nil =>
    refine (pure []).change (fun types values made => ?_) fun types values made => ?_
    · rw [made]
      rfl
    · simp [made]
  | cons item items ih =>
    intro bytes audit result rest last run
    obtain ⟨value, back, middle, one, others⟩ := bind_eq_some.mp run
    obtain ⟨values, front, later, two, done⟩ := bind_eq_some.mp others
    obtain ⟨rfl, rfl, rfl⟩ := pure_eq_some.mp done
    obtain ⟨used, more, trusted, rfl, records, places, conform⟩ := audits item _ _ _ _ _ one
    obtain ⟨used', more', trusted', rfl, records', places', conform'⟩ := ih _ _ _ _ _ two
    refine ⟨used ++ used', more ++ more', trusted ++ trusted', (List.append_assoc ..).symm, ?_, ?_, ?_⟩
    · rw [records', records, List.append_assoc]
    · rw [places', places, List.append_assoc]
    · intro types haveTypes
      obtain ⟨-, iff⟩ := conform types (records' ▸ haveTypes).of_append
      obtain ⟨count, iff'⟩ := conform' types haveTypes
      dsimp only at count iff' ⊢
      refine ⟨by rw [List.length_cons, List.length_cons, count], ?_⟩
      rw [List.forall₂_cons, List.forall_mem_append, List.forall_mem_append, ← iff, ← iff', and_and_and_comm]

theorem record (start : Record) (finish : List Value → Record) {values : Auditor (List Value)}
    {F P : (Nat → Option RunType) → List Value → Prop} (audits : Audits typed values F P)
    (sameType : ∀ made, (finish made).runType = start.runType)
    (conform : ∀ types made, F types made → (P types made ↔ RecordConforms typed types (finish made))) :
    Audits typed (auditRecordValues start finish values)
      (fun types value => ∃ i, value = .ref (i + 1) ∧ types (i + 1) = some start.runType) (fun _ _ => True) := by
  intro bytes audit result rest last run
  obtain ⟨i, back, middle, alloc, run⟩ := bind_eq_some.mp run
  obtain ⟨made, front, later, read, run⟩ := bind_eq_some.mp run
  obtain ⟨_, back', stored, store, done⟩ := bind_eq_some.mp run
  obtain ⟨rfl, rfl, rfl⟩ := pure_eq_some.mp done
  obtain ⟨⟨i', rest', state⟩, allocated, same⟩ := Option.map_eq_some_iff.mp alloc
  cases same
  obtain ⟨⟨_, rest'', state'⟩, kept, same⟩ := Option.map_eq_some_iff.mp store
  cases same
  cases allocated
  cases kept
  obtain ⟨used, more, trusted, consumed, records, places, conforms⟩ := audits _ _ _ _ _ read
  have final : (later.state.records.set audit.state.records.length (finish made)) =
      audit.state.records ++ (finish made :: more) := by
    rw [records, List.append_assoc, List.set_append_right _ _ (Nat.le_refl _), Nat.sub_self]
    rfl
  refine ⟨used, finish made :: more, trusted, consumed, final, places, fun types haveTypes => ?_⟩
  have at_start : later.state.records[audit.state.records.length]? = some start := by
    rw [records, List.append_assoc, List.getElem?_append_right (Nat.le_refl _), Nat.sub_self]
    rfl
  obtain ⟨fact, iff⟩ := conforms types (haveTypes.of_set at_start (sameType made))
  refine ⟨⟨_, rfl, ?_⟩, ?_⟩
  · rw [← sameType made]
    refine haveTypes _ (finish made) ?_
    show (later.state.records.set audit.state.records.length (finish made))[audit.state.records.length]? = _
    rw [List.getElem?_set_self (List.getElem?_eq_some_iff.mp at_start).1]
  · rw [← iff, List.forall_mem_cons, conform types made fact, true_and]

end Audits

theorem forall₂_replicate {α : Type} {P : α → Prop} {count : Nat} {values : List α} :
    List.Forall₂ (fun _ value => P value) (List.replicate count ()) values ↔
      values.length = count ∧ ∀ value ∈ values, P value := by
  induction count generalizing values with
  | zero =>
    cases values with
    | nil => simp
    | cons value values => simp
  | succ count ih =>
    cases values with
    | nil => simp [List.replicate_succ]
    | cons value values => simp [List.replicate_succ, ih, and_left_comm]

section Readers
open Decoder
variable {typed : TypedTables}

def AuditsType (typed : TypedTables) (auditor : FieldType → Auditor Value) : Prop :=
  ∀ type, Audits typed (auditor type) (fun _ _ => True) (fun types => Conforms typed types type)

theorem auditPlain_audits {type : FieldType} {other : Auditor Value}
    (audits : Audits typed other (fun _ _ => True) (fun types => Conforms typed types type)) :
    Audits typed (auditPlain type other) (fun _ _ => True) (fun types => Conforms typed types type) := by
  have plain (plain : type.entry.kind ∈ plainKinds) (known : type.declType ≠ .iface) :
      Audits typed (lift (readPlain type.entry fail)) (fun _ _ => True) (fun types => Conforms typed types type) :=
    (Audits.lift (.plain typed plain known)).change (fun _ _ _ => trivial) fun types value conform =>
      ⟨fun _ => conform types, fun _ => trivial⟩
  cases type with
  | scalar kind => exact plain (runtimeTypeKind_scalar kind) nofun
  | enum => exact plain (show Rtk.int32 ∈ plainKinds by decide) nofun
  | string => exact plain (show Rtk.string ∈ plainKinds by decide) nofun
  | iface index =>
    exact ((Audits.lift (.plain_iface index)).trust _).change (fun _ _ _ => trivial) fun _ _ _ => and_iff_right trivial
  | struct structIdx => exact audits
  | cls classIdx => exact audits
  | func => exact audits
  | typeParam => exact audits
  | array row => exact audits

variable {nested : FieldType → Auditor Value} (audits : AuditsType typed nested)
include audits

theorem auditStructFields_audits (structIdx : Option Nat) :
    Audits typed (auditStructFields typed nested structIdx) (fun _ _ => True)
      (fun types => Conforms typed types (.struct structIdx)) := by
  unfold auditStructFields
  cases structIdx with
  | none => exact .fail
  | some s =>
    dsimp only
    split
    · refine (Audits.all audits (typed.structTypes s)).map (fun _ _ _ => trivial) fun types values _ => ?_
      constructor
      · exact fun conform => .struct conform
      · intro conform
        cases conform with
        | struct conform => exact conform
    · exact .fail

theorem auditArrayRecordTagged_audits (tag : Nat) : Audits typed (auditArrayRecordTagged typed nested tag)
    (fun types value => tag = 3 → ∃ i arrayTypeIdx, value = .ref i ∧ types i = some (.array arrayTypeIdx))
    (fun _ _ => True) := by
  match tag with
  | 0 => exact (Audits.pure _).change (fun _ _ _ => nofun) fun _ _ _ => Iff.rfl
  | 1 => exact .fail
  | 2 => exact (Audits.lift .backReference).change (fun _ _ _ => nofun) fun _ _ _ => Iff.rfl
  | 3 =>
    refine .lift_bind (.elementType _) fun ⟨elemKind, elemTypeIdx⟩ _ => .lift_bind .dims fun dims _ => ?_
    cases found : typed.tables.findArrayTypeDef elemKind elemTypeIdx dims.length with
    | none => exact .fail
    | some arrayTypeIdx =>
      cases valid : validateArrayDims dims with
      | none => exact .fail
      | some count =>
        obtain ⟨inside, named, -⟩ := List.findIdx?_eq_some_iff_getElem.mp found
        have row : typed.tables.arrayTypes[arrayTypeIdx]? = some ⟨elemKind, elemTypeIdx, dims.length⟩ := by
          rw [List.getElem?_eq_getElem inside, decide_eq_true_eq.mp named]
        have elements := Audits.all (fun _ : Unit => audits (.element elemKind elemTypeIdx))
          (List.replicate count.toNat ())
        have positive : (count.toNat : Int) = count := by
          obtain ⟨size, -, bounds⟩ := validateArrayDims_eq valid
          rw [Int.toNat_of_nonneg (size ▸ List.prod_nonneg fun dim member => (bounds dim member).1)]
        have recorded := Audits.record (.array arrayTypeIdx dims []) (.array arrayTypeIdx dims) elements
          (fun _ => rfl) fun types made long => by
            rw [List.length_replicate] at long
            rw [forall₂_replicate, and_iff_right long]
            constructor
            · exact fun conform => .array row rfl (by rw [long, positive, valid]) conform
            · intro conform
              cases conform with
              | array at_row _ _ conform =>
                cases row.symm.trans at_row
                exact conform
        exact recorded.change (fun types value ⟨i, same, at_i⟩ _ => ⟨i + 1, arrayTypeIdx, same, at_i⟩)
          fun _ _ _ => Iff.rfl
  | tag + 4 => exact .fail

theorem auditClassFields_audits {taggedArray : Auditor Value}
    (tagged : Audits typed taggedArray
      (fun types value => ∃ i arrayTypeIdx, value = .ref i ∧ types i = some (.array arrayTypeIdx)) (fun _ _ => True))
    (declared : Nat) : Audits typed (auditClassFields typed nested taggedArray declared) (fun _ _ => True)
      (fun types => Conforms typed types (.cls (some declared))) := by
  refine .lift_bind (.word 1) fun tag _ => ?_
  match tag with
  | 0 =>
    refine (Audits.pure (Value.ref 0)).change (fun _ _ _ => trivial) fun types value null => ?_
    rw [null]
    exact ⟨fun _ => .nullClass, fun _ => trivial⟩
  | 1 =>
    refine .lift_bind .name fun name _ => ?_
    cases found : typed.tables.findClass name with
    | none => exact .fail
    | some classIdx =>
      dsimp only
      split
      · exact .fail
      · rename_i accepted
        have below : typed.tables.superWithin (typed.tables.classes.length + 1) classIdx declared = true := by
          rw [Bool.not_eq_false, Tables.isSubclassOf, Bool.and_eq_true] at accepted
          exact accepted.2
        have recorded := Audits.record (.object classIdx []) (.object classIdx)
          (Audits.all audits (typed.classTypes classIdx)) (fun _ => rfl) fun types made _ =>
            ⟨fun conform => .object conform, fun conform => by cases conform with | object conform => exact conform⟩
        refine recorded.change (fun _ _ _ => trivial) fun types value ⟨i, same, at_i⟩ => ?_
        rw [same]
        exact ⟨fun _ => .object at_i below, fun _ => trivial⟩
  | 2 => exact ((Audits.lift .backReference).trust _).change (fun _ _ _ => trivial) fun _ _ _ => and_iff_right trivial
  | 3 =>
    refine .ite (fun top => ?_) fun _ => .fail
    refine tagged.change (fun _ _ _ => trivial) fun types value ⟨i, arrayTypeIdx, same, at_i⟩ => ?_
    rw [same]
    exact ⟨fun _ => .object at_i top, fun _ => trivial⟩
  | 4 =>
    refine .ite (fun top => ?_) fun _ => .fail
    refine (Audits.lift .boxedRecord).change (fun _ _ _ => trivial) fun types value ⟨kind, payload, same, fits⟩ => ?_
    rw [same]
    exact ⟨fun _ => .boxed top fits, fun _ => trivial⟩
  | tag + 5 => exact .fail

theorem auditRecord_audits {taggedArray : Auditor Value}
    (tagged : Audits typed taggedArray
      (fun types value => ∃ i arrayTypeIdx, value = .ref i ∧ types i = some (.array arrayTypeIdx)) (fun _ _ => True))
    (type : FieldType) : Audits typed (auditRecord typed nested taggedArray type) (fun _ _ => True)
      (fun types => Conforms typed types type) := by
  cases type with
  | struct structIdx => exact auditStructFields_audits audits structIdx
  | cls classIdx =>
    cases classIdx with
    | none => exact .fail
    | some declared => exact auditClassFields_audits audits tagged declared
  | array row =>
    have read : Audits typed (do auditArrayRecordTagged typed nested (← lift (word 1))) (fun _ _ => True)
        (fun _ _ => True) := .lift_bind (.word 1) fun tag _ =>
      (auditArrayRecordTagged_audits audits tag).change (fun _ _ _ => trivial) fun _ _ _ => Iff.rfl
    exact (read.trust _).change (fun _ _ _ => trivial) fun _ _ _ => and_iff_right trivial
  | scalar kind => exact .fail
  | enum => exact .fail
  | string => exact .fail
  | func => exact .fail
  | typeParam => exact .fail
  | iface index => exact .fail

theorem taggedArray_audits : Audits typed (auditArrayRecordTagged typed nested 3)
    (fun types value => ∃ i arrayTypeIdx, value = .ref i ∧ types i = some (.array arrayTypeIdx)) (fun _ _ => True) :=
  (auditArrayRecordTagged_audits audits 3).change (fun _ _ fact => fact rfl) fun _ _ _ => Iff.rfl

omit audits in
theorem auditField_audits (levels : Nat) : AuditsType typed (auditField typed levels) :=
  match levels with
  | 0 => fun _ => auditPlain_audits .fail
  | 1 => fun type => auditPlain_audits (auditRecord_audits (auditField_audits 0) .fail type)
  | levels + 2 => fun type => auditPlain_audits
      (auditRecord_audits (auditField_audits (levels + 1)) (taggedArray_audits (auditField_audits levels)) type)

omit audits in
theorem auditObject_audits (declared : Nat) : Audits typed (auditObject typed declared) (fun _ _ => True)
    (fun types => Conforms typed types (.cls (some declared))) :=
  auditClassFields_audits (auditField_audits _) (taggedArray_audits (auditField_audits _)) declared

end Readers

section Result
variable (typed : TypedTables) (declared : Nat) (bytes : Bytes) (state : ReadState)

/-- The call raises, or gives a value of the declared type and new records whose fields and elements have theirs. It
stays inside the stream and leaves the earlier records alone. -/
def TypeSafe : Prop :=
  ∀ value rest last, (ReadCall.object declared).reader typed.tables bytes state = some (value, rest, last) →
    ∃ used more, bytes = used ++ rest ∧ last.records = state.records ++ more ∧
      Conforms typed (runTypes last.records) (.cls (some declared)) value ∧
      ∀ record ∈ more, RecordConforms typed (runTypes last.records) record

def TrustKept : Prop :=
  ∀ value rest last, auditObject typed declared bytes ⟨state, []⟩ = some (value, rest, last) →
    ∀ place ∈ last.trusted, Conforms typed (runTypes last.state.records) place.1 place.2

theorem haveTypes_runTypes (records : Records) : HaveTypes (runTypes records) records :=
  fun i record at_i => by rw [runTypes, at_i, Option.map_some]

end Result

def holderTables : TypedTables where
  tables :=
    { structs := [], arrayTypes := []
      classes := [⟨[65], some 2, [(FieldType.cls (some 1)).entry]⟩, ⟨[66], some 2, []⟩, ⟨objectName, none, []⟩]
      structs_distinct := by decide, classes_distinct := by decide, arrayTypes_distinct := by decide
      plain_elements := nofun }
  structTypes := fun _ => []
  classTypes := fun c => if c = 0 then [.cls (some 1)] else []
  implements := fun _ _ => false
  structs_entry := nofun
  classes_entry := by
    intro c row at_c
    match c with
    | 0 | 1 | 2 =>
      cases at_c
      rfl

def selfHolder : Bytes := [1, 1, 0, 0, 0, 65, 2, 1, 0, 0, 0]

end NLang.Vm.ObjectStream
