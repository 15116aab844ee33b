import NLang.Vm.ObjectGraph

/-!
# What the object writer does

One inversion for each writer, and what an accepted write leaves behind: the ids only grow, they stay
distinct, and every record that has one has been written with all it refers to.
-/

namespace NLang.Vm.ObjectStream
open NLang.Library.Words NLang.Library.Decoding

section Writer
variable (tables : Tables) (records : Records)

def Settled (ids : List Nat) (value : Value) : Prop := ∀ i, Value.ref (i + 1) ∈ value.leaves → i + 1 ∈ ids

theorem Settled.mono {ids ids' : List Nat} {value : Value} (settled : Settled ids value)
    (grows : ids <+: ids') : Settled ids' value := fun i mentioned => grows.subset (settled i mentioned)

structure Wrote (values : List Value) (ids ids' : List Nat) : Prop where
  grows : ids <+: ids'
  distinct : ids.Nodup → ids'.Nodup
  settled : ∀ value ∈ values, Settled ids' value
  new : ∀ i ∈ ids', i ∈ ids ∨ ∃ record, content records i = some record ∧
    ∀ value ∈ record.values, Settled ids' value

namespace Wrote
variable {records} {values more : List Value} {ids ids₁ ids' : List Nat}

theorem nothing (settled : ∀ value ∈ values, Settled ids value) : Wrote records values ids ids :=
  ⟨List.prefix_rfl, id, settled, fun _ inside => .inl inside⟩

theorem trans (first : Wrote records values ids ids₁) (second : Wrote records more ids₁ ids') :
    Wrote records (values ++ more) ids ids' where
  grows := first.grows.trans second.grows
  distinct := second.distinct ∘ first.distinct
  settled := by
    intro value member
    rcases List.mem_append.mp member with left | right
    · exact (first.settled value left).mono second.grows
    · exact second.settled value right
  new := by
    intro i inside
    rcases second.new i inside with before | fresh
    · rcases first.new i before with old | ⟨record, at_i, settled⟩
      · exact .inl old
      · exact .inr ⟨record, at_i, fun value member => (settled value member).mono second.grows⟩
    · exact .inr fresh

theorem regroup (wrote : Wrote records values ids ids') (same : ∀ value ∈ more, Settled ids' value) :
    Wrote records more ids ids' := ⟨wrote.grows, wrote.distinct, same, wrote.new⟩

theorem register {i : Nat} {record : Record} (absent : i ∉ ids) (at_i : content records i = some record)
    (payload : Wrote records record.values (ids ++ [i]) ids') : Wrote records [.ref i] ids ids' where
  grows := (List.prefix_append ids [i]).trans payload.grows
  distinct := fun distinct => payload.distinct <|
    List.nodup_append.mpr ⟨distinct, by simp, fun j inside other here => by
      obtain rfl : other = i := by simpa using here
      exact fun same => absent (same ▸ inside)⟩
  settled := by
    intro value here j mentioned
    obtain rfl := List.mem_singleton.mp here
    obtain rfl : j + 1 = i := by simpa [Value.leaves] using mentioned
    exact payload.grows.subset (by simp)
  new := by
    intro j inside
    rcases payload.new j inside with before | fresh
    · rcases List.mem_append.mp before with old | here
      · exact .inl old
      · obtain rfl : j = i := by simpa using here
        exact .inr ⟨record, at_i, payload.settled⟩
    · exact .inr fresh

end Wrote

def Writes (write : WriteAt) : Prop :=
  ∀ field value ids out ids', write field value ids = some (out, ids') → Wrote records [value] ids ids'

variable {tables records} {nested : WriteAt}

theorem wrote_all₂ (writes : Writes records nested) {fields : List FieldEntry} {values : List Value}
    {ids ids' : List Nat} {out : Bytes}
    (written : Encoder.all₂ nested fields values ids = some (out, ids')) :
    Wrote records values ids ids' := by
  induction fields generalizing values ids out with
  | nil =>
    cases values with
    | nil =>
      obtain ⟨-, rfl⟩ := Encoder.emit_eq_some.mp written
      exact Wrote.nothing (by simp)
    | cons value values => exact absurd written Encoder.refuse_eq_some
  | cons field fields ih =>
    cases values with
    | nil => exact absurd written Encoder.refuse_eq_some
    | cons value values =>
      obtain ⟨_, _, _, one, others, -⟩ := Encoder.andThen_eq_some.mp written
      exact (writes _ _ _ _ _ one).trans (ih others)

theorem all_eq_all₂ (field : FieldEntry) (values : List Value) :
    Encoder.all (nested field) values =
      Encoder.all₂ nested (List.replicate values.length field) values := by
  induction values with
  | nil => rfl
  | cons value values ih => rw [Encoder.all, List.length_cons, List.replicate_succ, Encoder.all₂, ih]

theorem writePlain_cases {field : FieldEntry} {value : Value} {other : Writer} {ids ids' : List Nat}
    {out : Bytes} (written : writePlain field value other ids = some (out, ids')) :
    (∃ width, field.kind.scalarWidth = some width ∧ ids' = ids ∧
        (value = .scalar out ∨ ∃ i, value = .handle i ∧ out = putWord width i)) ∨
      (field.kind = .string ∧ ids' = ids ∧ ∃ text, value = .str text ∧ out = stringBytes text) ∨
      (field.kind.scalarWidth = none ∧ field.kind ≠ .string ∧ other ids = some (out, ids')) := by
  unfold writePlain at written
  cases wide : field.kind.scalarWidth with
  | some width =>
    rw [wide] at written
    cases value with
    | scalar bytes =>
      obtain ⟨rfl, rfl⟩ := Encoder.emit_eq_some.mp written
      exact .inl ⟨width, rfl, rfl, .inl rfl⟩
    | handle i =>
      obtain ⟨rfl, rfl⟩ := Encoder.emit_eq_some.mp written
      exact .inl ⟨width, rfl, rfl, .inr ⟨i, rfl, rfl⟩⟩
    | _ => exact absurd written Encoder.refuse_eq_some
  | none =>
    rw [wide] at written
    by_cases text : field.kind = .string
    · simp only [if_pos text] at written
      cases value with
      | str bytes =>
        obtain ⟨rfl, rfl⟩ := Encoder.emit_eq_some.mp written
        exact .inr (.inl ⟨text, rfl, bytes, rfl, rfl⟩)
      | _ => exact absurd written Encoder.refuse_eq_some
    · simp only [if_neg text] at written
      exact .inr (.inr ⟨rfl, text, written⟩)

theorem writeArrayHeader_state {row : CompiledArrayType} {dims : List Int} {ids ids' : List Nat}
    {out : Bytes} (written : writeArrayHeader tables row dims ids = some (out, ids')) : ids' = ids := by
  unfold writeArrayHeader at written
  split at written
  · cases elem : row.elemTypeIdx.bind (tables.structs[·]?) with
    | none => rw [elem] at written; exact absurd written Encoder.refuse_eq_some
    | some _ => rw [elem] at written; exact (Encoder.emit_eq_some.mp written).2.symm
  · exact (Encoder.emit_eq_some.mp written).2.symm

theorem writeIdentity_cases {i : Nat} {payload : Writer} {ids ids' : List Nat} {out : Bytes}
    (written : writeIdentity i payload ids = some (out, ids')) :
    (∃ k, ids[k]? = some i ∧ out = 2 :: putWord 4 (k + 1) ∧ ids' = ids) ∨
      (i ∉ ids ∧ payload (ids ++ [i]) = some (out, ids')) := by
  unfold writeIdentity at written
  split at written
  · rename_i k found
    obtain ⟨rfl, rfl⟩ := Encoder.emit_eq_some.mp written
    obtain ⟨inside, here, -⟩ := List.idxOf?_eq_some_iff.mp found
    exact .inl ⟨k, by rw [List.getElem?_eq_getElem inside, here], rfl, rfl⟩
  · rename_i missing
    exact .inr ⟨List.idxOf?_eq_none_iff.mp missing, written⟩

theorem serializeArrayRecord_cases {i : Nat} {ids ids' : List Nat} {out : Bytes}
    (written : serializeArrayRecord tables records nested i ids = some (out, ids')) :
    (i = 0 ∧ out = [0] ∧ ids' = ids) ∨
      (∃ k, ids[k]? = some i ∧ out = 2 :: putWord 4 (k + 1) ∧ ids' = ids) ∨
      ∃ arrayTypeIdx dims elements row header payload, i ∉ ids ∧
        content records i = some (.array arrayTypeIdx dims elements) ∧
        tables.arrayTypes[arrayTypeIdx]? = some row ∧
        writeArrayHeader tables row dims (ids ++ [i]) = some (header, ids ++ [i]) ∧
        row.elemKind ∈ Rtk.struct :: plainKinds ∧
        Encoder.all₂ nested (List.replicate elements.length (elementEntry row)) elements (ids ++ [i]) =
          some (payload, ids') ∧ out = header ++ payload := by
  unfold serializeArrayRecord at written
  by_cases null : i = 0
  · rw [if_pos null] at written
    obtain ⟨rfl, rfl⟩ := Encoder.emit_eq_some.mp written
    exact .inl ⟨null, rfl, rfl⟩
  · rw [if_neg null] at written
    cases at_i : content records i with
    | none => rw [at_i] at written; exact absurd written Encoder.refuse_eq_some
    | some record =>
      rw [at_i] at written
      cases record with
      | object _ _ | view _ _ _ _ _ => exact absurd written Encoder.refuse_eq_some
      | array arrayTypeIdx dims elements =>
        rcases writeIdentity_cases written with back | ⟨absent, fresh⟩
        · exact .inr (.inl back)
        · cases known : tables.arrayTypes[arrayTypeIdx]? with
          | none => rw [known] at fresh; exact absurd fresh Encoder.refuse_eq_some
          | some row =>
            rw [known] at fresh
            obtain ⟨header, middle, payload, head, body, rfl⟩ := Encoder.andThen_eq_some.mp fresh
            obtain rfl : middle = ids ++ [i] := writeArrayHeader_state head
            unfold writeArrayElements at body
            split at body
            · rename_i wire
              rw [all_eq_all₂] at body
              exact .inr (.inr ⟨_, _, _, row, header, payload, absent, rfl, known, head, wire, body, rfl⟩)
            · exact absurd body Encoder.refuse_eq_some

theorem serializeClassFields_cases {value : Value} {ids ids' : List Nat} {out : Bytes}
    (written : serializeClassFields tables records nested value ids = some (out, ids')) :
    (value = .ref 0 ∧ out = [0] ∧ ids' = ids) ∨
      (∃ i classIdx fields, value = .ref (i + 1) ∧
        content records (i + 1) = some (.object classIdx fields) ∧
        ((∃ k, ids[k]? = some (i + 1) ∧ out = 2 :: putWord 4 (k + 1) ∧ ids' = ids) ∨
          ∃ row payload, i + 1 ∉ ids ∧ tables.classes[classIdx]? = some row ∧
            Encoder.all₂ nested row.fields fields (ids ++ [i + 1]) = some (payload, ids') ∧
            out = 1 :: nameBytes row.name ++ payload)) ∨
      (∃ i arrayTypeIdx dims elements, value = .ref (i + 1) ∧
        content records (i + 1) = some (.array arrayTypeIdx dims elements) ∧
        serializeArrayRecord tables records nested (i + 1) ids = some (out, ids')) ∨
      ∃ kind payload, value = .boxed kind payload ∧
        writeBoxedRecord kind payload ids = some (out, ids') := by
  unfold serializeClassFields at written
  cases value with
  | boxed kind payload => exact .inr (.inr (.inr ⟨kind, payload, rfl, written⟩))
  | scalar _ | handle _ | str _ | struct _ | func => exact absurd written Encoder.refuse_eq_some
  | ref i =>
    cases i with
    | zero =>
      obtain ⟨rfl, rfl⟩ := Encoder.emit_eq_some.mp written
      exact .inl ⟨rfl, rfl, rfl⟩
    | succ i =>
      cases at_i : content records (i + 1) with
      | none => simp only [at_i] at written; exact absurd written Encoder.refuse_eq_some
      | some record =>
        simp only [at_i] at written
        cases record with
        | view _ _ _ _ _ => exact absurd written Encoder.refuse_eq_some
        | array arrayTypeIdx dims elements =>
          exact .inr (.inr (.inl ⟨i, _, _, _, rfl, at_i, written⟩))
        | object classIdx fields =>
          refine .inr (.inl ⟨i, classIdx, fields, rfl, at_i, ?_⟩)
          rcases writeIdentity_cases written with back | ⟨absent, fresh⟩
          · exact .inl back
          · cases known : tables.classes[classIdx]? with
            | none => rw [known] at fresh; exact absurd fresh Encoder.refuse_eq_some
            | some row =>
              rw [known] at fresh
              obtain ⟨_, middle, payload, head, body, rfl⟩ := Encoder.andThen_eq_some.mp fresh
              obtain ⟨rfl, rfl⟩ := Encoder.emit_eq_some.mp head
              exact .inr ⟨row, payload, absent, rfl, body, rfl⟩

theorem serializeStructFields_cases {structIdx : Option Nat} {value : Value} {ids ids' : List Nat}
    {out : Bytes} (written : serializeStructFields tables nested structIdx value ids = some (out, ids')) :
    ∃ row fields, structIdx.bind (tables.structs[·]?) = some row ∧ value = .struct fields ∧
      Encoder.all₂ nested row.fields fields ids = some (out, ids') := by
  unfold serializeStructFields at written
  cases known : structIdx.bind (tables.structs[·]?) with
  | none => rw [known] at written; exact absurd written Encoder.refuse_eq_some
  | some row =>
    rw [known] at written
    cases value with
    | struct fields => exact ⟨row, fields, rfl, rfl, written⟩
    | _ => exact absurd written Encoder.refuse_eq_some

theorem writeBoxedRecord_state {kind : Rtk} {payload out : Bytes} {ids ids' : List Nat}
    (written : writeBoxedRecord kind payload ids = some (out, ids')) : ids' = ids := by
  unfold writeBoxedRecord at written
  split at written
  · exact (Encoder.emit_eq_some.mp written).2.symm
  · cases wide : kind.scalarWidth with
    | none => rw [wide] at written; exact absurd written Encoder.refuse_eq_some
    | some _ => rw [wide] at written; exact (Encoder.emit_eq_some.mp written).2.symm

theorem getElem?_settled {ids : List Nat} {k i : Nat} (known : ids[k]? = some i) :
    Settled ids (.ref i) := by
  intro j mentioned
  obtain rfl : j + 1 = i := by simpa [Value.leaves] using mentioned
  exact List.mem_of_getElem? known

theorem serializeArrayRecord_wrote (writes : Writes records nested) {i : Nat} {ids ids' : List Nat}
    {out : Bytes} (written : serializeArrayRecord tables records nested i ids = some (out, ids')) :
    Wrote records [.ref i] ids ids' := by
  rcases serializeArrayRecord_cases written with
    ⟨rfl, -, rfl⟩ | ⟨k, known, -, rfl⟩ | ⟨_, _, _, _, _, _, absent, at_i, -, -, -, body, -⟩
  · exact Wrote.nothing (by simp [Settled, Value.leaves])
  · exact Wrote.nothing (by simpa using getElem?_settled known)
  · exact Wrote.register absent at_i (wrote_all₂ writes body)

theorem serializeClassFields_wrote (writes : Writes records nested) {value : Value}
    {ids ids' : List Nat} {out : Bytes}
    (written : serializeClassFields tables records nested value ids = some (out, ids')) :
    Wrote records [value] ids ids' := by
  rcases serializeClassFields_cases written with ⟨rfl, -, rfl⟩ |
    ⟨i, _, _, rfl, at_i, ⟨k, known, -, rfl⟩ | ⟨_, _, absent, -, body, -⟩⟩ |
    ⟨i, _, _, _, rfl, -, array⟩ | ⟨kind, payload, rfl, boxed⟩
  · exact Wrote.nothing (by simp [Settled, Value.leaves])
  · exact Wrote.nothing (by simpa using getElem?_settled known)
  · exact Wrote.register absent at_i (wrote_all₂ writes body)
  · exact serializeArrayRecord_wrote writes array
  · obtain rfl := writeBoxedRecord_state boxed
    exact Wrote.nothing (by simp [Settled, Value.leaves])

theorem writeRecord_cases {field : FieldEntry} {value : Value} {ids ids' : List Nat} {out : Bytes}
    (written : writeRecord tables records nested field value ids = some (out, ids')) :
    (field.kind = .struct ∧
        serializeStructFields tables nested field.structIdx value ids = some (out, ids')) ∨
      (field.kind = .cls ∧ field.classIdx ≠ none ∧
        serializeClassFields tables records nested value ids = some (out, ids')) ∨
      (field.kind = .array ∧ ∃ i, value = .ref i ∧
        serializeArrayRecord tables records nested i ids = some (out, ids')) := by
  unfold writeRecord at written
  cases kind : field.kind with
  | struct =>
    rw [kind] at written
    exact .inl ⟨rfl, written⟩
  | cls =>
    rw [kind] at written
    by_cases unresolved : field.classIdx = none
    · simp only [if_pos unresolved] at written
      exact absurd written Encoder.refuse_eq_some
    · simp only [if_neg unresolved] at written
      exact .inr (.inl ⟨rfl, unresolved, written⟩)
  | array =>
    rw [kind] at written
    cases value with
    | ref i => exact .inr (.inr ⟨rfl, i, rfl, written⟩)
    | _ => exact absurd written Encoder.refuse_eq_some
  | _ => rw [kind] at written; exact absurd written Encoder.refuse_eq_some

theorem writeRecord_wrote (writes : Writes records nested) {field : FieldEntry} {value : Value}
    {ids ids' : List Nat} {out : Bytes}
    (written : writeRecord tables records nested field value ids = some (out, ids')) :
    Wrote records [value] ids ids' := by
  rcases writeRecord_cases written with ⟨-, struct⟩ | ⟨-, -, cls⟩ | ⟨-, i, rfl, array⟩
  · obtain ⟨row, fields, -, rfl, body⟩ := serializeStructFields_cases struct
    refine (wrote_all₂ writes body).regroup ?_
    intro value here i mentioned
    obtain rfl := List.mem_singleton.mp here
    obtain ⟨field, member, inside⟩ := mem_leaves_struct.mp mentioned
    exact (wrote_all₂ writes body).settled field member i inside
  · exact serializeClassFields_wrote writes cls
  · exact serializeArrayRecord_wrote writes array

theorem serializeField_wrote (levels : Nat) :
    Writes records (serializeField tables records levels) := by
  induction levels with
  | zero =>
    intro field value ids out ids' written
    rcases writePlain_cases written with ⟨_, -, rfl, rfl | ⟨i, rfl, -⟩⟩ | ⟨-, rfl, _, rfl, -⟩ | ⟨-, -, none⟩
    · exact Wrote.nothing (by simp [Settled, Value.leaves])
    · exact Wrote.nothing (by simp [Settled, Value.leaves])
    · exact Wrote.nothing (by simp [Settled, Value.leaves])
    · exact absurd none Encoder.refuse_eq_some
  | succ levels ih =>
    intro field value ids out ids' written
    rcases writePlain_cases written with ⟨_, -, rfl, rfl | ⟨i, rfl, -⟩⟩ | ⟨-, rfl, _, rfl, -⟩ | ⟨-, -, record⟩
    · exact Wrote.nothing (by simp [Settled, Value.leaves])
    · exact Wrote.nothing (by simp [Settled, Value.leaves])
    · exact Wrote.nothing (by simp [Settled, Value.leaves])
    · exact writeRecord_wrote ih record

end Writer

end NLang.Vm.ObjectStream
