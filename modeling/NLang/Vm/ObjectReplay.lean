import NLang.Vm.ObjectWriter

/-!
# The reader follows the writer

On the bytes of an accepted value the reader refuses exactly where the walk runs out of levels, and
otherwise gives the value with its references renumbered: the record with the id `k + 1` is the `k`-th
record behind those the machine held before.
-/

namespace NLang.Vm.ObjectStream
open NLang.Library.Words NLang.Library.Decoding

theorem findIdx?_of_nodup {α κ : Type} [DecidableEq κ] {key : α → κ} {rows : List α} {i : Nat} {row : α}
    (distinct : (rows.map key).Nodup) (known : rows[i]? = some row) :
    rows.findIdx? (fun other => key other = key row) = some i := by
  obtain ⟨inside, here⟩ := List.getElem?_eq_some_iff.mp known
  refine List.findIdx?_eq_some_iff_getElem.mpr ⟨inside, by simp [here], ?_⟩
  intro j before
  have inside_j : j < (rows.map key).length := by simp only [List.length_map]; omega
  have inside_i : i < (rows.map key).length := by simpa using inside
  have apart : (rows.map key)[j] ≠ (rows.map key)[i] := by
    intro same
    exact absurd (distinct.getElem_inj_iff.mp same) (by omega)
  simpa [here] using apart

namespace Tables
variable {tables : Tables}

theorem findClass_row {classIdx : Nat} {row : ClassRow} (known : tables.classes[classIdx]? = some row) :
    tables.findClass row.name = some classIdx := findIdx?_of_nodup tables.classes_distinct known

theorem findStruct_row {structIdx : Nat} {row : StructRow} (known : tables.structs[structIdx]? = some row) :
    tables.findStruct row.name = some structIdx := findIdx?_of_nodup tables.structs_distinct known

theorem findArrayTypeDef_row {arrayTypeIdx : Nat} {row : CompiledArrayType}
    (known : tables.arrayTypes[arrayTypeIdx]? = some row) :
    tables.findArrayTypeDef row.elemKind row.elemTypeIdx row.rank = some arrayTypeIdx := by
  have distinct : (tables.arrayTypes.map id).Nodup := by simpa using tables.arrayTypes_distinct
  exact findIdx?_of_nodup distinct known

end Tables

variable {state : ReadState}

theorem decodes_byte (byte : UInt8) (state : ReadState) :
    Decodes (Decoder.word 1) [byte] state (some (byte.toNat, state)) := by
  have read : Decodes (Decoder.word 1) (putWord 1 byte.toNat) state (some (byte.toNat, state)) :=
    Decodes.word byte.toNat_lt state
  simpa [putWord] using read

theorem decodes_string {text : Bytes} (fits : text.length ≤ maxStringLength) (state : ReadState) :
    Decodes readString (stringBytes text) state (some (text, state)) := by
  have cap : maxStringLength < 2 ^ 31 := by decide
  apply Decodes.bind (Decodes.word (by norm_num; omega) state)
  rw [if_neg (by omega)]
  exact Decodes.take text state

theorem decodes_name {name : Bytes} (fits : name.length ≤ maxStringLength) (state : ReadState) :
    Decodes readName (nameBytes name) state (some (name, state)) := by
  have cap : maxStringLength < 2 ^ 31 := by decide
  have whole : name.take (name.length % 2 ^ 32) = name := by
    rw [Nat.mod_eq_of_lt (by omega), List.take_length]
  rw [nameBytes, whole]
  apply Decodes.bind (Decodes.word (by norm_num; omega) state)
  rw [if_neg (by omega)]
  exact Decodes.take name state

theorem wireKind_kindCode {kind : Rtk} (wire : kind ∈ Rtk.struct :: plainKinds) :
    wireKind (UInt8.ofNat (kindCode kind).toNat) = some kind := by
  rw [UInt8.ofNat_toNat]
  revert wire
  cases kind <;> decide

theorem validateArrayDims_bounds {dims : List Int} {count : Int}
    (valid : validateArrayDims dims = some count) : ∀ dim ∈ dims, 0 ≤ dim ∧ dim ≤ kMaxArrayElems := by
  unfold validateArrayDims at valid
  generalize (1 : Int) = start at valid
  induction dims generalizing start with
  | nil => simp
  | cons dim dims ih =>
    rw [List.foldlM_cons] at valid
    split at valid
    · cases valid
    · rename_i inside
      simp only [not_or, Int.not_lt] at inside
      simp only [List.mem_cons, forall_eq_or_imp]
      exact ⟨⟨inside.1, inside.2.1⟩, ih _ valid⟩

theorem decodes_dims {dims : List Int} (rank : 1 ≤ dims.length) (top : dims.length ≤ kMaxArrayRank)
    (bounds : ∀ dim ∈ dims, 0 ≤ dim ∧ dim ≤ kMaxArrayElems) (state : ReadState) :
    Decodes readDims (dimsBytes dims) state (some (dims, state)) := by
  have small : dims.length < 256 := by
    have : kMaxArrayRank = 64 := rfl
    omega
  have head := decodes_byte (UInt8.ofNat dims.length) state
  rw [UInt8.toNat_ofNat_of_lt' small] at head
  apply Decodes.bind head
  rw [if_neg (by omega)]
  clear rank top small head
  induction dims with
  | nil => exact Decodes.pure _ _
  | cons dim dims ih =>
    obtain ⟨low, high⟩ := bounds dim (by simp)
    have cap : kMaxArrayElems = 100000000 := rfl
    have small : dim.toNat < 256 ^ 4 := by norm_num; omega
    have word := Decodes.word small state
    have back : int32Of dim.toNat = dim := by
      rw [int32Of, if_pos (by omega)]
      omega
    have one : Decodes (do return int32Of (← Decoder.word 4)) (putWord 4 dim.toNat) state
        (some (dim, state)) := by
      apply Decodes.bind_last word
      rw [back]
      exact Decodes.pure _ _
    rw [List.map_cons, List.flatten_cons]
    exact Decodes.bind one
      (Decodes.bind_last (ih fun dim member => bounds dim (by simp [member])) (Decodes.pure _ _))

section Replay
variable (tables : Tables) (records : Records) (renamed : Nat → Nat)

structure Agrees (ids : List Nat) : Prop where
  null : renamed 0 = 0
  ids_eq : ∀ k i, ids[k]? = some i → renamed i = records.length + k + 1
  bound : ids.length < 2 ^ 31

structure Tracks (state : ReadState) (ids : List Nat) : Prop where
  objIds : state.deserializeObjIds = ids.map renamed
  count : state.records.length = records.length + ids.length

def carried (i : Nat) : Record := ((content records i).getD (.object 0 [])).renumber renamed id

def advanced (state : ReadState) (ids ids' : List Nat) : ReadState :=
  { records := state.records ++ (ids'.drop ids.length).map (carried records renamed)
    deserializeObjIds := ids'.map renamed }

variable {tables records renamed} {state : ReadState} {ids ids₁ ids' : List Nat}

theorem getElem?_mono {k i : Nat} (grows : ids <+: ids') (known : ids[k]? = some i) :
    ids'[k]? = some i := by
  obtain ⟨added, rfl⟩ := grows
  rw [List.getElem?_append_left (List.getElem?_eq_some_iff.mp known).1, known]

theorem Agrees.of_prefix (agrees : Agrees records renamed ids') (grows : ids <+: ids') :
    Agrees records renamed ids where
  null := agrees.null
  ids_eq := fun k i known => agrees.ids_eq k i (getElem?_mono grows known)
  bound := grows.length_le.trans_lt agrees.bound

theorem Tracks.advance (tracks : Tracks records renamed state ids) (grows : ids <+: ids') :
    Tracks records renamed (advanced records renamed state ids ids') ids' where
  objIds := rfl
  count := by
    have := grows.length_le
    simp only [advanced, List.length_append, List.length_map, List.length_drop, tracks.count]
    omega

theorem advanced_self (tracks : Tracks records renamed state ids) :
    advanced records renamed state ids ids = state := by
  cases state
  simp [advanced, ← tracks.objIds]

theorem advanced_advanced (grows : ids <+: ids₁) (more : ids₁ <+: ids') :
    advanced records renamed (advanced records renamed state ids ids₁) ids₁ ids' =
      advanced records renamed state ids ids' := by
  obtain ⟨added, rfl⟩ := grows
  obtain ⟨later, rfl⟩ := more
  simp [advanced, List.append_assoc]

theorem store_advanced {i : Nat} {blank : Record} {objIds : List Nat} (grows : ids ++ [i] <+: ids') :
    { advanced records renamed ⟨state.records ++ [blank], objIds⟩ (ids ++ [i]) ids' with
      records := (advanced records renamed ⟨state.records ++ [blank], objIds⟩ (ids ++ [i]) ids').records.set
        state.records.length (carried records renamed i) } = advanced records renamed state ids ids' := by
  obtain ⟨later, rfl⟩ := grows
  simp [advanced, List.append_assoc]

structure Replays {α : Type} (records : Records) (read : Reader α) (walk : Option (List Nat)) (out : Bytes)
    (ids ids' : List Nat) (copy : (Nat → Nat) → α) : Prop where
  grows : ids <+: ids'
  walk_eq : walk = none ∨ walk = some ids'
  decodes : ∀ renamed state, Agrees records renamed ids' → Tracks records renamed state ids →
    Decodes read out state (walk.map fun _ => (copy renamed, advanced records renamed state ids ids'))

namespace Replays
variable {α β : Type} {read : Reader α} {walk : Option (List Nat)} {out front : Bytes}
  {copy : (Nat → Nat) → α}

theorem refused (grows : ids <+: ids') (refuses : ∀ state, Decodes read out state none) :
    Replays records read none out ids ids' copy :=
  ⟨grows, .inl rfl, fun _ state _ _ => refuses state⟩

theorem still (decodes : ∀ renamed state, Agrees records renamed ids → Tracks records renamed state ids →
    Decodes read out state (some (copy renamed, state))) :
    Replays records read (some ids) out ids ids copy where
  grows := List.prefix_rfl
  walk_eq := .inr rfl
  decodes := by
    intro renamed state agrees tracks
    rw [Option.map_some, advanced_self tracks]
    exact decodes renamed state agrees tracks

theorem after {value : β} {first : Reader β} {next : β → Reader α}
    (one : ∀ state, Decodes first front state (some (value, state)))
    (two : Replays records (next value) walk out ids ids' copy) :
    Replays records (first >>= next) walk (front ++ out) ids ids' copy :=
  ⟨two.grows, two.walk_eq, fun renamed state agrees tracks =>
    Decodes.bind (one state) (two.decodes renamed state agrees tracks)⟩

theorem afterByte (byte : UInt8) {next : Nat → Reader α}
    (two : Replays records (next byte.toNat) walk out ids ids' copy) :
    Replays records (Decoder.word 1 >>= next) walk (byte :: out) ids ids' copy :=
  after (decodes_byte byte) two

theorem map (replays : Replays records read walk out ids ids' copy) (build : α → β) :
    Replays records (do return build (← read)) walk out ids ids' (fun renamed => build (copy renamed)) where
  grows := replays.grows
  walk_eq := replays.walk_eq
  decodes := by
    intro renamed state agrees tracks
    have one := replays.decodes renamed state agrees tracks
    cases walk with
    | none => simpa using Decodes.bind_refused one []
    | some _ => exact Decodes.bind_last one (Decodes.pure _ _)

theorem record {i : Nat} {blank : Record} {build : α → Record}
    (payload : Replays records read walk out (ids ++ [i]) ids' copy)
    (built : ∀ renamed, build (copy renamed) = carried records renamed i) :
    Replays records (do
      let j ← allocRecord blank
      let parts ← read
      storeRecord j (build parts)
      return Value.ref j) walk out ids ids' (fun renamed => .ref (renamed i)) where
  grows := (List.prefix_append ids [i]).trans payload.grows
  walk_eq := payload.walk_eq
  decodes := by
    intro renamed state agrees tracks
    have here : renamed i = state.records.length + 1 := by
      have known : ids'[ids.length]? = some i := getElem?_mono payload.grows (by simp)
      rw [agrees.ids_eq _ _ known, tracks.count]
    have registered : Tracks records renamed
        ⟨state.records ++ [blank], state.deserializeObjIds ++ [state.records.length + 1]⟩ (ids ++ [i]) :=
      ⟨by simp [tracks.objIds, here], by simp [tracks.count]; omega⟩
    have parts := payload.decodes renamed _ agrees registered
    have alloc : Decodes (allocRecord blank) [] state (some (state.records.length + 1,
        ⟨state.records ++ [blank], state.deserializeObjIds ++ [state.records.length + 1]⟩)) := fun _ => rfl
    apply Decodes.bind_nil alloc
    cases walk with
    | none => simpa using Decodes.bind_refused parts []
    | some _ =>
      apply Decodes.bind_last parts
      intro rest
      rw [← store_advanced payload.grows, ← built renamed, here]
      rfl

end Replays

theorem replays_backReference {k i : Nat} (known : ids[k]? = some i) :
    Replays records readBackReference (some ids) (putWord 4 (k + 1)) ids ids
      (fun renamed => Value.ref (renamed i)) := by
  apply Replays.still
  intro renamed state agrees tracks
  have inside : k < ids.length := (List.getElem?_eq_some_iff.mp known).1
  have bound := agrees.bound
  apply Decodes.bind_last (Decodes.word (by norm_num; omega) state)
  apply Decodes.bind_nil (Decodes.get state)
  intro rest
  have found : state.deserializeObjIds[k]? = some (renamed i) := by
    rw [tracks.objIds, List.getElem?_map, known, Option.map_some]
  simp only [found]
  rfl

def Good (within : Nat → Prop) (value : Value) : Prop :=
  (∀ leaf ∈ value.leaves, leaf.Fits) ∧ ∀ i, Value.ref (i + 1) ∈ value.leaves → within (i + 1)

theorem Good.field {within : Nat → Prop} {fields : List Value} (good : Good within (.struct fields)) :
    ∀ field ∈ fields, Good within field := fun field member =>
  ⟨fun leaf inside => good.1 leaf (mem_leaves_struct.mpr ⟨field, member, inside⟩),
    fun i inside => good.2 i (mem_leaves_struct.mpr ⟨field, member, inside⟩)⟩

def Follows (tables : Tables) (records : Records) (within : Nat → Prop) (write : WriteAt) (read : ReadAt)
    (walk : FieldEntry → Value → Walk) : Prop :=
  ∀ field value ids out ids', HasType tables records field value → Good within value →
    write field value ids = some (out, ids') →
    Replays records (read field) (walk field value ids) out ids ids'
      (fun renamed => value.renumber renamed id)

variable {within : Nat → Prop} {write : WriteAt} {read : ReadAt} {walk : FieldEntry → Value → Walk}

theorem replays_all (follows : Follows tables records within write read walk) {fields : List FieldEntry}
    {values : List Value} {out : Bytes} (typed : List.Forall₂ (HasType tables records) fields values)
    (good : ∀ value ∈ values, Good within value)
    (written : Encoder.all₂ write fields values ids = some (out, ids')) :
    Replays records (Decoder.all read fields) (walkAll walk fields values ids) out ids ids'
      (fun renamed => values.map (Value.renumber renamed id)) := by
  induction typed generalizing ids out with
  | nil =>
    obtain ⟨rfl, rfl⟩ := Encoder.emit_eq_some.mp written
    exact Replays.still fun renamed state _ _ => Decodes.pure _ _
  | @cons field value fields values typed_head _ ih =>
    obtain ⟨front, middle, back, one, others, rfl⟩ := Encoder.andThen_eq_some.mp written
    have head := follows field value _ _ _ typed_head (good value (by simp)) one
    have tail := ih (fun value member => good value (by simp [member])) others
    have steps : walkAll walk (field :: fields) (value :: values) ids =
        (walk field value ids).bind (walkAll walk fields values) := rfl
    rw [steps]
    rcases head.walk_eq with stopped | passed
    · rw [stopped]
      refine ⟨head.grows.trans tail.grows, .inl rfl, fun renamed state agrees tracks => ?_⟩
      have reads := head.decodes renamed state (agrees.of_prefix tail.grows) tracks
      rw [stopped] at reads
      exact Decodes.bind_refused reads back
    · rw [passed, Option.bind_some]
      refine ⟨head.grows.trans tail.grows, tail.walk_eq, fun renamed state agrees tracks => ?_⟩
      have reads := head.decodes renamed state (agrees.of_prefix tail.grows) tracks
      rw [passed, Option.map_some] at reads
      apply Decodes.bind reads
      have rest := (tail.map (value.renumber renamed id :: ·)).decodes renamed _ agrees
        (tracks.advance head.grows)
      rw [advanced_advanced head.grows tail.grows] at rest
      exact rest

theorem all_replicate (field : FieldEntry) (count : Nat) :
    Decoder.all (fun _ => read field) (List.replicate count ()) =
      Decoder.all read (List.replicate count field) := by
  induction count with
  | zero => rfl
  | succ count ih => rw [List.replicate_succ, List.replicate_succ, Decoder.all, Decoder.all, ih]

theorem carried_eq {i : Nat} {record : Record} (at_i : content records i = some record)
    (renamed : Nat → Nat) : carried records renamed i = record.renumber renamed id := by
  rw [carried, at_i, Option.getD_some]

theorem replays_plain {field : FieldEntry} {value : Value} {out : Bytes} {other : Writer}
    {otherRead : Reader Value} (typed : HasType tables records field value) (good : Good within value)
    (plain : field.kind ∈ plainKinds) (written : writePlain field value other ids = some (out, ids')) :
    Replays records (readPlain field otherRead) (some ids) out ids ids'
      (fun renamed => value.renumber renamed id) := by
  rcases writePlain_cases written with
    ⟨width, wide, rfl, rfl | ⟨i, rfl, rfl⟩⟩ | ⟨text, rfl, bytes, rfl, rfl⟩ | ⟨thin, other, -⟩
  · have length : out.length = width := by
      cases typed with
      | scalar wide' => exact Option.some.inj (wide'.symm.trans wide)
      | typeParam kind => rw [kind] at wide; cases wide
    unfold readPlain
    rw [wide]
    exact Replays.still fun renamed state _ _ =>
      Decodes.bind_last (Decodes.take_of_length length state) (Decodes.pure _ _)
  · have four : width = 4 := by
      cases typed with
      | handle kind => rw [kind] at wide; exact (Option.some.inj wide).symm
      | typeParam kind => rw [kind] at wide; cases wide
    unfold readPlain
    rw [wide]
    subst four
    exact Replays.still fun renamed state _ _ =>
      Decodes.bind_last (Decodes.take_of_length (putWord_length 4 i) state) (Decodes.pure _ _)
  · have fits : bytes.length ≤ maxStringLength := good.1 (.str bytes) (by simp [Value.leaves])
    unfold readPlain
    rw [text]
    exact Replays.still fun renamed state _ _ =>
      Decodes.bind_last (decodes_string fits state) (Decodes.pure _ _)
  · exfalso
    revert plain thin other
    cases field.kind <;> decide

theorem decodes_boxed {kind : Rtk} {payload out : Bytes} (fits : BoxFits kind payload)
    (good : (Value.boxed kind payload).Fits)
    (written : writeBoxedRecord kind payload ids = some (out, ids')) :
    ∃ tail, out = 4 :: tail ∧ ∀ state,
      Decodes readBoxedRecord tail state (some (.boxed kind payload, state)) := by
  unfold writeBoxedRecord at written
  by_cases text : kind = .string
  · rw [if_pos text] at written
    obtain ⟨rfl, -⟩ := Encoder.emit_eq_some.mp written
    subst text
    refine ⟨_, rfl, fun state => ?_⟩
    apply Decodes.bind (decodes_byte (kindCode .string) state)
    exact Decodes.bind_last (decodes_string good state) (Decodes.pure _ _)
  · rw [if_neg text] at written
    cases wide : kind.scalarWidth with
    | none => rw [wide] at written; exact absurd written Encoder.refuse_eq_some
    | some width =>
      rw [wide] at written
      obtain ⟨rfl, -⟩ := Encoder.emit_eq_some.mp written
      obtain ⟨width', wide', length⟩ := fits.resolve_left text
      have same : width' = width := Option.some.inj (wide'.symm.trans wide)
      have plain : kind ∈ plainKinds := by
        revert wide
        cases kind <;> simp [plainKinds, Rtk.scalarWidth]
      have cut : (payload.take width).length = width :=
        List.length_take_of_le (by rw [length, same]; exact le_max_right 4 width)
      have zero : payload.drop width = List.replicate (max 4 width - width) 0 := by
        refine List.eq_replicate_iff.mpr ⟨by rw [List.length_drop, length, same], ?_⟩
        simpa only [Value.Fits, wide] using good
      refine ⟨_, rfl, fun state => ?_⟩
      apply Decodes.bind (decodes_byte (kindCode kind) state)
      simp only [wireKind_kindCode (List.mem_cons_of_mem Rtk.struct plain), if_neg text, wide]
      apply Decodes.bind_last (Decodes.take_of_length cut state)
      rw [← zero, List.take_append_drop]
      exact Decodes.pure _ _

theorem decodes_elementType {row : CompiledArrayType} {dims : List Int} {out : Bytes}
    (known : row ∈ tables.arrayTypes) (wire : row.elemKind ∈ Rtk.struct :: plainKinds)
    (names : row.elemKind = .struct → ∀ elem, row.elemTypeIdx.bind (tables.structs[·]?) = some elem →
      elem.name.length ≤ maxStringLength)
    (written : writeArrayHeader tables row dims ids = some (out, ids')) :
    ∃ typeBytes, out = 3 :: (typeBytes ++ dimsBytes dims) ∧ ∀ state,
      Decodes (readElementType tables) typeBytes state (some ((row.elemKind, row.elemTypeIdx), state)) := by
  unfold writeArrayHeader at written
  by_cases struct : row.elemKind = .struct
  · rw [if_pos struct] at written
    cases elem : row.elemTypeIdx.bind (tables.structs[·]?) with
    | none => rw [elem] at written; exact absurd written Encoder.refuse_eq_some
    | some elemRow =>
      rw [elem] at written
      obtain ⟨rfl, -⟩ := Encoder.emit_eq_some.mp written
      obtain ⟨structIdx, typeIdx, at_idx⟩ := Option.bind_eq_some_iff.mp elem
      refine ⟨kindCode row.elemKind :: nameBytes elemRow.name, rfl, fun state => ?_⟩
      apply Decodes.bind (decodes_byte (kindCode row.elemKind) state)
      simp only [wireKind_kindCode wire, if_pos struct]
      apply Decodes.bind_last (decodes_name (names struct elemRow elem) state)
      simp only [Tables.findStruct_row at_idx]
      rw [struct, typeIdx]
      exact Decodes.pure _ _
  · rw [if_neg struct] at written
    obtain ⟨rfl, -⟩ := Encoder.emit_eq_some.mp written
    have plain : row.elemKind ∈ plainKinds := (List.mem_cons.mp wire).resolve_left struct
    refine ⟨[kindCode row.elemKind], rfl, fun state => ?_⟩
    apply Decodes.bind_last (decodes_byte (kindCode row.elemKind) state)
    simp only [wireKind_kindCode wire, if_neg struct]
    rw [tables.plain_elements row known plain]
    exact Decodes.pure _ _

theorem replays_structFields (follows : Follows tables records within write read walk)
    {field : FieldEntry} {value : Value} {out : Bytes} {visit : Option (FieldEntry → Value → Walk)}
    (kind : field.kind = .struct) (value_typed : HasType tables records field value)
    (good : Good within value) (written : serializeStructFields tables write field.structIdx value ids = some (out, ids')) :
    Replays records (deserializeStructFields tables read field.structIdx)
      (walkRecord tables records walk visit field value ids) out ids ids'
      (fun renamed => value.renumber renamed id) := by
  obtain ⟨row, values, known, rfl, body⟩ := serializeStructFields_cases written
  have fields_typed : List.Forall₂ (HasType tables records) row.fields values := by
    cases value_typed with
    | struct _ structIdx at_idx fields_typed =>
      rw [structIdx, Option.bind_some, at_idx] at known
      exact Option.some.inj known ▸ fields_typed
    | typeParam kind' => rw [kind] at kind'; cases kind'
  have parts := (replays_all follows fields_typed good.field body).map Value.struct
  simp only [walkRecord, deserializeStructFields, known, Value.renumber, renumberAll_eq]
  exact parts

section Follow
variable (typed : Typed tables records)
  (closed : ∀ i record, within i → content records i = some record →
    record.NamesFit tables ∧ ∀ value ∈ record.values, Good within value)
  (follows : Follows tables records within write read walk)
include typed closed follows

theorem replays_array {i arrayTypeIdx : Nat} {dims : List Int} {elements : List Value}
    {row : CompiledArrayType} {header payload : Bytes} (inside : within i)
    (at_i : content records i = some (.array arrayTypeIdx dims elements))
    (known : tables.arrayTypes[arrayTypeIdx]? = some row)
    (wire : row.elemKind ∈ Rtk.struct :: plainKinds)
    (head : writeArrayHeader tables row dims (ids ++ [i]) = some (header, ids ++ [i]))
    (body : Encoder.all₂ write (List.replicate elements.length (elementEntry row)) elements (ids ++ [i]) =
      some (payload, ids')) :
    ∃ tail, header ++ payload = 3 :: tail ∧
      Replays records (deserializeArrayRecordTagged tables read 3)
        (walkAll walk (List.replicate elements.length (elementEntry row)) elements (ids ++ [i])) tail
        ids ids' (fun renamed => .ref (renamed i)) := by
  obtain ⟨names, good⟩ := closed i _ inside at_i
  cases typed.records_typed i _ at_i with
  | array known' rank low high valid elements_typed =>
    obtain rfl := Option.some.inj (known.symm.trans known')
    obtain ⟨typeBytes, rfl, elementType⟩ := decodes_elementType (List.mem_of_getElem? known) wire
      (names row known) head
    refine ⟨typeBytes ++ (dimsBytes dims ++ payload), by simp, ?_⟩
    have places : List.Forall₂ (HasType tables records)
        (List.replicate elements.length (elementEntry row)) elements :=
      List.forall₂_iff_get.mpr ⟨by simp, fun k _ inside => by
        simpa using elements_typed _ (List.get_mem elements ⟨k, inside⟩)⟩
    have parts := replays_all follows places good body
    apply Replays.after elementType
    apply Replays.after (decodes_dims (rank ▸ low) (rank ▸ high) (validateArrayDims_bounds valid))
    have found := Tables.findArrayTypeDef_row known
    rw [rank] at found
    simp only [found, valid, Int.toNat_natCast]
    rw [← all_replicate] at parts
    exact parts.record fun renamed => (carried_eq at_i renamed).symm

theorem replays_arrayRecord {i : Nat} {out : Bytes} (inside : ∀ j, i = j + 1 → within i)
    (written : serializeArrayRecord tables records write i ids = some (out, ids')) (field : FieldEntry) :
    ∃ (tag : UInt8) (tail : Bytes), out = tag :: tail ∧
      Replays records (deserializeArrayRecordTagged tables read tag.toNat)
        (walkRecord tables records walk (some walk) field (.ref i) ids) tail ids ids'
        (fun renamed => .ref (renamed i)) := by
  cases i with
  | zero =>
    obtain ⟨rfl, rfl⟩ := Encoder.emit_eq_some.mp written
    refine ⟨0, [], rfl, Replays.still fun renamed state agrees _ => ?_⟩
    rw [agrees.null]
    exact Decodes.pure _ _
  | succ i =>
    rcases serializeArrayRecord_cases written with ⟨null, -⟩ | ⟨k, known, rfl, rfl⟩ |
      ⟨arrayTypeIdx, dims, elements, row, header, payload, absent, at_i, known, head, wire, body, rfl⟩
    · cases null
    · refine ⟨2, _, rfl, ?_⟩
      have met : i + 1 ∈ ids' := List.mem_of_getElem? known
      simp only [walkRecord, if_pos met]
      exact replays_backReference known
    · obtain ⟨tail, shape, replays⟩ :=
        replays_array typed closed follows (inside i rfl) at_i known wire head body
      refine ⟨3, tail, shape, ?_⟩
      simp only [walkRecord, if_neg absent, at_i, known]
      exact replays

theorem replays_classFields {field : FieldEntry} {value : Value} {declared : Nat} {out : Bytes}
    {taggedArray : Reader Value} {visit : Option (FieldEntry → Value → Walk)}
    (kind : field.kind = .cls) (cls : field.classIdx = some declared)
    (value_typed : HasType tables records field value) (good : Good within value)
    (arrays : (visit = none ∧ taggedArray = Decoder.fail) ∨ ∃ readElement walkElement,
      visit = some walkElement ∧ taggedArray = deserializeArrayRecordTagged tables readElement 3 ∧
        Follows tables records within write readElement walkElement)
    (written : serializeClassFields tables records write value ids = some (out, ids')) :
    Replays records (deserializeClassFields tables read taggedArray declared)
      (walkRecord tables records walk visit field value ids) out ids ids'
      (fun renamed => value.renumber renamed id) := by
  rcases serializeClassFields_cases written with ⟨rfl, rfl, rfl⟩ |
    ⟨i, classIdx, fields, rfl, at_i, ⟨k, known, rfl, rfl⟩ | ⟨row, payload, absent, known, body, rfl⟩⟩ |
    ⟨i, arrayTypeIdx, dims, elements, rfl, at_i, array⟩ | ⟨boxKind, payload, rfl, boxed⟩
  · apply Replays.still
    intro renamed state agrees _
    apply Decodes.bind_last (decodes_byte 0 state)
    simp only [Value.renumber, agrees.null]
    exact Decodes.pure _ _
  · have met : i + 1 ∈ ids' := List.mem_of_getElem? known
    simp only [walkRecord, if_pos met]
    exact Replays.afterByte 2 (replays_backReference known)
  · obtain ⟨names, good_fields⟩ := closed _ _ (good.2 i (by simp [Value.leaves])) at_i
    cases typed.records_typed _ _ at_i with
    | object known' fields_typed =>
      obtain rfl := Option.some.inj (known.symm.trans known')
      have subclass : tables.isSubclassOf classIdx declared = true := by
        cases value_typed with
        | object _ cls' at_i' subclass =>
          rw [cls] at cls'
          rw [at_i] at at_i'
          cases cls'
          cases at_i'
          exact subclass
        | objectArray _ _ _ at_i' => rw [at_i] at at_i'; cases at_i'
        | array kind' => rw [kind] at kind'; cases kind'
        | typeParam kind' => rw [kind] at kind'; cases kind'
      have parts := replays_all follows fields_typed good_fields body
      apply Replays.afterByte 1
      apply Replays.after (decodes_name (names row known))
      simp only [Tables.findClass_row known, subclass, known, walkRecord, if_neg absent, at_i, classFields]
      exact parts.record fun renamed => (carried_eq at_i renamed).symm
  · have root : tables.objectRootClassIdx = some declared := by
      cases value_typed with
      | object _ _ at_i' => rw [at_i] at at_i'; cases at_i'
      | objectArray _ cls' root _ => rw [← cls, cls', root]
      | array kind' => rw [kind] at kind'; cases kind'
      | typeParam kind' => rw [kind] at kind'; cases kind'
    rcases serializeArrayRecord_cases array with ⟨null, -⟩ | ⟨k, known, rfl, rfl⟩ |
      ⟨_, _, _, row, header, payload, absent, at_i', known, head, wire, body, rfl⟩
    · cases null
    · have met : i + 1 ∈ ids' := List.mem_of_getElem? known
      simp only [walkRecord, if_pos met]
      exact Replays.afterByte 2 (replays_backReference known)
    · have inside : within (i + 1) := good.2 i (by simp [Value.leaves])
      simp only [walkRecord, if_neg absent, at_i', known]
      rcases arrays with ⟨rfl, rfl⟩ | ⟨readElement, walkElement, rfl, rfl, follows'⟩
      · obtain ⟨tail, shape, replays⟩ := replays_array typed closed follows inside at_i' known wire head body
        rw [shape]
        apply Replays.afterByte 3
        change Replays records (if tables.objectRootClassIdx = some declared then _ else _) _ _ _ _ _
        rw [if_pos root]
        exact Replays.refused replays.grows fun state => Decodes.fail tail state
      · obtain ⟨tail, shape, replays⟩ := replays_array typed closed follows' inside at_i' known wire head body
        rw [shape]
        apply Replays.afterByte 3
        change Replays records (if tables.objectRootClassIdx = some declared then _ else _) _ _ _ _ _
        rw [if_pos root]
        exact replays
  · obtain ⟨root, fits⟩ : tables.objectRootClassIdx = some declared ∧ BoxFits boxKind payload := by
      cases value_typed with
      | boxed _ cls' root fits => exact ⟨by rw [← cls, cls', root], fits⟩
      | typeParam kind' => rw [kind] at kind'; cases kind'
    obtain rfl := writeBoxedRecord_state boxed
    obtain ⟨tail, rfl, decodes⟩ := decodes_boxed fits (good.1 _ (by simp [Value.leaves])) boxed
    apply Replays.afterByte 4
    change Replays records (if tables.objectRootClassIdx = some declared then _ else _) _ _ _ _ _
    rw [if_pos root]
    exact Replays.still fun renamed state _ _ => decodes state

theorem replays_record {field : FieldEntry} {value : Value} {out : Bytes}
    {taggedArray : Reader Value} {visit : Option (FieldEntry → Value → Walk)}
    (value_typed : HasType tables records field value) (good : Good within value)
    (objectArrays : field.kind = .cls → (visit = none ∧ taggedArray = Decoder.fail) ∨
      ∃ readElement walkElement, visit = some walkElement ∧
        taggedArray = deserializeArrayRecordTagged tables readElement 3 ∧
        Follows tables records within write readElement walkElement)
    (otherArrays : field.kind ≠ .cls → visit = some walk)
    (written : writeRecord tables records write field value ids = some (out, ids')) :
    Replays records (readRecord tables read taggedArray field)
      (walkRecord tables records walk visit field value ids) out ids ids'
      (fun renamed => value.renumber renamed id) := by
  rcases writeRecord_cases written with ⟨kind, struct⟩ | ⟨kind, resolved, cls⟩ | ⟨kind, i, rfl, array⟩
  · unfold readRecord
    rw [kind]
    exact replays_structFields follows kind value_typed good struct
  · obtain ⟨declared, known⟩ := Option.ne_none_iff_exists'.mp resolved
    unfold readRecord
    rw [kind, known]
    exact replays_classFields typed closed follows kind known value_typed good (objectArrays kind) cls
  · have inside : ∀ j, i = j + 1 → within i := by
      rintro j rfl
      exact good.2 j (by simp [Value.leaves])
    obtain ⟨tag, tail, rfl, replays⟩ := replays_arrayRecord typed closed follows inside array field
    unfold readRecord
    rw [kind, otherArrays (by simp [kind])]
    exact Replays.afterByte tag replays

end Follow

theorem plainKinds_or (kind : Rtk) :
    kind ∈ plainKinds ∨ kind.scalarWidth = none ∧ kind ≠ .string ∧ kind ∉ plainKinds := by
  cases kind <;> decide

theorem writePlain_other {field : FieldEntry} {value : Value} {other : Writer}
    (thin : field.kind.scalarWidth = none) (text : field.kind ≠ .string) :
    writePlain field value other = other := by
  unfold writePlain
  rw [thin]
  exact if_neg text

theorem readPlain_other {field : FieldEntry} {other : Reader Value}
    (thin : field.kind.scalarWidth = none) (text : field.kind ≠ .string) :
    readPlain field other = other := by
  unfold readPlain
  rw [thin]
  exact if_neg text

theorem walkField_plain {field : FieldEntry} {value : Value} (levels : Nat)
    (plain : field.kind ∈ plainKinds) (value_typed : HasType tables records field value) :
    walkField tables records levels field value ids = some ids := by
  have step : ∀ nested visit, walkRecord tables records nested visit field value ids = some ids := by
    intro nested visit
    cases value_typed with
    | scalar | handle | str | func | boxed => rfl
    | null kind | struct kind | object kind | objectArray kind | array kind | typeParam kind =>
      exfalso
      revert plain kind
      cases field.kind <;> decide
  match levels with
  | 0 => exact if_pos plain
  | 1 => exact step _ _
  | levels+2 => exact step _ _

theorem deserializeField_plain (tables : Tables) (levels : Nat) (field : FieldEntry) :
    ∃ other, deserializeField tables levels field = readPlain field other := by
  match levels with
  | 0 | 1 | levels+2 => exact ⟨_, rfl⟩

theorem serializeField_follows (typed : Typed tables records)
    (closed : ∀ i record, within i → content records i = some record →
      record.NamesFit tables ∧ ∀ value ∈ record.values, Good within value) (writeLevels : Nat) :
    ∀ readLevels, Follows tables records within (serializeField tables records writeLevels)
      (deserializeField tables readLevels) (walkField tables records readLevels) := by
  have plain_case : ∀ {other : Writer} {field value ids out ids'} (readLevels : Nat),
      field.kind ∈ plainKinds → HasType tables records field value → Good within value →
      writePlain field value other ids = some (out, ids') →
      Replays records (deserializeField tables readLevels field)
        (walkField tables records readLevels field value ids) out ids ids'
        (fun renamed => value.renumber renamed id) := by
    intro other field value ids out ids' readLevels plain value_typed good written
    obtain ⟨_, reader⟩ := deserializeField_plain tables readLevels field
    rw [walkField_plain readLevels plain value_typed, reader]
    exact replays_plain value_typed good plain written
  induction writeLevels with
  | zero =>
    intro readLevels field value ids out ids' value_typed good written
    rcases plainKinds_or field.kind with plain | ⟨thin, text, -⟩
    · exact plain_case readLevels plain value_typed good written
    · change writePlain field value _ ids = _ at written
      rw [writePlain_other thin text] at written
      exact absurd written Encoder.refuse_eq_some
  | succ writeLevels ih =>
    intro readLevels field value ids out ids' value_typed good written
    rcases plainKinds_or field.kind with plain | ⟨thin, text, other⟩
    · exact plain_case readLevels plain value_typed good written
    · have grows := (serializeField_wrote _ _ _ _ _ _ written).grows
      change writePlain field value _ ids = _ at written
      rw [writePlain_other thin text] at written
      match readLevels with
      | 0 =>
        change Replays records (readPlain field Decoder.fail)
          (if field.kind ∈ plainKinds then some ids else none) out ids ids' _
        rw [readPlain_other thin text, if_neg other]
        exact Replays.refused grows fun state => Decodes.fail out state
      | 1 =>
        change Replays records (readPlain field _) (walkRecord tables records _ _ field value ids) out ids ids' _
        rw [readPlain_other thin text]
        refine replays_record typed closed (ih 0) value_typed good ?_ ?_ written
        · exact fun cls => .inl ⟨if_pos cls, rfl⟩
        · exact fun cls => if_neg cls
      | readLevels+2 =>
        change Replays records (readPlain field _) (walkRecord tables records _ _ field value ids) out ids ids' _
        rw [readPlain_other thin text]
        refine replays_record typed closed (ih (readLevels + 1)) value_typed good ?_ ?_ written
        · exact fun cls => .inr ⟨_, _, by rw [if_pos cls], rfl, ih readLevels⟩
        · exact fun cls => by rw [if_neg cls]

end Replay

end NLang.Vm.ObjectStream
