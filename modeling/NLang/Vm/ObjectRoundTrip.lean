import NLang.Vm.ObjectReplay

/-!
# Round trips of object graphs

Everything the reader makes is within its own caps. With the simulation this gives the graphs that
round-trip: those the reader's caps, boxes and levels admit.
-/

namespace NLang.Vm.ObjectStream
open NLang.Library.Words NLang.Library.Decoding

section RoundTrip
variable (tables : Tables) (records : Records)

def AllFit (value : Value) : Prop := ∀ leaf ∈ value.leaves, leaf.Fits

def Record.AllFit (record : Record) : Prop :=
  record.NamesFit tables ∧ ∀ value ∈ record.values, ObjectStream.AllFit value

structure Kept (base : Nat) (state : ReadState) : Prop where
  above : base ≤ state.records.length
  fit : ∀ k record, base ≤ k → state.records[k]? = some record → record.AllFit tables

def Makes {α : Type} (Fine : α → Prop) (read : Reader α) : Prop :=
  ∀ base bytes state value rest last, Kept tables base state →
    read bytes state = some (value, rest, last) → Fine value ∧ Kept tables base last

variable {tables} {base : Nat} {state last : ReadState} {bytes rest : Bytes}

theorem take_eq_some {count : Nat} {taken : Bytes}
    (run : (Decoder.take count : Reader Bytes) bytes state = some (taken, rest, last)) :
    taken.length = count ∧ last = state := by
  unfold Decoder.take at run
  split at run
  · rename_i enough
    cases run
    exact ⟨List.length_take_of_le enough, rfl⟩
  · cases run

theorem word_eq_some {width value : Nat}
    (run : (Decoder.word width : Reader Nat) bytes state = some (value, rest, last)) : last = state := by
  obtain ⟨_, _, _, one, done⟩ := Decoder.bind_eq_some.mp run
  obtain ⟨-, -, rfl⟩ := Decoder.pure_eq_some.mp done
  exact (take_eq_some one).2

theorem readString_eq_some {text : Bytes} (run : readString bytes state = some (text, rest, last)) :
    text.length ≤ maxStringLength ∧ last = state := by
  obtain ⟨len, _, _, one, two⟩ := Decoder.bind_eq_some.mp run
  obtain rfl := word_eq_some one
  split at two
  · exact absurd two Decoder.fail_eq_some
  · obtain ⟨length, rfl⟩ := take_eq_some two
    exact ⟨by omega, rfl⟩

theorem readName_eq_some {name : Bytes} (run : readName bytes state = some (name, rest, last)) :
    name.length ≤ maxStringLength ∧ last = state := by
  obtain ⟨len, _, _, one, two⟩ := Decoder.bind_eq_some.mp run
  obtain rfl := word_eq_some one
  split at two
  · exact absurd two Decoder.fail_eq_some
  · obtain ⟨length, rfl⟩ := take_eq_some two
    exact ⟨by omega, rfl⟩

theorem readPlain_makes {other : Reader Value} (makes : Makes tables AllFit other) (field : FieldEntry) :
    Makes tables AllFit (readPlain field other) := by
  intro base bytes state value rest last kept run
  unfold readPlain at run
  cases wide : field.kind.scalarWidth with
  | some width =>
    rw [wide] at run
    obtain ⟨taken, _, _, one, done⟩ := Decoder.bind_eq_some.mp run
    obtain ⟨-, rfl⟩ := take_eq_some one
    obtain ⟨rfl, -, rfl⟩ := Decoder.pure_eq_some.mp done
    exact ⟨by simp [AllFit, Value.leaves, Value.Fits], kept⟩
  | none =>
    rw [wide] at run
    by_cases text : field.kind = .string
    · simp only [if_pos text] at run
      obtain ⟨taken, _, _, one, done⟩ := Decoder.bind_eq_some.mp run
      obtain ⟨fits, rfl⟩ := readString_eq_some one
      obtain ⟨rfl, -, rfl⟩ := Decoder.pure_eq_some.mp done
      exact ⟨by simpa [AllFit, Value.leaves, Value.Fits] using fits, kept⟩
    · simp only [if_neg text] at run
      exact makes _ _ _ _ _ _ kept run

theorem fail_makes {α : Type} (Fine : α → Prop) : Makes tables Fine Decoder.fail := fun _ _ _ _ _ _ _ run =>
  absurd run Decoder.fail_eq_some

theorem readBackReference_makes : Makes tables AllFit readBackReference := by
  intro base bytes state value rest last kept run
  obtain ⟨id, _, _, one, two⟩ := Decoder.bind_eq_some.mp run
  obtain rfl := word_eq_some one
  obtain ⟨now, _, _, three, four⟩ := Decoder.bind_eq_some.mp two
  obtain ⟨-, rfl, rfl⟩ := Decoder.get_eq_some.mp three
  cases id with
  | zero => exact absurd four Decoder.fail_eq_some
  | succ k =>
    cases found : now.deserializeObjIds[k]? with
    | none => simp only [found] at four; exact absurd four Decoder.fail_eq_some
    | some i =>
      simp only [found] at four
      obtain ⟨rfl, -, rfl⟩ := Decoder.pure_eq_some.mp four
      exact ⟨by simp [AllFit, Value.leaves, Value.Fits], kept⟩

theorem Kept.set {k : Nat} {record : Record} {objIds : List Nat} (kept : Kept tables base state)
    (fits : record.AllFit tables) : Kept tables base ⟨state.records.set k record, objIds⟩ where
  above := by simpa using kept.above
  fit := by
    intro j other above here
    rw [List.getElem?_set] at here
    split at here
    · split at here
      · cases here
        exact fits
      · cases here
    · exact kept.fit j other above here

theorem Kept.append {record : Record} {objIds : List Nat} (kept : Kept tables base state)
    (fits : record.AllFit tables) : Kept tables base ⟨state.records ++ [record], objIds⟩ where
  above := by
    have := kept.above
    simp
    omega
  fit := by
    intro j other above here
    rcases Nat.lt_or_ge j state.records.length with old | new
    · rw [List.getElem?_append_left old] at here
      exact kept.fit j other above here
    · rw [List.getElem?_append_right new] at here
      obtain rfl := List.mem_singleton.mp (List.mem_of_getElem? here)
      exact fits

theorem record_makes {α : Type} {read : Reader α} {blank : Record} {build : α → Record}
    (blank_fits : blank.AllFit tables)
    (parts : Makes tables (fun value => (build value).AllFit tables) read) :
    Makes tables AllFit (do
      let i ← allocRecord blank
      let parts ← read
      storeRecord i (build parts)
      return Value.ref i) := by
  intro base bytes state value rest last kept run
  obtain ⟨i, _, middle, alloc, others⟩ := Decoder.bind_eq_some.mp run
  obtain ⟨built, _, later, reads, stores⟩ := Decoder.bind_eq_some.mp others
  obtain ⟨_, _, _, store, done⟩ := Decoder.bind_eq_some.mp stores
  cases alloc
  obtain ⟨fits, kept_later⟩ := parts _ _ _ _ _ _ (kept.append blank_fits) reads
  obtain ⟨rfl, -, rfl⟩ := Decoder.pure_eq_some.mp done
  obtain ⟨rfl, rfl⟩ := Decoder.modify_eq_some.mp store
  exact ⟨by simp [AllFit, Value.leaves, Value.Fits], kept_later.set fits⟩

variable {nested : ReadAt}

theorem all_makes {τ α : Type} {read : τ → Reader α} {Fine : α → Prop}
    (makes : ∀ item, Makes tables Fine (read item)) (items : List τ) :
    Makes tables (fun values => ∀ value ∈ values, Fine value) (Decoder.all read items) :=
  fun base _ _ _ _ _ kept run =>
    Decoder.all_keeps
      (fun item _ _ _ _ _ (held : Kept tables base _) one => makes item _ _ _ _ _ _ held one) kept run

theorem deserializeStructFields_makes (makes : ∀ field, Makes tables AllFit (nested field))
    (structIdx : Option Nat) : Makes tables AllFit (deserializeStructFields tables nested structIdx) := by
  unfold deserializeStructFields
  cases structIdx.bind (tables.structs[·]?) with
  | none => exact fail_makes AllFit
  | some row =>
    intro base bytes state value rest last kept run
    obtain ⟨fields, _, _, one, done⟩ := Decoder.bind_eq_some.mp run
    obtain ⟨fits, kept_last⟩ := all_makes makes row.fields _ _ _ _ _ _ kept one
    obtain ⟨rfl, -, rfl⟩ := Decoder.pure_eq_some.mp done
    refine ⟨fun leaf inside => ?_, kept_last⟩
    obtain ⟨field, member, inside⟩ := mem_leaves_struct.mp inside
    exact fits field member leaf inside

theorem readElementType_eq_some {elemKind : Rtk} {elemTypeIdx : Option Nat}
    (run : readElementType tables bytes state = some ((elemKind, elemTypeIdx), rest, last)) :
    (elemKind = .struct → ∀ elem, elemTypeIdx.bind (tables.structs[·]?) = some elem →
      elem.name.length ≤ maxStringLength) ∧ last = state := by
  obtain ⟨code, _, _, one, two⟩ := Decoder.bind_eq_some.mp run
  obtain rfl := word_eq_some one
  cases wire : wireKind (UInt8.ofNat code) with
  | none => simp only [wire] at two; exact absurd two Decoder.fail_eq_some
  | some kind =>
    simp only [wire] at two
    by_cases struct : kind = .struct
    · simp only [if_pos struct] at two
      obtain ⟨name, _, _, three, four⟩ := Decoder.bind_eq_some.mp two
      obtain ⟨fits, rfl⟩ := readName_eq_some three
      cases found : tables.findStruct name with
      | none => simp only [found] at four; exact absurd four Decoder.fail_eq_some
      | some structIdx =>
        simp only [found] at four
        obtain ⟨same, -, rfl⟩ := Decoder.pure_eq_some.mp four
        cases same
        refine ⟨fun _ elem at_idx => ?_, rfl⟩
        obtain ⟨inside, named, -⟩ := List.findIdx?_eq_some_iff_getElem.mp found
        rw [Option.bind_some, List.getElem?_eq_getElem inside] at at_idx
        cases at_idx
        rwa [of_decide_eq_true named]
    · simp only [if_neg struct] at two
      obtain ⟨same, -, rfl⟩ := Decoder.pure_eq_some.mp two
      cases same
      exact ⟨fun kind' => absurd kind' struct, rfl⟩

theorem readDims_eq_some {dims : List Int} (run : readDims bytes state = some (dims, rest, last)) :
    last = state := by
  obtain ⟨rank, _, _, one, two⟩ := Decoder.bind_eq_some.mp run
  obtain rfl := word_eq_some one
  split at two
  · exact absurd two Decoder.fail_eq_some
  · have step (start : ReadState) (_ : Unit) (bytes : Bytes) (before : ReadState) (value : Int)
        (rest : Bytes) (after : ReadState) (held : before = start)
        (read : ((do return int32Of (← Decoder.word 4)) : Reader Int) bytes before =
          some (value, rest, after)) : True ∧ after = start := by
      obtain ⟨_, _, _, word, done⟩ := Decoder.bind_eq_some.mp read
      obtain ⟨-, -, rfl⟩ := Decoder.pure_eq_some.mp done
      exact ⟨trivial, (word_eq_some word).trans held⟩
    exact (Decoder.all_keeps (step _) rfl two).2

theorem deserializeArrayRecordTagged_makes (makes : ∀ field, Makes tables AllFit (nested field)) (tag : Nat) :
    Makes tables AllFit (deserializeArrayRecordTagged tables nested tag) := by
  unfold deserializeArrayRecordTagged
  split
  · intro base bytes state value rest last kept run
    obtain ⟨rfl, -, rfl⟩ := Decoder.pure_eq_some.mp run
    exact ⟨by simp [AllFit, Value.leaves, Value.Fits], kept⟩
  · exact readBackReference_makes
  · intro base bytes state value rest last kept run
    obtain ⟨⟨elemKind, elemTypeIdx⟩, _, _, header, others⟩ := Decoder.bind_eq_some.mp run
    obtain ⟨names, rfl⟩ := readElementType_eq_some header
    obtain ⟨dims, _, _, shape, body⟩ := Decoder.bind_eq_some.mp others
    obtain rfl := readDims_eq_some shape
    cases found : tables.findArrayTypeDef elemKind elemTypeIdx dims.length with
    | none => simp only [found] at body; exact absurd body Decoder.fail_eq_some
    | some arrayTypeIdx =>
      cases valid : validateArrayDims dims with
      | none => simp only [found, valid] at body; exact absurd body Decoder.fail_eq_some
      | some count =>
        simp only [found, valid] at body
        have fits : (Record.array arrayTypeIdx dims []).NamesFit tables := by
          intro row known struct elem at_idx
          obtain ⟨inside, named, -⟩ := List.findIdx?_eq_some_iff_getElem.mp found
          rw [List.getElem?_eq_getElem inside] at known
          cases known
          rw [of_decide_eq_true named] at struct at_idx
          exact names struct elem at_idx
        refine record_makes ⟨fits, by simp [Record.values]⟩ ?_ _ _ _ _ _ _ kept body
        intro base bytes state values rest last kept run
        obtain ⟨all_fit, kept_last⟩ := all_makes (fun _ => makes _) _ _ _ _ _ _ _ kept run
        exact ⟨⟨fits, all_fit⟩, kept_last⟩
  · exact fail_makes AllFit

theorem readBoxedRecord_makes : Makes tables AllFit readBoxedRecord := by
  intro base bytes state value rest last kept run
  obtain ⟨code, _, _, one, two⟩ := Decoder.bind_eq_some.mp run
  obtain rfl := word_eq_some one
  cases wire : wireKind (UInt8.ofNat code) with
  | none => simp only [wire] at two; exact absurd two Decoder.fail_eq_some
  | some kind =>
    simp only [wire] at two
    by_cases text : kind = .string
    · simp only [if_pos text] at two
      obtain ⟨taken, _, _, three, done⟩ := Decoder.bind_eq_some.mp two
      obtain ⟨fits, rfl⟩ := readString_eq_some three
      obtain ⟨rfl, -, rfl⟩ := Decoder.pure_eq_some.mp done
      exact ⟨by simpa [AllFit, Value.leaves, Value.Fits, Rtk.scalarWidth] using fits, kept⟩
    · simp only [if_neg text] at two
      cases wide : kind.scalarWidth with
      | none => simp only [wide] at two; exact absurd two Decoder.fail_eq_some
      | some width =>
        simp only [wide] at two
        obtain ⟨taken, _, _, three, done⟩ := Decoder.bind_eq_some.mp two
        obtain ⟨length, rfl⟩ := take_eq_some three
        obtain ⟨rfl, -, rfl⟩ := Decoder.pure_eq_some.mp done
        refine ⟨fun leaf inside => ?_, kept⟩
        obtain rfl := List.mem_singleton.mp inside
        simp only [Value.Fits, wide]
        intro byte beyond
        rw [← length, List.drop_left] at beyond
        exact List.eq_of_mem_replicate beyond

theorem deserializeClassFields_makes (makes : ∀ field, Makes tables AllFit (nested field))
    {taggedArray : Reader Value} (arrays : Makes tables AllFit taggedArray) (declared : Nat) :
    Makes tables AllFit (deserializeClassFields tables nested taggedArray declared) := by
  intro base bytes state value rest last kept run
  obtain ⟨tag, _, _, one, two⟩ := Decoder.bind_eq_some.mp run
  obtain rfl := word_eq_some one
  split at two
  · obtain ⟨rfl, -, rfl⟩ := Decoder.pure_eq_some.mp two
    exact ⟨by simp [AllFit, Value.leaves, Value.Fits], kept⟩
  · obtain ⟨name, _, _, three, four⟩ := Decoder.bind_eq_some.mp two
    obtain ⟨named, rfl⟩ := readName_eq_some three
    cases found : tables.findClass name with
    | none => simp only [found] at four; exact absurd four Decoder.fail_eq_some
    | some classIdx =>
      simp only [found] at four
      split at four
      · exact absurd four Decoder.fail_eq_some
      · have fits : (Record.object classIdx []).NamesFit tables := by
          intro row known
          obtain ⟨inside, same, -⟩ := List.findIdx?_eq_some_iff_getElem.mp found
          rw [List.getElem?_eq_getElem inside] at known
          cases known
          rwa [of_decide_eq_true same]
        refine record_makes ⟨fits, by simp [Record.values]⟩ ?_ _ _ _ _ _ _ kept four
        intro base bytes state values rest last kept run
        obtain ⟨all_fit, kept_last⟩ := all_makes makes _ _ _ _ _ _ _ kept run
        exact ⟨⟨fits, all_fit⟩, kept_last⟩
  · exact readBackReference_makes _ _ _ _ _ _ kept two
  · split at two
    · exact arrays _ _ _ _ _ _ kept two
    · exact absurd two Decoder.fail_eq_some
  · split at two
    · exact readBoxedRecord_makes _ _ _ _ _ _ kept two
    · exact absurd two Decoder.fail_eq_some
  · exact absurd two Decoder.fail_eq_some

theorem readRecord_makes (makes : ∀ field, Makes tables AllFit (nested field)) {taggedArray : Reader Value}
    (arrays : Makes tables AllFit taggedArray) (field : FieldEntry) :
    Makes tables AllFit (readRecord tables nested taggedArray field) := by
  unfold readRecord
  split
  · exact deserializeStructFields_makes makes _
  · split
    · exact deserializeClassFields_makes makes arrays _
    · exact fail_makes AllFit
  · intro base bytes state value rest last kept run
    obtain ⟨tag, _, _, one, two⟩ := Decoder.bind_eq_some.mp run
    obtain rfl := word_eq_some one
    exact deserializeArrayRecordTagged_makes makes tag _ _ _ _ _ _ kept two
  · exact fail_makes AllFit

theorem deserializeField_makes (levels : Nat) (field : FieldEntry) :
    Makes tables AllFit (deserializeField tables levels field) := by
  induction levels using Nat.strongRecOn generalizing field with
  | _ levels ih =>
    match levels with
    | 0 => exact readPlain_makes (fail_makes AllFit) field
    | 1 => exact readPlain_makes (readRecord_makes (ih 0 (by omega)) (fail_makes AllFit) field) field
    | levels+2 =>
      exact readPlain_makes (readRecord_makes (ih (levels + 1) (by omega))
        (deserializeArrayRecordTagged_makes (ih levels (by omega)) 3) field) field

variable {records} {call : ReadCall} {root : Value}

theorem ReadCall.reader_eq (call : ReadCall) :
    call.reader tables = deserializeField tables depthLimit call.entry := by
  cases call with
  | object declared => rfl
  | array => rfl

theorem writeObject_eq (suits : call.Suits tables records root) :
    writeObject tables records root =
      (serializeField tables records depthLimit call.entry root []).map Prod.fst := by
  cases call with
  | object declared => rfl
  | array =>
    cases suits with
    | null => rfl
    | @array _ i _ _ _ _ at_i =>
      cases i with
      | zero => cases at_i
      | succ i =>
        have routed : serializeClassFields tables records
            (serializeField tables records (depthLimit - 1)) (.ref (i + 1)) =
            serializeArrayRecord tables records
              (serializeField tables records (depthLimit - 1)) (i + 1) := by
          unfold serializeClassFields
          simp only [at_i]
        rw [writeObject, routed]
        rfl
    | scalar kind | handle kind | str kind | struct kind | object kind | objectArray kind | boxed kind
    | typeParam kind => cases kind
    | func kind => rcases kind with kind | kind <;> cases kind

theorem content_index {i : Nat} {record : Record} (at_i : content records i = some record) :
    1 ≤ i ∧ i ≤ records.length := by
  cases i with
  | zero => cases at_i
  | succ i =>
    cases here : records[i]? with
    | none => simp [content, recordAt, here] at at_i
    | some _ =>
      have := (List.getElem?_eq_some_iff.mp here).1
      omega

def placed (records : Records) (ids : List Nat) (i : Nat) : Nat :=
  if i = 0 then 0 else records.length + ids.idxOf i + 1

theorem Wrote.length_le {values : List Value} {ids' : List Nat} (wrote : Wrote records values [] ids') :
    ids'.length ≤ records.length := by
  have inside : ids' ⊆ List.range' 1 records.length := by
    intro i member
    obtain ⟨record, at_i, -⟩ := (wrote.new i member).resolve_left (by simp)
    obtain ⟨low, high⟩ := content_index at_i
    exact List.mem_range'_1.mpr ⟨low, by omega⟩
  simpa using ((wrote.distinct List.nodup_nil).subperm inside).length_le

theorem Wrote.agrees {values : List Value} {ids' : List Nat} (wrote : Wrote records values [] ids')
    (indices : records.length < 2 ^ 31) : Agrees records (placed records ids') ids' where
  null := rfl
  ids_eq := by
    intro k i known
    obtain ⟨inside, here⟩ := List.getElem?_eq_some_iff.mp known
    obtain ⟨record, at_i, -⟩ := (wrote.new i (List.mem_of_getElem? known)).resolve_left (by simp)
    have position : ids'.idxOf i = k := by
      rw [← here]
      exact (wrote.distinct List.nodup_nil).idxOf_getElem k inside
    have := (content_index at_i).1
    rw [placed, if_neg (by omega), position]
  bound := wrote.length_le.trans_lt indices

theorem recordAt_advanced {ids' : List Nat} (wrote : Wrote records [root] [] ids')
    (indices : records.length < 2 ^ 31) {renamed : Nat → Nat} {i : Nat} (inside : i ∈ ids') :
    recordAt (records ++ ids'.map (carried records renamed)) (placed records ids' i) =
      some (carried records renamed i) := by
  obtain ⟨k, below, rfl⟩ := List.getElem_of_mem inside
  rw [(wrote.agrees indices).ids_eq k _ (List.getElem?_eq_getElem below), recordAt,
    List.getElem?_append_right (by omega), Nat.add_sub_cancel_left, List.getElem?_map,
    List.getElem?_eq_getElem below, Option.map_some]

theorem replays_root (typed : Typed tables records) (suits : call.Suits tables records root) {out : Bytes}
    (written : writeObject tables records root = some out)
    (root_fits : AllFit root)
    (fits : ∀ i record, Reached records root i → content records i = some record →
      record.AllFit tables) :
    ∃ ids', Wrote records [root] [] ids' ∧
      call.read tables records out = (walkField tables records depthLimit call.entry root []).map fun _ =>
        (root.renumber (placed records ids') id,
          records ++ ids'.map (carried records (placed records ids'))) := by
  rw [writeObject_eq suits] at written
  obtain ⟨⟨_, ids'⟩, run, rfl⟩ := Option.map_eq_some_iff.mp written
  have wrote := serializeField_wrote _ _ _ _ _ _ run
  have root_good : Good (Reached records root) root :=
    ⟨root_fits, fun i mentioned => .root mentioned rfl⟩
  have closed : ∀ i record, Reached records root i → content records i = some record →
      record.NamesFit tables ∧ ∀ value ∈ record.values, Good (Reached records root) value :=
    fun i record reached at_i => ⟨(fits i record reached at_i).1, fun value member =>
      ⟨(fits i record reached at_i).2 value member, fun j mentioned =>
        .step reached at_i member mentioned rfl⟩⟩
  have replays := serializeField_follows typed closed depthLimit depthLimit _ _ _ _ _ suits root_good run
  have decodes := replays.decodes _ ⟨records, []⟩ (wrote.agrees typed.indices) ⟨rfl, rfl⟩ []
  refine ⟨ids', wrote, ?_⟩
  rw [List.append_nil] at decodes
  rw [ReadCall.read, ReadCall.reader_eq, decodes]
  cases walkField tables records depthLimit call.entry root [] with
  | none => rfl
  | some _ => rfl

theorem Wrote.reached {ids' : List Nat} (wrote : Wrote records [root] [] ids')
    (root_leaves : ∀ leaf ∈ root.leaves, leaf.Portable)
    (leaves : ∀ i record, Reached records root i → content records i = some record →
      ∀ value ∈ record.values, ∀ leaf ∈ value.leaves, leaf.Portable)
    {i : Nat} (reached : Reached records root i) : i ∈ ids' := by
  have follow : ∀ {value leaf : Value} {j : Nat}, Settled ids' value → leaf ∈ value.leaves →
      leaf.Portable → leaf.target = some j → j ∈ ids' := by
    intro value leaf j settled inside portable target
    cases leaf with
    | ref k => cases k with
      | zero => cases target
      | succ k => cases target; exact settled k inside
    | handle k => cases k with
      | zero => cases target
      | succ k => cases portable.2 _ rfl
    | _ => cases target
  induction reached with
  | root inside target => exact follow (wrote.settled root (by simp)) inside (root_leaves _ inside) target
  | step before at_i member inside target ih =>
    obtain ⟨record, at_i', settled⟩ := (wrote.new _ ih).resolve_left (by simp)
    cases at_i.symm.trans at_i'
    exact follow (settled _ member) inside (leaves _ _ before at_i _ member _ inside) target

theorem renumber_id_of_portable {renamed : Nat → Nat} (null : renamed 0 = 0) {value : Value}
    (portable : ∀ leaf ∈ value.leaves, leaf.Portable) :
    value.renumber renamed id = value.renumber renamed renamed := by
  refine (renumber_eq_iff _ _ _ _ value).mpr fun leaf inside => ?_
  cases leaf with
  | handle i =>
    obtain rfl := (portable _ inside).2 i rfl
    simp [Value.renumber, null]
  | struct fields => exact absurd inside (struct_notMem_leaves fields value)
  | _ => rfl

theorem renumber_record_of_portable {renamed : Nat → Nat} (null : renamed 0 = 0) {record : Record}
    (portable : ∀ value ∈ record.values, ∀ leaf ∈ value.leaves, leaf.Portable) :
    record.renumber renamed id = record.renumber renamed renamed := by
  cases record with
  | object classIdx fields =>
    rw [Record.renumber, Record.renumber, Record.object.injEq]
    exact ⟨rfl, List.map_congr_left fun value member =>
      renumber_id_of_portable null (portable value member)⟩
  | array arrayTypeIdx dims elements =>
    rw [Record.renumber, Record.renumber, Record.array.injEq]
    exact ⟨rfl, rfl, List.map_congr_left fun value member =>
      renumber_id_of_portable null (portable value member)⟩
  | view => rfl

theorem roundTrips_of_portable (typed : Typed tables records) (suits : call.Suits tables records root)
    {out : Bytes} (written : writeObject tables records root = some out)
    (portable : Portable tables records call root) : RoundTrips tables records call root out := by
  have root_fits : AllFit root := fun leaf inside => (portable.root_leaves leaf inside).1
  have fits : ∀ i record, Reached records root i → content records i = some record →
      record.AllFit tables := fun i record reached at_i =>
    ⟨portable.names i record reached at_i, fun value member leaf inside =>
      (portable.leaves i record reached at_i value member leaf inside).1⟩
  obtain ⟨ids', wrote, read⟩ := replays_root typed suits written root_fits fits
  obtain ⟨met, walked⟩ := Option.isSome_iff_exists.mp portable.levels
  rw [walked, Option.map_some] at read
  have agrees := wrote.agrees typed.indices
  have position : ∀ {i : Nat}, i ∈ ids' → ∃ k, ids'[k]? = some i ∧
      placed records ids' i = records.length + k + 1 := by
    intro i inside
    obtain ⟨k, below, rfl⟩ := List.getElem_of_mem inside
    exact ⟨k, List.getElem?_eq_getElem below, agrees.ids_eq k _ (List.getElem?_eq_getElem below)⟩
  have reached_ids : ∀ {i : Nat}, Reached records root i → i ∈ ids' :=
    wrote.reached portable.root_leaves portable.leaves
  refine ⟨_, _, placed records ids', read, ⟨rfl, ?_, ?_, ?_, ?_⟩⟩
  · intro i reached
    obtain ⟨k, -, at_k⟩ := position (reached_ids reached)
    omega
  · intro i j reached_i reached_j same
    obtain ⟨k, known, at_k⟩ := position (reached_ids reached_i)
    obtain ⟨l, known', at_l⟩ := position (reached_ids reached_j)
    obtain rfl : k = l := by omega
    exact Option.some.inj (known.symm.trans known')
  · exact renumber_id_of_portable rfl portable.root_leaves
  · intro i reached
    obtain ⟨record, at_i, -⟩ := (wrote.new i (reached_ids reached)).resolve_left (by simp)
    refine ⟨record, at_i, ?_⟩
    rw [recordAt_advanced wrote typed.indices (reached_ids reached), carried_eq at_i,
      renumber_record_of_portable rfl (portable.leaves i record reached at_i)]

theorem fits_of_renumber {onRef onHandle : Nat → Nat} {leaf : Value}
    (fits : (leaf.renumber onRef onHandle).Fits) : leaf.Fits := by
  cases leaf with
  | str | boxed => exact fits
  | _ => trivial

theorem allFit_of_renumber {onRef onHandle : Nat → Nat} {value : Value}
    (fits : AllFit (value.renumber onRef onHandle)) : AllFit value := by
  intro leaf inside
  have renamed : leaf.renumber onRef onHandle ∈ (value.renumber onRef onHandle).leaves := by
    rw [leaves_renumber]
    exact List.mem_map_of_mem inside
  exact fits_of_renumber (fits _ renamed)

theorem recordFit_of_renumber {onRef onHandle : Nat → Nat} {record : Record}
    (fits : (record.renumber onRef onHandle).AllFit tables) : record.AllFit tables := by
  obtain ⟨names, all_fit⟩ := fits
  cases record with
  | object | array =>
    exact ⟨names, fun value member => allFit_of_renumber (all_fit _ (List.mem_map_of_mem member))⟩
  | view => exact ⟨names, by simp [Record.values]⟩

theorem values_of_renumber {onRef onHandle onRef' onHandle' : Nat → Nat} {record : Record}
    (same : record.renumber onRef onHandle = record.renumber onRef' onHandle') :
    ∀ value ∈ record.values, value.renumber onRef onHandle = value.renumber onRef' onHandle' := by
  cases record with
  | object => exact List.map_inj_left.mp (Record.object.inj same).2
  | array => exact List.map_inj_left.mp (Record.array.inj same).2.2
  | view => simp [Record.values]

theorem handle_null {after : Records} {copy : Value} {renamed : Nat → Nat} {i : Nat}
    (copied : Copied records root after copy renamed) (small : records.length < 2 ^ 31)
    (few : after.length < 2 ^ 32) (reached : i ≠ 0 → Reached records root i)
    (same : putWord 4 i = putWord 4 (renamed i)) : i = 0 := by
  by_contra nonzero
  have fresh := copied.fresh i (reached nonzero)
  obtain ⟨record, at_i, at_copy⟩ := copied.records_eq i (reached nonzero)
  have low := (content_index at_i).2
  have high : renamed i ≤ after.length := by
    cases place : renamed i with
    | zero => exact Nat.zero_le _
    | succ k =>
      rw [place] at at_copy
      exact (List.getElem?_eq_some_iff.mp at_copy).1
  have words := congrArg wordOf same
  rw [wordOf_putWord, wordOf_putWord, Nat.mod_eq_of_lt (by norm_num; omega),
    Nat.mod_eq_of_lt (by norm_num; omega)] at words
  omega

theorem portable_of_roundTrips (typed : Typed tables records) (suits : call.Suits tables records root)
    {out : Bytes} (written : writeObject tables records root = some out)
    (roundTrips : RoundTrips tables records call root out) : Portable tables records call root := by
  obtain ⟨copy, after, renamed, read, copied⟩ := roundTrips
  -- What the reader made is within its caps, and a copy carries the caps back.
  obtain ⟨⟨_, rest, state⟩, run, same⟩ := Option.map_eq_some_iff.mp read
  cases same
  rw [ReadCall.reader_eq] at run
  have start : Kept tables records.length ⟨records, []⟩ :=
    ⟨le_rfl, fun k record above here => by simp [List.getElem?_eq_none above] at here⟩
  obtain ⟨copy_fits, kept⟩ := deserializeField_makes _ _ _ _ _ _ _ _ start run
  have root_fits : AllFit root := by
    rw [copied.root_eq] at copy_fits
    exact allFit_of_renumber copy_fits
  have fits : ∀ i record, Reached records root i → content records i = some record →
      record.AllFit tables := by
    intro i record reached at_i
    obtain ⟨record', at_i', at_copy⟩ := copied.records_eq i reached
    cases at_i.symm.trans at_i'
    have fresh := copied.fresh i reached
    cases place : renamed i with
    | zero => omega
    | succ k =>
      rw [place] at at_copy
      exact recordFit_of_renumber (kept.fit k _ (by omega) at_copy)
  obtain ⟨ids', wrote, replayed⟩ := replays_root typed suits written root_fits fits
  rw [read] at replayed
  obtain ⟨met, walked, same⟩ := Option.map_eq_some_iff.mp replayed.symm
  obtain ⟨root_same, after_same⟩ := Prod.mk.inj same
  -- The two renumberings agree on everything reached.
  have few : state.records.length < 2 ^ 32 := by
    have := wrote.length_le
    have := typed.indices
    rw [← after_same, List.length_append, List.length_map]
    omega
  have leaf_portable : ∀ {value leaf : Value}, AllFit value →
      value.renumber (placed records ids') id = value.renumber renamed renamed →
      (∀ i, leaf.target = some i → Reached records root i) → leaf ∈ value.leaves → leaf.Portable := by
    intro value leaf all_fit same reached inside
    refine ⟨all_fit leaf inside, ?_⟩
    rintro i rfl
    have words := (renumber_eq_iff _ _ _ _ value).mp same _ inside
    refine handle_null copied typed.indices few (fun nonzero => ?_) (Value.scalar.inj words)
    obtain ⟨j, rfl⟩ := Nat.exists_eq_succ_of_ne_zero nonzero
    exact reached _ rfl
  have leaf_settled : ∀ {value leaf : Value} {i : Nat}, Settled ids' value →
      value.renumber (placed records ids') id = value.renumber renamed renamed → leaf.Portable →
      leaf ∈ value.leaves → leaf.target = some i → i ∈ ids' ∧ placed records ids' i = renamed i := by
    intro value leaf i settled same portable inside target
    cases leaf with
    | ref j => cases j with
      | zero => cases target
      | succ j =>
        cases target
        exact ⟨settled j inside, Value.ref.inj ((renumber_eq_iff _ _ _ _ value).mp same _ inside)⟩
    | handle j => cases j with
      | zero => cases target
      | succ j => cases portable.2 _ rfl
    | _ => cases target
  have root_renumbered := root_same.trans copied.root_eq
  have record_renumbered : ∀ {i : Nat} {record : Record}, Reached records root i →
      content records i = some record → i ∈ ids' → placed records ids' i = renamed i →
      ∀ value ∈ record.values,
        value.renumber (placed records ids') id = value.renumber renamed renamed := by
    intro i record reached at_i inside agree
    obtain ⟨record', at_i', at_copy⟩ := copied.records_eq i reached
    cases at_i.symm.trans at_i'
    rw [← after_same, ← agree, recordAt_advanced wrote typed.indices inside, carried_eq at_i] at at_copy
    exact values_of_renumber (Option.some.inj at_copy)
  have reached_settled : ∀ {i : Nat}, Reached records root i →
      i ∈ ids' ∧ placed records ids' i = renamed i := by
    intro i reached
    induction reached with
    | @root leaf i inside target =>
      refine leaf_settled (wrote.settled root (by simp)) root_renumbered ?_ inside target
      exact leaf_portable root_fits root_renumbered (fun j target => .root inside target) inside
    | @step i j record value leaf before at_i member inside target ih =>
      obtain ⟨record', at_i', settled⟩ := (wrote.new _ ih.1).resolve_left (by simp)
      cases at_i.symm.trans at_i'
      have same := record_renumbered before at_i ih.1 ih.2 value member
      refine leaf_settled (settled value member) same ?_ inside target
      exact leaf_portable ((fits _ _ before at_i).2 value member) same
        (fun j target => .step before at_i member inside target) inside
  refine ⟨?_, ?_, fun i record reached at_i => (fits i record reached at_i).1, by rw [walked]; rfl⟩
  · intro leaf inside
    exact leaf_portable root_fits root_renumbered (fun j target => .root inside target) inside
  · intro i record reached at_i value member leaf inside
    obtain ⟨met_i, agree⟩ := reached_settled reached
    exact leaf_portable ((fits i record reached at_i).2 value member)
      (record_renumbered reached at_i met_i agree value member)
      (fun j target => .step reached at_i member inside target) inside

end RoundTrip

def nodeTables : Tables where
  structs := []
  classes := [⟨objectName, none, []⟩, ⟨[78], some 0, [{ kind := .cls, classIdx := some 0 }]⟩]
  arrayTypes := [{ elemKind := .int32 }]
  structs_distinct := List.nodup_nil
  classes_distinct := by decide
  arrayTypes_distinct := by decide
  plain_elements := by simp

def chain (length : Nat) : Records :=
  (List.range length).map (fun k => .object 1 [.ref (k + 2)]) ++ [.array 0 [1] [.scalar [7, 0, 0, 0]]]

theorem chain_content {length i : Nat} {record : Record} (at_i : content (chain length) i = some record) :
    (∃ k, k < length ∧ i = k + 1 ∧ record = .object 1 [.ref (k + 2)]) ∨
      (i = length + 1 ∧ record = .array 0 [1] [.scalar [7, 0, 0, 0]]) := by
  cases i with
  | zero => cases at_i
  | succ k =>
    rcases Nat.lt_trichotomy k length with below | rfl | above
    · have here : (chain length)[k]? = some (.object 1 [.ref (k + 2)]) := by
        rw [chain, List.getElem?_append_left (by simpa using below)]
        simp [below]
      simp only [content, recordAt, here, Option.some.injEq] at at_i
      exact .inl ⟨k, below, rfl, at_i.symm⟩
    · have here : (chain k)[k]? = some (.array 0 [1] [.scalar [7, 0, 0, 0]]) := by simp [chain]
      simp only [content, recordAt, here, Option.some.injEq] at at_i
      exact .inr ⟨rfl, at_i.symm⟩
    · have here : (chain length)[k]? = none := by simp [chain]; omega
      simp [content, recordAt, here] at at_i

theorem chain_object {length k : Nat} (below : k < length) :
    content (chain length) (k + 1) = some (.object 1 [.ref (k + 2)]) := by
  have here : (chain length)[k]? = some (.object 1 [.ref (k + 2)]) := by
    rw [chain, List.getElem?_append_left (by simpa using below)]
    simp [below]
  simp [content, recordAt, here]

theorem chain_array (length : Nat) :
    content (chain length) (length + 1) = some (.array 0 [1] [.scalar [7, 0, 0, 0]]) := by
  simp [content, recordAt, chain]

theorem chain_typed {length : Nat} (short : length < 2 ^ 31 - 1) : Typed nodeTables (chain length) where
  records_typed := by
    intro i record at_i
    rcases chain_content at_i with ⟨k, below, rfl, rfl⟩ | ⟨rfl, rfl⟩
    · have known : nodeTables.classes[1]? = some nodeTables.classes[1] := rfl
      refine .object known (.cons ?_ .nil)
      rcases Nat.lt_or_ge (k + 1) length with inner | last
      · exact .object rfl rfl (chain_object inner) rfl
      · obtain rfl : length = k + 1 := by omega
        exact .objectArray rfl rfl rfl (chain_array _)
    · have known : nodeTables.arrayTypes[0]? = some nodeTables.arrayTypes[0] := rfl
      refine .array known rfl (by decide) (by decide) rfl ?_
      intro value member
      obtain rfl := List.mem_singleton.mp member
      exact .scalar rfl
  indices := by
    simp only [chain, List.length_append, List.length_map, List.length_range, List.length_singleton]
    omega

theorem chain_suits {length : Nat} (long : 0 < length) :
    (ReadCall.object 1).Suits nodeTables (chain length) (.ref 1) :=
  .object rfl rfl (chain_object long) rfl

end NLang.Vm.ObjectStream
