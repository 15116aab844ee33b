import NLang.Vm.ContainerRuns

/-!
# Containers and their models

In every state of a run the equality of keys is an equivalence, a Dict is the map that its history says, and a List finds
the first element that is equal to a value.
-/

namespace NLang.Vm
open NLang.Library.Fuelled NLang.Library.MapHistories NLang.Library.Runs

structure ContainerStart (m : ContainerModule) (stringConstants : List (List UInt8)) where
  heap : Heap
  strings : StringProgram
  sound : HeapSound m stringConstants heap strings

def ContainerStart.program {m : ContainerModule} {stringConstants : List (List UInt8)}
    (start : ContainerStart m stringConstants) : ContainerProgram := ⟨start.heap, start.strings, [], []⟩

theorem Heap.init_handles {carriers : Nat} {table : SideKind → SideTable} {kind : SideKind}
    (unused : (table kind).freeList = []) : Heap.Handles (Heap.init carriers table) kind := by
  have none : ∀ i handle, ¬ Heap.Owner (Heap.init carriers table) kind i handle := by
    intro i handle owner
    exact absurd owner.inside (Nat.not_lt_of_le owner.positive)
  refine ⟨fun i handle owner => absurd owner (none i handle), fun i j handle owner => absurd owner (none i handle),
    fun handle listed => ?_, ?_⟩
  · rw [show (Heap.init carriers table).table kind = table kind from rfl, unused] at listed
    cases listed
  · rw [show (Heap.init carriers table).table kind = table kind from rfl, unused]
    exact .nil

def ContainerStart.init {m : ContainerModule} {stringConstants : List (List UInt8)} {carriers shard quantum : Nat}
    {strings : StringHeap} (started : StringHeap.initStringStore carriers shard quantum stringConstants = some strings) :
    ContainerStart m stringConstants where
  heap := Heap.init carriers fun kind =>
    match kind with
    | .list => { classIdx := m.listClassIdx }
    | .dict => { classIdx := m.dictClassIdx }
    | _ => {}
  strings := ⟨strings, []⟩
  sound :=
    { free := Heap.init_freeListSound carriers _
      strings := ⟨StringHeap.initStringStore_formed started, fun _ none => (nomatch none), fun _ none => (nomatch none)⟩
      listClass := rfl
      dictClass := rfl
      listHandles := Heap.init_handles rfl
      dictHandles := Heap.init_handles rfl }

def ContainerAction.writesDict : ContainerAction → Option Nat
  | .dictSet p _ _ _ => some p
  | .dictRemove p _ _ => some p
  | .dictClear p => some p
  | _ => none

def ContainerAction.writesList : ContainerAction → Option Nat
  | .listAdd p _ _ => some p
  | .listSet p _ _ _ => some p
  | .listRemoveAt p _ => some p
  | .listClear p => some p
  | _ => none

namespace ContainerProgram

def KeysEqual (s : ContainerProgram) (k k' : Int) : Prop :=
  Computes (fun fuel => s.heap.dictKeysEqual s.strings.heap fuel k k') true

structure DictModel (m : ContainerModule) (s : ContainerProgram) (i : Nat) (history : List (MapEvent DictKey Int))
    (entries : List (Int × Int)) : Prop where
  slot : Heap.Tracks s.heap .dict i (unpairs entries)
  distinct : entries.Pairwise fun a b =>
    Computes (fun fuel => s.heap.dictKeysEqual s.strings.heap fuel a.1 b.1) false
  inOrder : ∃ keys, List.Forall₂ s.IsKey (entries.map Prod.fst) keys ∧ keys.Pairwise (Earlier history) ∧
    ∀ key, key ∈ keys ↔ (lastSet history key).isSome = true
  get : ∀ k key, s.IsKey k key → Computes (fun fuel => s.heap.dictGet m.exceptions s.strings.heap fuel i k)
    (match lastSet history key with
      | some value => .ok value
      | none => .error (.raised m.exceptions.exceptionClassIdx "NLang VM: Dict key not found"))
  containsKey : ∀ k key, s.IsKey k key → Computes (fun fuel => s.heap.dictContainsKey s.strings.heap fuel i k)
    (.ok (if (lastSet history key).isSome then 1 else 0))
  set : ∀ k key v, s.IsKey k key → ∃ heap, Computes (fun fuel => s.heap.dictSet s.strings.heap fuel i k v) (.ok heap)
  remove : ∀ k key, s.IsKey k key → ∃ heap, Computes (fun fuel => s.heap.dictRemove s.strings.heap fuel i k)
    (.ok (if (lastSet history key).isSome then 1 else 0, heap))
  count : s.heap.dictCount i = .ok ↑entries.length
  keys : ∀ shard quantum result, s.heap.dictKeys i m.tables shard quantum = some result →
    ∃ j heap, result = .ok (j, heap) ∧ Heap.Tracks heap .list j (entries.map Prod.fst)
  copy : ∀ shard quantum result, s.heap.dictCopy i m.tables shard quantum = some result →
    ∃ j heap, result = .ok (j, heap) ∧ j ≠ i ∧ Heap.Tracks heap .dict j (unpairs entries)

structure ListModel (s : ContainerProgram) (i : Nat) (elements : List Int) : Prop where
  slot : Heap.Tracks s.heap .list i elements
  find : ∃ keys, List.Forall₂ s.IsKey elements keys ∧ ∀ value key, s.IsKey value key →
    Computes (fun fuel => s.heap.listIndexOf i s.strings.heap fuel value)
      (.ok (match keys.findIdx? (· = key) with
        | some p => ↑p
        | none => -1)) ∧
    Computes (fun fuel => s.heap.listContains i s.strings.heap fuel value) (.ok (if key ∈ keys then 1 else 0))

section Equality
variable {s : ContainerProgram} {k k' : Int} {a b : DictKey}

theorem keysEqual_iff (first : s.IsKey k a) (second : s.IsKey k' b) : s.KeysEqual k k' ↔ a = b := by
  have decides := dictKeysEqual_computes first second
  constructor
  · intro equal
    exact of_decide_eq_true (decides.unique equal)
  · intro same
    rwa [decide_eq_true same] at decides

theorem keysEqual_equivalence : Equivalence fun k k' : {k : Int // ∃ key, s.IsKey k key} => s.KeysEqual k k' where
  refl := by
    rintro ⟨k, key, isKey⟩
    exact (keysEqual_iff isKey isKey).mpr rfl
  symm := by
    rintro ⟨k, a, isKey⟩ ⟨k', b, isKey'⟩ equal
    exact (keysEqual_iff isKey' isKey).mpr ((keysEqual_iff isKey isKey').mp equal).symm
  trans := by
    rintro ⟨k, a, isKey⟩ ⟨k', b, isKey'⟩ ⟨k'', c, isKey''⟩ equal equal'
    have first := (keysEqual_iff isKey isKey').mp equal
    have second := (keysEqual_iff isKey' isKey'').mp equal'
    exact (keysEqual_iff isKey isKey'').mpr (first.trans second)

end Equality

theorem pairwise_of_forall₂ {α β : Type} {r : α → β → Prop} {differ : α → α → Prop} {differ' : β → β → Prop}
    {as : List α} {bs : List β} (related : List.Forall₂ r as bs) (pairwise : bs.Pairwise differ')
    (carry : ∀ a a' b b', r a b → r a' b' → differ' b b' → differ a a') : as.Pairwise differ := by
  rw [List.pairwise_iff_getElem] at pairwise ⊢
  intro i j insideI insideJ less
  have insideI' : i < bs.length := related.length_eq ▸ insideI
  have insideJ' : j < bs.length := related.length_eq ▸ insideJ
  exact carry _ _ _ _ (related.get insideI insideI') (related.get insideJ insideJ') (pairwise i j insideI' insideJ' less)

section Models
variable {m : ContainerModule} {stringConstants : List (List UInt8)} {s : ContainerProgram}
variable (holds : Holds m stringConstants s)
include holds

theorem Holds.dictModel {q i : Nat} {history : List (MapEvent DictKey Int)} (found : s.dicts[q]? = some (i, history)) :
    ∃ entries, DictModel m s i history entries := by
  obtain ⟨handle, entries, rows, owner, slot, areEntries, records⟩ := holds.dict_at found
  have areKeys : List.Forall₂ s.IsKey (entries.map Prod.fst) (rows.map Prod.fst) := by
    rw [List.forall₂_map_left_iff, List.forall₂_map_right_iff]
    exact areEntries.imp fun _ _ entry => entry.1
  refine ⟨entries, ⟨handle, owner, slot⟩, ?_, ⟨_, areKeys, records.order, ?_⟩, ?_, ?_, ?_, ?_, ?_, ?_, ?_⟩
  · exact pairwise_of_forall₂ areEntries (List.pairwise_map.mp records.nodup) fun _ _ _ _ first second apart =>
      decide_eq_false apart ▸ dictKeysEqual_computes first.1 second.1
  · intro key
    rw [← records.value, isSome_lookup]
  · intro k key isKey
    rw [← records.value]
    exact Heap.dictGet_computes owner slot areEntries isKey m.exceptions
  · intro k key isKey
    rw [← records.value]
    exact Heap.dictContainsKey_computes owner slot areEntries isKey
  · intro k key v isKey
    obtain ⟨entries', computes, -⟩ := Heap.dictSet_computes owner slot areEntries isKey v
    exact ⟨_, computes⟩
  · intro k key isKey
    obtain ⟨entries', computes, -⟩ := Heap.dictRemove_computes owner slot areEntries isKey
    rw [← records.value]
    exact ⟨_, computes⟩
  · rw [Heap.dictCount_eq owner slot areEntries, areEntries.length_eq]
  · intro shard quantum result listed
    have ran := listed
    simp only [Heap.dictKeys, Heap.readDictHandle, owner.readHandle] at ran
    obtain ⟨j, heap, rfl⟩ := Heap.newContainer_ok holds.sound.listClass ran
    exact ⟨j, heap, rfl, (holds.dictKeys_new owner slot (finished_eq_some.mpr listed)).tracks⟩
  · intro shard quantum result copied
    have ran := copied
    simp only [Heap.dictCopy, Heap.readDictHandle, owner.readHandle] at ran
    obtain ⟨j, heap, rfl⟩ := Heap.newContainer_ok holds.sound.dictClass ran
    have new := holds.dictCopy_new owner slot (finished_eq_some.mpr copied)
    exact ⟨j, heap, rfl, (new.fresh.ne owner.inside owner.live).symm, new.tracks⟩

theorem Holds.listModel {q i : Nat} {elements : List Int} (found : s.lists[q]? = some (i, elements)) :
    ListModel s i elements := by
  obtain ⟨handle, owner, slot, keys, areElements⟩ := holds.list_at found
  refine ⟨⟨handle, owner, slot⟩, keys, areElements, fun value key isKey => ?_⟩
  exact ⟨Heap.listIndexOf_computes owner slot isKey areElements, Heap.listContains_computes owner slot isKey areElements⟩

end Models

inductive Changes {α : Type} (written : Option Nat) (l : List α) : List α → Prop where
  | added (new : List α) : Changes written l (l ++ new)
  | wrote (p : Nat) (a : α) : written = some p → Changes written l (l.set p a)

section Changes
variable {α : Type} {written : Option Nat} {l l' : List α}

theorem Changes.same : Changes written l l := by
  have changes : Changes written l (l ++ []) := .added []
  rwa [List.append_nil] at changes

theorem Changes.frame (changes : Changes written l l') {q : Nat} {a : α} (apart : written ≠ some q)
    (found : l[q]? = some a) : l'[q]? = some a := by
  cases changes with
  | added new =>
    rw [List.getElem?_append_left (List.getElem?_eq_some_iff.mp found).1]
    exact found
  | wrote p b isWritten =>
    rw [List.getElem?_set_ne, found]
    rintro rfl
    exact apart isWritten

end Changes

section Frame
variable {m : ContainerModule} {stringConstants : List (List UInt8)} {s s' : ContainerProgram} {action : ContainerAction}
variable (taken : s.step m stringConstants action = some s')
include taken

theorem step_changes :
    Changes action.writesList s.lists s'.lists ∧ Changes action.writesDict s.dicts s'.dicts := by
  cases action with
  | text action =>
    by_cases isCollect : ∃ others, action = .collect others
    · obtain ⟨others, rfl⟩ := isCollect
      cases taken
    · rw [not_exists] at isCollect
      rw [step_text m stringConstants s isCollect] at taken
      obtain ⟨strings, -, rfl⟩ := Option.map_eq_some_iff.mp taken
      exact ⟨.same, .same⟩
  | box =>
    obtain ⟨_, -, rfl⟩ := Option.map_eq_some_iff.mp taken
    exact ⟨.same, .same⟩
  | boxString | record =>
    simp only [ContainerProgram.step, Option.ite_none_right_eq_some, Option.map_eq_some_iff] at taken
    obtain ⟨-, _, -, rfl⟩ := taken
    exact ⟨.same, .same⟩
  | write =>
    simp only [ContainerProgram.step, Option.ite_none_right_eq_some] at taken
    obtain ⟨-, same⟩ := taken
    cases same
    exact ⟨.same, .same⟩
  | newList =>
    obtain ⟨_, -, same⟩ := Option.bind_eq_some_iff.mp taken
    cases same
    exact ⟨.added _, .same⟩
  | newDict =>
    obtain ⟨_, -, same⟩ := Option.bind_eq_some_iff.mp taken
    cases same
    exact ⟨.same, .added _⟩
  | listAdd p | listSet p =>
    simp only [ContainerProgram.step, Option.bind_eq_bind, Option.bind_eq_some_iff] at taken
    obtain ⟨_, -, _, -, _, -, same⟩ := taken
    cases same
    exact ⟨.wrote p _ rfl, .same⟩
  | listRemoveAt p | listClear p =>
    simp only [ContainerProgram.step, Option.bind_eq_bind, Option.bind_eq_some_iff] at taken
    obtain ⟨_, -, _, -, same⟩ := taken
    cases same
    exact ⟨.wrote p _ rfl, .same⟩
  | listCopy | dictKeys =>
    simp only [ContainerProgram.step, Option.bind_eq_bind, Option.bind_eq_some_iff] at taken
    obtain ⟨_, -, _, -, same⟩ := taken
    cases same
    exact ⟨.added _, .same⟩
  | dictSet p | dictRemove p =>
    simp only [ContainerProgram.step, Option.bind_eq_bind, Option.bind_eq_some_iff] at taken
    obtain ⟨_, -, _, -, _, -, same⟩ := taken
    cases same
    exact ⟨.same, .wrote p _ rfl⟩
  | dictClear p =>
    simp only [ContainerProgram.step, Option.bind_eq_bind, Option.bind_eq_some_iff] at taken
    obtain ⟨_, -, _, -, same⟩ := taken
    cases same
    exact ⟨.same, .wrote p _ rfl⟩
  | dictCopy =>
    simp only [ContainerProgram.step, Option.bind_eq_bind, Option.bind_eq_some_iff] at taken
    obtain ⟨_, -, _, -, same⟩ := taken
    cases same
    exact ⟨.same, .added _⟩

end Frame

section Runs
variable {m : ContainerModule} {stringConstants : List (List UInt8)} {s s' : ContainerProgram} {q : Nat}

theorem run_dicts {entry : Nat × List (MapEvent DictKey Int)} (found : s.dicts[q]? = some entry)
    (run : Run (step m stringConstants) (fun _ action => action.writesDict ≠ some q) s s') :
    s'.dicts[q]? = some entry := by
  induction run with
  | refl => exact found
  | tail _ apart taken ih => exact (step_changes taken).2.frame apart ih

theorem run_lists {entry : Nat × List Int} (found : s.lists[q]? = some entry)
    (run : Run (step m stringConstants) (fun _ action => action.writesList ≠ some q) s s') :
    s'.lists[q]? = some entry := by
  induction run with
  | refl => exact found
  | tail _ apart taken ih => exact (step_changes taken).1.frame apart ih

/-- In every state of a run, equality compares what keys stand for, and so do the elements of a List. Each Dict is the map
of its history and each List finds the first equal element; both only change by the actions that write them. -/
theorem containers_refine (start : ContainerStart m stringConstants)
    (run : Run (step m stringConstants) (fun _ _ => True) start.program s) :
    (∀ k k' key key', s.IsKey k key → s.IsKey k' key' →
      Computes (fun fuel => s.heap.dictKeysEqual s.strings.heap fuel k k') (decide (key = key')) ∧
      Computes (fun fuel => s.heap.elementMatches s.strings.heap fuel k k') (decide (key = key'))) ∧
    Equivalence (fun k k' : {k : Int // ∃ key, s.IsKey k key} => s.KeysEqual k k') ∧
    (∀ (q i : Nat) history, s.dicts[q]? = some (i, history) → ∃ entries, DictModel m s i history entries) ∧
    (∀ (q i : Nat) elements, s.lists[q]? = some (i, elements) → ListModel s i elements) ∧
    (∀ (q : Nat) entry s', s.dicts[q]? = some entry →
      Run (step m stringConstants) (fun _ action => action.writesDict ≠ some q) s s' → s'.dicts[q]? = some entry) ∧
    (∀ (q : Nat) entry s', s.lists[q]? = some entry →
      Run (step m stringConstants) (fun _ action => action.writesList ≠ some q) s s' → s'.lists[q]? = some entry) := by
  have first : Holds m stringConstants start.program :=
    ⟨start.sound, fun _ none => (nomatch none), fun _ none => (nomatch none), .nil, .nil⟩
  have holds : Holds m stringConstants s :=
    run.invariant (Holds m stringConstants) first fun _ _ _ before _ taken => before.step taken
  refine ⟨?_, keysEqual_equivalence, fun _ _ _ found => holds.dictModel found, fun _ _ _ found => holds.listModel found,
    fun _ _ _ found later => run_dicts found later, fun _ _ _ found later => run_lists found later⟩
  intro k k' key key' isKey isKey'
  refine ⟨dictKeysEqual_computes isKey isKey', ?_⟩
  simpa only [eq_comm] using elementMatches_computes isKey isKey'

end Runs

def collectionModule : ContainerModule where
  tables :=
    { structs := []
      classes := [{ name := "List", fields := [{ kind := .int32 }] }, { name := "Dict", fields := [{ kind := .int32 }] }]
      arrayTypes := []
      depth := fun _ => 0
      depth_lt := TypeTables.depth_lt_nil }
  exceptions := ⟨2, 3⟩
  listClassIdx := 0
  dictClassIdx := 1
  list_row := rfl
  dict_row := rfl
  list_fields := rfl
  dict_fields := rfl
  list_small := by decide
  dict_small := by decide
  apart := by decide

def collectionStart : ContainerStart collectionModule [] :=
  @ContainerStart.init collectionModule [] 1 0 1 ((StringHeap.initStringStore 1 0 1 []).get rfl) (Option.some_get rfl).symm

def copiedDict : Option ContainerProgram :=
  [ContainerAction.newDict 0 1, .box 0 1 .int32 7 0, .box 0 1 .int32 7 0, .dictSet 0 9 2 5, .dictCopy 0 1 0,
    .dictSet 0 9 3 6].foldlM (step collectionModule []) collectionStart.program

theorem copiedDict_isSome : copiedDict.isSome = true := by decide +kernel

def seven : DictKey := .boxed (.scalar .int32 7 0)

theorem containers_refine_copied : ∃ s, copiedDict = some s ∧
    (∃ n, s.heap.dictGet ⟨2, 3⟩ s.strings.heap n 1 2 = some (.ok 6)) ∧
    ∃ n, s.heap.dictGet ⟨2, 3⟩ s.strings.heap n 4 3 = some (.ok 5) := by
  have ran : copiedDict = some (copiedDict.get copiedDict_isSome) := (Option.some_get _).symm
  have run : Run (step collectionModule []) (fun _ _ => True) collectionStart.program _ :=
    Run.refl.actions (fun _ _ _ => trivial) ran
  obtain ⟨-, -, dicts, -⟩ := containers_refine collectionStart run
  obtain ⟨_, model⟩ := dicts 0 1 [.set seven 6, .set seven 5] (by decide +kernel)
  obtain ⟨_, copied⟩ := dicts 1 4 [.set seven 5] (by decide +kernel)
  have first : (copiedDict.get copiedDict_isSome).IsKey 2 seven :=
    .boxed (@IsBoxed.scalar _ _ 2 7 0 .int32 (by decide +kernel) (by decide +kernel))
  have second : (copiedDict.get copiedDict_isSome).IsKey 3 seven :=
    .boxed (@IsBoxed.scalar _ _ 3 7 0 .int32 (by decide +kernel) (by decide +kernel))
  refine ⟨_, ran, ?_, ?_⟩
  · obtain ⟨n, gives⟩ := (model.get 2 seven first).enough
    exact ⟨n, gives n (Nat.le_refl n)⟩
  · obtain ⟨n, gives⟩ := (copied.get 3 seven second).enough
    exact ⟨n, gives n (Nat.le_refl n)⟩

end ContainerProgram

end NLang.Vm
