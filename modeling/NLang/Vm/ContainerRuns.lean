import NLang.Library.Outcomes
import NLang.Vm.ContainerRefinement

/-!
# Runs on containers

A program works on Lists and Dicts and does the rest of its work on the heap between: it boxes values, creates and
writes other records, and works with strings. Each List stands beside what it holds and each Dict beside its history.
-/

namespace NLang.Vm
open NLang.Library NLang.Library.Fuelled NLang.Library.MapHistories NLang.Library.Runs

namespace Heap

/-- The key of a reference; `none` is no reference, or a string that needs more fuel. -/
def keyOf (h : Heap) (strings : StringHeap) (fuel : Nat) (k : Int) : Option DictKey :=
  if k = 0 then some .null
  else if h.inRange k then
    if h.refKind k = .boxed then
      match (h.slot k.toNat).cells with
      | [tag, lo, hi] =>
        if tag = rtkStringCode then
          if lo = 0 ∨ (1 ≤ lo.toNat ∧ lo.toNat < strings.size ∧ lo.toNat ∉ strings.freeIndices) then
            (strings.strValCopy fuel lo).map fun content => .boxed (.string content)
          else none
        else
          (ScalarPrim.rows.find? fun row => row.rtkCode = tag).map fun row =>
            .boxed (.scalar row lo (if row.slotWidth < 8 then 0 else hi))
      | _ => none
    else if isChildBearingHeapKind (h.refKind k) then some (.ref k.toNat)
    else none
  else none

theorem isKey_of_keyOf {h : Heap} {strings : StringHeap} {stringConstants : List (List UInt8)} {fuel : Nat} {k : Int}
    {key : DictKey} (formed : strings.Formed stringConstants) (isKey : h.keyOf strings fuel k = some key) :
    IsKey h strings k key := by
  unfold keyOf at isKey
  split at isKey
  · rename_i zero
    cases isKey
    exact zero ▸ .null
  split at isKey
  · rename_i inside
    split at isKey
    · rename_i boxed
      have isBoxed : h.isBoxedRef k = true := by simp [isBoxedRef, inside, boxed]
      split at isKey
      · rename_i tag lo hi cells
        split at isKey
        · rename_i isString
          subst isString
          split at isKey
          · rename_i operand
            obtain ⟨content, read, rfl⟩ := Option.map_eq_some_iff.mp isKey
            have isOperand : strings.Operand lo := operand
            obtain ⟨h', same⟩ := formed.readers_agree read
            exact .boxed (.string isBoxed cells isOperand (formed.strVal same).2.2.1)
          · cases isKey
        · obtain ⟨row, found, rfl⟩ := Option.map_eq_some_iff.mp isKey
          have code : row.rtkCode = tag := by simpa using List.find?_some found
          exact .boxed (.scalar isBoxed (code ▸ cells))
      · cases isKey
    · rename_i notBoxed
      split at isKey
      · rename_i children
        cases isKey
        exact .ref inside children notBoxed
      · cases isKey
  · cases isKey

end Heap

structure ContainerProgram where
  heap : Heap
  strings : StringProgram
  lists : List (Nat × List Int)
  dicts : List (Nat × List (MapEvent DictKey Int))

inductive ContainerAction where
  | text (action : StringAction)
  | box (shard quantum : Nat) (row : ScalarPrim) (lo hi : Int)
  | boxString (shard quantum : Nat) (operand : Int × List UInt8)
  | record (shard quantum : Nat) (slot : Slot)
  | write (i k : Nat) (value : Int)
  | newList (shard quantum : Nat)
  | listAdd (p fuel : Nat) (value : Int)
  | listSet (p fuel : Nat) (idx value : Int)
  | listRemoveAt (p : Nat) (idx : Int)
  | listClear (p : Nat)
  | listCopy (shard quantum p : Nat)
  | newDict (shard quantum : Nat)
  | dictSet (p fuel : Nat) (k v : Int)
  | dictRemove (p fuel : Nat) (k : Int)
  | dictClear (p : Nat)
  | dictKeys (shard quantum p : Nat)
  | dictCopy (shard quantum p : Nat)

def finished {α : Type} : Option (Except Fault α) → Option α
  | some (.ok a) => some a
  | _ => none

@[simp] theorem finished_eq_some {α : Type} {result : Option (Except Fault α)} {a : α} :
    finished result = some a ↔ result = some (.ok a) := by
  cases result with
  | none => simp [finished]
  | some result => cases result <;> simp [finished]

namespace ContainerProgram
variable (m : ContainerModule) (stringConstants : List (List UInt8)) (s : ContainerProgram)

def keyOf (fuel : Nat) (k : Int) : Option DictKey := s.heap.keyOf s.strings.heap fuel k

def IsKey (k : Int) (key : DictKey) : Prop := Vm.IsKey s.heap s.strings.heap k key

def isContainer (slot : Slot) : Bool :=
  slot.kind = .cls ∧ (int16Cast (slot.cells.getD 0 0) = (s.heap.table .list).classIdx ∨
    int16Cast (slot.cells.getD 0 0) = (s.heap.table .dict).classIdx)

def writable (i k : Nat) : Bool :=
  (s.heap.slot i).isFree = false ∧ (s.heap.slot i).kind ≠ .boxed ∧ ((s.heap.slot i).kind = .cls → k ≠ 0) ∧
    (s.isContainer (s.heap.slot i) → k ≠ kListHandleFieldOffset)

def newObject (shard quantum classIdx : Nat) (ctor : Heap → Int → Except Fault Heap) : Option (Nat × Heap) := do
  let (i, heap) ← s.heap.allocClassOnHeap m.tables shard quantum classIdx
  let heap ← (ctor heap i).toOption
  return (i, heap)

def step : ContainerAction → Option ContainerProgram
  | .text (.collect _) => none
  | .text action => (s.strings.step stringConstants action).map fun strings => { s with strings }
  | .box shard quantum row lo hi =>
    (s.heap.allocBoxedValue shard quantum row.rtkCode lo hi).map fun (_, heap) => { s with heap }
  | .boxString shard quantum operand =>
    if s.strings.isOperand operand then
      (s.heap.allocBoxedValue shard quantum Heap.rtkStringCode operand.1 0).map fun (_, heap) => { s with heap }
    else none
  | .record shard quantum slot =>
    if slot.isFree = false ∧ slot.kind ≠ .boxed ∧ s.isContainer slot = false then
      (s.heap.newRecord shard quantum slot).map fun (_, heap) => { s with heap }
    else none
  | .write i k value => if s.writable i k then some { s with heap := s.heap.storeCell i k value } else none
  | .newList shard quantum => do
      let (i, heap) ← s.newObject m shard quantum m.listClassIdx Heap.listCtor
      return { s with heap, lists := s.lists ++ [(i, [])] }
  | .listAdd p fuel value => do
      let (i, elements) ← s.lists[p]?
      let _ ← s.keyOf fuel value
      let heap ← (s.heap.listAdd i value).toOption
      return { s with heap, lists := s.lists.set p (i, elements ++ [value]) }
  | .listSet p fuel idx value => do
      let (i, elements) ← s.lists[p]?
      let _ ← s.keyOf fuel value
      let heap ← (s.heap.listSet m.exceptions i idx value).toOption
      return { s with heap, lists := s.lists.set p (i, elements.set idx.toNat value) }
  | .listRemoveAt p idx => do
      let (i, elements) ← s.lists[p]?
      let heap ← (s.heap.listRemoveAt m.exceptions i idx).toOption
      return { s with heap, lists := s.lists.set p (i, elements.eraseIdx idx.toNat) }
  | .listClear p => do
      let (i, _) ← s.lists[p]?
      let heap ← (s.heap.listClear i).toOption
      return { s with heap, lists := s.lists.set p (i, []) }
  | .listCopy shard quantum p => do
      let (i, elements) ← s.lists[p]?
      let (j, heap) ← finished (s.heap.listCopy i m.tables shard quantum)
      return { s with heap, lists := s.lists ++ [(j, elements)] }
  | .newDict shard quantum => do
      let (i, heap) ← s.newObject m shard quantum m.dictClassIdx Heap.dictCtor
      return { s with heap, dicts := s.dicts ++ [(i, [])] }
  | .dictSet p fuel k v => do
      let (i, history) ← s.dicts[p]?
      let key ← s.keyOf fuel k
      let heap ← finished (s.heap.dictSet s.strings.heap fuel i k v)
      return { s with heap, dicts := s.dicts.set p (i, .set key v :: history) }
  | .dictRemove p fuel k => do
      let (i, history) ← s.dicts[p]?
      let key ← s.keyOf fuel k
      let (_, heap) ← finished (s.heap.dictRemove s.strings.heap fuel i k)
      return { s with heap, dicts := s.dicts.set p (i, .remove key :: history) }
  | .dictClear p => do
      let (i, history) ← s.dicts[p]?
      let heap ← (s.heap.dictClear i).toOption
      return { s with heap, dicts := s.dicts.set p (i, .clear :: history) }
  | .dictKeys shard quantum p => do
      let (i, _) ← s.dicts[p]?
      let (j, heap) ← finished (s.heap.dictKeys i m.tables shard quantum)
      return { s with heap, lists := s.lists ++ [(j, heap.sideSlot .list (heap.cell j kListHandleFieldOffset))] }
  | .dictCopy shard quantum p => do
      let (i, history) ← s.dicts[p]?
      let (j, heap) ← finished (s.heap.dictCopy i m.tables shard quantum)
      return { s with heap, dicts := s.dicts ++ [(j, history)] }

theorem step_text {action : StringAction} (kept : ∀ others, action ≠ .collect others) :
    s.step m stringConstants (.text action) =
      (s.strings.step stringConstants action).map fun strings => { s with strings } := by
  cases action with
  | collect others => exact absurd rfl (kept others)
  | _ => rfl

end ContainerProgram

structure Carries (h : Heap) (strings : StringHeap) (h' : Heap) (strings' : StringHeap) : Prop where
  keys : ∀ k key, IsKey h strings k key → IsKey h' strings' k key
  slots : ∀ kind, kind = .list ∨ kind = .dict → ∀ i contents,
    Heap.Tracks h kind i contents → Heap.Tracks h' kind i contents

section Carries
variable {h h' : Heap} {strings strings' : StringHeap}

theorem carries_of_records (size : h.size ≤ h'.size)
    (kept : ∀ i < h.size, (h.slot i).isFree = false → (h'.slot i).kind = (h.slot i).kind ∧
      ((h.slot i).kind = .boxed → h'.slot i = h.slot i))
    (texts : ∀ c content, strings.Operand c → strings.Content c content →
      strings'.Operand c ∧ strings'.Content c content)
    (slots : ∀ kind, kind = .list ∨ kind = .dict → ∀ i contents,
      Heap.Tracks h kind i contents → Heap.Tracks h' kind i contents) : Carries h strings h' strings' where
  slots := slots
  keys := by
    have live : ∀ k, h.inRange k = true → h.refKind k ≠ .int32 →
        h'.inRange k = true ∧ h'.refKind k = h.refKind k ∧ (h.refKind k = .boxed → h'.slot k.toNat = h.slot k.toNat) := by
      intro k inside notFree
      simp only [Heap.inRange, decide_eq_true_eq] at inside ⊢
      obtain ⟨kind, boxed⟩ := kept k.toNat inside.2 (by simpa [Slot.isFree, Heap.refKind] using notFree)
      exact ⟨⟨inside.1, Nat.lt_of_lt_of_le inside.2 size⟩, kind, boxed⟩
    have box : ∀ k, h.isBoxedRef k = true → h'.isBoxedRef k = true ∧ h'.slot k.toNat = h.slot k.toNat := by
      intro k isBoxed
      obtain ⟨inside, kind⟩ := Bool.and_eq_true_iff.mp isBoxed
      have isBoxed : h.refKind k = .boxed := of_decide_eq_true kind
      obtain ⟨inside', kind', same⟩ := live k inside (by rw [isBoxed]; exact fun no => by cases no)
      exact ⟨by simp [Heap.isBoxedRef, inside', kind', isBoxed], same isBoxed⟩
    intro k key isKey
    cases isKey with
    | null => exact .null
    | boxed boxed =>
      cases boxed with
      | scalar isBoxed cells =>
        obtain ⟨isBoxed', same⟩ := box k isBoxed
        exact .boxed (.scalar isBoxed' (same ▸ cells))
      | string isBoxed cells operand reads =>
        obtain ⟨isBoxed', same⟩ := box k isBoxed
        obtain ⟨operand', reads'⟩ := texts _ _ operand reads
        exact .boxed (.string isBoxed' (same ▸ cells) operand' reads')
    | ref inside children notBoxed =>
      have notFree : h.refKind k ≠ .int32 := by
        intro free
        rw [free] at children
        cases children
      obtain ⟨inside', kind', -⟩ := live k inside notFree
      exact .ref inside' (kind' ▸ children) (kind' ▸ notBoxed)

theorem carries_of_keeps (keeps : Heap.Keeps h h') (slots : Heap.KeepsSlots h h') : Carries h strings h' strings :=
  carries_of_records keeps.size
    (fun i inside live => by rw [keeps.slot i inside live]; exact ⟨rfl, fun _ => rfl⟩)
    (fun _ _ operand reads => ⟨operand, reads⟩) fun _ _ _ _ tracks => slots.tracks tracks

theorem Carries.forall₂_keys {elements : List Int} {keys : List DictKey} (carries : Carries h strings h' strings')
    (areElements : List.Forall₂ (IsKey h strings) elements keys) : List.Forall₂ (IsKey h' strings') elements keys :=
  areElements.imp carries.keys

theorem Carries.forall₂_entries {entries : List (Int × Int)} {rows : List (DictKey × Int)}
    (carries : Carries h strings h' strings') (areEntries : List.Forall₂ (EntryOf h strings) entries rows) :
    List.Forall₂ (EntryOf h' strings') entries rows :=
  areEntries.imp fun _ _ entry => ⟨carries.keys _ _ entry.1, entry.2⟩

end Carries

structure HeapSound (m : ContainerModule) (stringConstants : List (List UInt8)) (h : Heap) (strings : StringProgram) :
    Prop where
  free : Heap.FreeListSound h []
  strings : StringProgram.Holds stringConstants strings
  listClass : (h.table .list).classIdx = m.listClassIdx
  dictClass : (h.table .dict).classIdx = m.dictClassIdx
  listHandles : Heap.Handles h .list
  dictHandles : Heap.Handles h .dict

structure IsList (h : Heap) (strings : StringHeap) (entry : Nat × List Int) : Prop where
  tracks : Heap.Tracks h .list entry.1 entry.2
  keys : ∃ keys, List.Forall₂ (IsKey h strings) entry.2 keys

def IsDict (h : Heap) (strings : StringHeap) (entry : Nat × List (MapEvent DictKey Int)) : Prop :=
  ∃ entries rows, Heap.Tracks h .dict entry.1 (unpairs entries) ∧
    List.Forall₂ (EntryOf h strings) entries rows ∧ Records rows entry.2

section Carried
variable {h h' : Heap} {strings strings' : StringHeap} (carries : Carries h strings h' strings')
include carries

theorem IsList.carried {entry : Nat × List Int} (isList : IsList h strings entry) : IsList h' strings' entry where
  tracks := carries.slots .list (.inl rfl) _ _ isList.tracks
  keys := by
    obtain ⟨keys, areElements⟩ := isList.keys
    exact ⟨keys, carries.forall₂_keys areElements⟩

theorem IsDict.carried {entry : Nat × List (MapEvent DictKey Int)} (isDict : IsDict h strings entry) :
    IsDict h' strings' entry := by
  obtain ⟨entries, rows, tracks, areEntries, records⟩ := isDict
  exact ⟨entries, rows, carries.slots .dict (.inr rfl) _ _ tracks, carries.forall₂_entries areEntries, records⟩

end Carried

section Sound
variable {m : ContainerModule} {stringConstants : List (List UInt8)} {h h' : Heap} {strings : StringProgram}
variable (sound : HeapSound m stringConstants h strings)
include sound

theorem HeapSound.newList {i : Nat} {contents : List Int} (new : Heap.NewContainer h h' .list i contents) :
    HeapSound m stringConstants h' strings where
  free := new.keeps.sound
  strings := sound.strings
  listClass := (new.classIdx .list).trans sound.listClass
  dictClass := (new.classIdx .dict).trans sound.dictClass
  listHandles := new.handles
  dictHandles := by
    refine new.others .dict ?_ sound.dictHandles
    rw [sound.listClass, sound.dictClass]
    exact fun same => m.apart (Int.ofNat.inj same).symm

theorem HeapSound.newDict {i : Nat} {contents : List Int} (new : Heap.NewContainer h h' .dict i contents) :
    HeapSound m stringConstants h' strings where
  free := new.keeps.sound
  strings := sound.strings
  listClass := (new.classIdx .list).trans sound.listClass
  dictClass := (new.classIdx .dict).trans sound.dictClass
  listHandles := by
    refine new.others .list ?_ sound.listHandles
    rw [sound.listClass, sound.dictClass]
    exact fun same => m.apart (Int.ofNat.inj same)
  dictHandles := new.handles

theorem HeapSound.setSideSlot (kind : SideKind) (handle : Int) (contents : List Int) :
    HeapSound m stringConstants (h.setSideSlot kind handle contents) strings where
  free := ⟨sound.free.configured, sound.free.sentinel, sound.free.nodup, sound.free.listed⟩
  strings := sound.strings
  listClass := by
    rw [Heap.setSideSlot_classIdx]
    exact sound.listClass
  dictClass := by
    rw [Heap.setSideSlot_classIdx]
    exact sound.dictClass
  listHandles := sound.listHandles.setSideSlot
  dictHandles := sound.dictHandles.setSideSlot

theorem HeapSound.records (free : Heap.FreeListSound h' []) (table : h'.table = h.table)
    (owners : ∀ kind, kind = .list ∨ kind = .dict → ∀ i handle, Heap.Owner h' kind i handle → Heap.Owner h kind i handle) :
    HeapSound m stringConstants h' strings where
  free := free
  strings := sound.strings
  listClass := by
    rw [table]
    exact sound.listClass
  dictClass := by
    rw [table]
    exact sound.dictClass
  listHandles := sound.listHandles.frame (by rw [table]) (owners .list (.inl rfl))
  dictHandles := sound.dictHandles.frame (by rw [table]) (owners .dict (.inr rfl))

end Sound

theorem isKey_setSideSlot {h : Heap} {strings : StringHeap} {kind : SideKind} {handle k : Int} {contents : List Int}
    {key : DictKey} (isKey : IsKey h strings k key) : IsKey (h.setSideSlot kind handle contents) strings k key := by
  cases isKey with
  | null => exact .null
  | boxed boxed =>
    cases boxed with
    | scalar isBoxed cells => exact .boxed (.scalar isBoxed cells)
    | string isBoxed cells operand reads => exact .boxed (.string isBoxed cells operand reads)
  | ref inside children notBoxed => exact .ref inside children notBoxed

section Update
variable {h : Heap} {strings : StringHeap} {kind : SideKind} {i : Nat} {handle : Int} {contents : List Int}
variable (handles : Heap.Handles h kind) (owner : Heap.Owner h kind i handle)
include handles owner

theorem IsList.setSideSlot {entry : Nat × List Int} (isList : IsList h strings entry)
    (apart : .list ≠ kind ∨ entry.1 ≠ i) : IsList (h.setSideSlot kind handle contents) strings entry where
  tracks := isList.tracks.setSideSlot_of_ne handles owner apart
  keys := by
    obtain ⟨keys, areElements⟩ := isList.keys
    exact ⟨keys, areElements.imp fun _ _ => isKey_setSideSlot⟩

theorem IsDict.setSideSlot {entry : Nat × List (MapEvent DictKey Int)} (isDict : IsDict h strings entry)
    (apart : .dict ≠ kind ∨ entry.1 ≠ i) : IsDict (h.setSideSlot kind handle contents) strings entry := by
  obtain ⟨entries, rows, tracks, areEntries, records⟩ := isDict
  refine ⟨entries, rows, tracks.setSideSlot_of_ne handles owner apart, ?_, records⟩
  exact areEntries.imp fun _ _ entry => ⟨isKey_setSideSlot entry.1, entry.2⟩

end Update

section Positions
variable {α β : Type} {l : List (Nat × α)} {p i : Nat} {a b : α}

theorem map_fst_set (found : l[p]? = some (i, a)) : (l.set p (i, b)).map Prod.fst = l.map Prod.fst := by
  apply List.ext_getElem?
  intro q
  rw [List.map_set]
  by_cases same : p = q
  · subst same
    have inside : p < (l.map Prod.fst).length := by
      rw [List.length_map]
      exact (List.getElem?_eq_some_iff.mp found).1
    rw [List.getElem?_set_self inside, List.getElem?_map, found, Option.map_some]
  · rw [List.getElem?_set_ne same]

theorem mem_set_of_nodup {entry : Nat × α} (nodup : (l.map Prod.fst).Nodup) (found : l[p]? = some (i, a))
    (member : entry ∈ l.set p (i, b)) : entry = (i, b) ∨ (entry ∈ l ∧ entry.1 ≠ i) := by
  obtain ⟨q, at_q⟩ := List.mem_iff_getElem?.mp member
  rw [List.getElem?_set] at at_q
  split at at_q
  · split at at_q
    · exact .inl (Option.some.inj at_q).symm
    · cases at_q
  · rename_i apart
    refine .inr ⟨List.mem_of_getElem? at_q, fun same => apart ?_⟩
    have inside : p < (l.map Prod.fst).length := by
      rw [List.length_map]
      exact (List.getElem?_eq_some_iff.mp found).1
    apply (List.getElem?_inj inside nodup).mp
    rw [List.getElem?_map, List.getElem?_map, found, at_q, Option.map_some, Option.map_some, same]

theorem exists_forall₂ {r : α → β → Prop} {as : List α} :
    (∃ bs, List.Forall₂ r as bs) ↔ ∀ a ∈ as, ∃ b, r a b := by
  constructor
  · rintro ⟨bs, related⟩
    induction related with
    | nil => exact fun _ none => nomatch none
    | cons first _ ih =>
      intro a member
      rcases List.mem_cons.mp member with rfl | later
      · exact ⟨_, first⟩
      · exact ih a later
  · intro each
    induction as with
    | nil => exact ⟨[], .nil⟩
    | cons a as ih =>
      obtain ⟨b, first⟩ := each a List.mem_cons_self
      obtain ⟨bs, rest⟩ := ih fun x member => each x (List.mem_cons_of_mem _ member)
      exact ⟨b :: bs, .cons first rest⟩

end Positions

namespace ContainerProgram

structure Holds (m : ContainerModule) (stringConstants : List (List UInt8)) (s : ContainerProgram) : Prop where
  sound : HeapSound m stringConstants s.heap s.strings
  lists : ∀ entry ∈ s.lists, IsList s.heap s.strings.heap entry
  dicts : ∀ entry ∈ s.dicts, IsDict s.heap s.strings.heap entry
  distinctLists : (s.lists.map Prod.fst).Nodup
  distinctDicts : (s.dicts.map Prod.fst).Nodup

theorem ne_classIdx_of_ordinary {s : ContainerProgram} {slot : Slot} {kind : SideKind}
    (ordinary : s.isContainer slot = false) (isClass : slot.kind = .cls) (isKind : kind = .list ∨ kind = .dict) :
    int16Cast (slot.cells.getD 0 0) ≠ (s.heap.table kind).classIdx := by
  intro same
  rw [ContainerProgram.isContainer, decide_eq_false_iff_not] at ordinary
  apply ordinary
  rcases isKind with rfl | rfl
  · exact ⟨isClass, .inl same⟩
  · exact ⟨isClass, .inr same⟩

section Holds
variable {m : ContainerModule} {stringConstants : List (List UInt8)} {s : ContainerProgram}
variable (holds : Holds m stringConstants s)
include holds

theorem Holds.carried {heap : Heap} {strings : StringProgram} (sound : HeapSound m stringConstants heap strings)
    (carries : Carries s.heap s.strings.heap heap strings.heap) :
    Holds m stringConstants { s with heap, strings } where
  sound := sound
  lists entry member := (holds.lists entry member).carried carries
  dicts entry member := (holds.dicts entry member).carried carries
  distinctLists := holds.distinctLists
  distinctDicts := holds.distinctDicts

theorem Holds.newRecord {shard quantum i : Nat} {slot : Slot} {heap : Heap} (live : slot.isFree = false)
    (ordinary : s.isContainer slot = false) (made : s.heap.newRecord shard quantum slot = some (i, heap)) :
    Holds m stringConstants { s with heap } := by
  obtain ⟨keeps, fresh, stored⟩ := Heap.newRecord_keeps holds.sound.free live made
  have table := Heap.newRecord_table made
  refine holds.carried (holds.sound.records keeps.sound table ?_) (carries_of_keeps keeps (keeps.keepsSlots table))
  intro kind isKind j handle owner
  apply Heap.newRecord_owner made owner
  rintro rfl
  have isClass : slot.kind = .cls := stored ▸ owner.isClass
  have ofClass := owner.ofClass
  rw [Heap.cell, stored, table] at ofClass
  exact ne_classIdx_of_ordinary ordinary isClass isKind ofClass

theorem Holds.allocBoxedValue {shard quantum i : Nat} {tag lo hi : Int} {heap : Heap}
    (made : s.heap.allocBoxedValue shard quantum tag lo hi = some (i, heap)) :
    Holds m stringConstants { s with heap } :=
  holds.newRecord rfl (by simp [ContainerProgram.isContainer]) made

theorem Holds.write {i k : Nat} {value : Int} (writable : s.writable i k = true) :
    Holds m stringConstants { s with heap := s.heap.storeCell i k value } := by
  simp only [ContainerProgram.writable, decide_eq_true_eq] at writable
  obtain ⟨-, notBoxed, notClassCell, notHandle⟩ := writable
  have kinds : ∀ j, ((s.heap.storeCell i k value).slot j).kind = (s.heap.slot j).kind := by
    intro j
    by_cases same : j = i
    · rw [same, Heap.storeCell, Heap.setSlot_slot_self]
    · rw [Heap.storeCell, Heap.setSlot_slot_of_ne _ _ _ _ same]
  have others : ∀ j c, j ≠ i ∨ c ≠ k → (s.heap.storeCell i k value).cell j c = s.heap.cell j c := by
    intro j c apart
    rw [Heap.cell, Heap.cell, Heap.storeCell]
    by_cases same : j = i
    · have apartCells : k ≠ c := fun equal => apart.elim (fun ne => ne same) fun ne => ne equal.symm
      rw [same, Heap.setSlot_slot_self, List.getD_eq_getElem?_getD, List.getElem?_set_ne apartCells,
        ← List.getD_eq_getElem?_getD]
    · rw [Heap.setSlot_slot_of_ne _ _ _ _ same]
  -- the class cell of an object is not written, so the objects of a container class are the same ones
  have ofClass : ∀ j, (s.heap.slot j).kind = .cls → (s.heap.storeCell i k value).cell j 0 = s.heap.cell j 0 := by
    intro j isClass
    apply others
    by_cases same : j = i
    · exact .inr (notClassCell (same ▸ isClass)).symm
    · exact .inl same
  have field : ∀ kind, kind = .list ∨ kind = .dict → ∀ j, (s.heap.slot j).kind = .cls →
      int16Cast (s.heap.cell j 0) = (s.heap.table kind).classIdx →
      (s.heap.storeCell i k value).cell j kListHandleFieldOffset = s.heap.cell j kListHandleFieldOffset := by
    intro kind isKind j isClass isContainer
    apply others
    by_cases same : j = i
    · subst same
      refine .inr (notHandle ?_).symm
      by_contra ordinary
      exact ne_classIdx_of_ordinary (Bool.not_eq_true _ ▸ ordinary) isClass isKind isContainer
    · exact .inl same
  have owners : ∀ kind, kind = .list ∨ kind = .dict → ∀ j handle,
      Heap.Owner (s.heap.storeCell i k value) kind j handle → Heap.Owner s.heap kind j handle := by
    intro kind isKind j handle owner
    have isClass : (s.heap.slot j).kind = .cls := kinds j ▸ owner.isClass
    have isContainer : int16Cast (s.heap.cell j 0) = (s.heap.table kind).classIdx := ofClass j isClass ▸ owner.ofClass
    have same := field kind isKind j isClass isContainer
    exact ⟨owner.positive, owner.inside, isClass, isContainer, same ▸ owner.field, owner.constructed⟩
  refine holds.carried (holds.sound.records (Heap.storeCell_sound holds.sound.free k value) rfl owners) ?_
  refine carries_of_records (Nat.le_refl _) ?_ (fun _ _ operand reads => ⟨operand, reads⟩) ?_
  · intro j inside live
    refine ⟨kinds j, fun isBoxed => ?_⟩
    have apart : j ≠ i := by
      rintro rfl
      exact notBoxed isBoxed
    rw [Heap.storeCell, Heap.setSlot_slot_of_ne _ _ _ _ apart]
  · rintro kind isKind j contents ⟨handle, owner, holdsContents⟩
    have same := field kind isKind j owner.isClass owner.ofClass
    have isContainer : int16Cast ((s.heap.storeCell i k value).cell j 0) = (s.heap.table kind).classIdx := by
      rw [ofClass j owner.isClass]
      exact owner.ofClass
    exact ⟨handle, ⟨owner.positive, owner.inside, (kinds j).trans owner.isClass, isContainer, same.trans owner.field,
      owner.constructed⟩, holdsContents⟩

theorem Holds.newList {j : Nat} {heap : Heap} {contents : List Int}
    (new : Heap.NewContainer s.heap heap .list j contents)
    (keys : ∃ keys, List.Forall₂ (Vm.IsKey s.heap s.strings.heap) contents keys) :
    Holds m stringConstants { s with heap, lists := s.lists ++ [(j, contents)] } := by
  have carries : Carries s.heap s.strings.heap heap s.strings.heap := carries_of_keeps new.keeps new.slots
  have carried := holds.carried (holds.sound.newList new) carries
  refine ⟨carried.sound, ?_, carried.dicts, ?_, carried.distinctDicts⟩
  · intro entry member
    rcases List.mem_append.mp member with old | isNew
    · exact carried.lists entry old
    · rw [List.mem_singleton.mp isNew]
      obtain ⟨keys, areElements⟩ := keys
      exact ⟨new.tracks, keys, carries.forall₂_keys areElements⟩
  · rw [List.map_append, List.map_singleton, ← List.concat_eq_append]
    refine holds.distinctLists.concat fun member => ?_
    obtain ⟨entry, listed, rfl⟩ := List.mem_map.mp member
    obtain ⟨handle, owner, -⟩ := (holds.lists entry listed).tracks
    exact new.fresh.ne owner.inside owner.live rfl

theorem Holds.newDict {j : Nat} {heap : Heap} {entries : List (Int × Int)} {rows : List (DictKey × Int)}
    {history : List (MapEvent DictKey Int)} (new : Heap.NewContainer s.heap heap .dict j (unpairs entries))
    (areEntries : List.Forall₂ (EntryOf s.heap s.strings.heap) entries rows) (records : Records rows history) :
    Holds m stringConstants { s with heap, dicts := s.dicts ++ [(j, history)] } := by
  have carries : Carries s.heap s.strings.heap heap s.strings.heap := carries_of_keeps new.keeps new.slots
  have carried := holds.carried (holds.sound.newDict new) carries
  refine ⟨carried.sound, carried.lists, ?_, carried.distinctLists, ?_⟩
  · intro entry member
    rcases List.mem_append.mp member with old | isNew
    · exact carried.dicts entry old
    · rw [List.mem_singleton.mp isNew]
      exact ⟨entries, rows, new.tracks, carries.forall₂_entries areEntries, records⟩
  · rw [List.map_append, List.map_singleton, ← List.concat_eq_append]
    refine holds.distinctDicts.concat fun member => ?_
    obtain ⟨entry, listed, rfl⟩ := List.mem_map.mp member
    obtain ⟨entries, rows, ⟨handle, owner, -⟩, -, -⟩ := holds.dicts entry listed
    exact new.fresh.ne owner.inside owner.live rfl

theorem Holds.setList {p i : Nat} {handle : Int} {elements contents : List Int}
    (found : s.lists[p]? = some (i, elements)) (owner : Heap.Owner s.heap .list i handle)
    (keys : ∃ keys, List.Forall₂ (Vm.IsKey s.heap s.strings.heap) contents keys) :
    Holds m stringConstants
      { s with heap := s.heap.setSideSlot .list handle contents, lists := s.lists.set p (i, contents) } where
  sound := holds.sound.setSideSlot .list handle contents
  lists := by
    intro entry member
    rcases mem_set_of_nodup holds.distinctLists found member with rfl | ⟨old, apart⟩
    · obtain ⟨keys, areElements⟩ := keys
      exact ⟨owner.setSideSlot_self holds.sound.listHandles, keys, areElements.imp fun _ _ => isKey_setSideSlot⟩
    · exact (holds.lists entry old).setSideSlot holds.sound.listHandles owner (.inr apart)
  dicts entry member :=
    (holds.dicts entry member).setSideSlot holds.sound.listHandles owner (.inl fun same => nomatch same)
  distinctLists := by
    rw [map_fst_set found]
    exact holds.distinctLists
  distinctDicts := holds.distinctDicts

theorem Holds.setDict {p i : Nat} {handle : Int} {history history' : List (MapEvent DictKey Int)}
    {entries : List (Int × Int)} {rows : List (DictKey × Int)} (found : s.dicts[p]? = some (i, history))
    (owner : Heap.Owner s.heap .dict i handle)
    (areEntries : List.Forall₂ (EntryOf s.heap s.strings.heap) entries rows) (records : Records rows history') :
    Holds m stringConstants
      { s with heap := s.heap.setDictEntries handle entries, dicts := s.dicts.set p (i, history') } where
  sound := holds.sound.setSideSlot .dict handle (unpairs entries)
  lists entry member :=
    (holds.lists entry member).setSideSlot holds.sound.dictHandles owner (.inl fun same => nomatch same)
  dicts := by
    intro entry member
    rcases mem_set_of_nodup holds.distinctDicts found member with rfl | ⟨old, apart⟩
    · refine ⟨entries, rows, owner.setSideSlot_self holds.sound.dictHandles, ?_, records⟩
      exact areEntries.imp fun _ _ entry => ⟨isKey_setSideSlot entry.1, entry.2⟩
    · exact (holds.dicts entry old).setSideSlot holds.sound.dictHandles owner (.inr apart)
  distinctLists := holds.distinctLists
  distinctDicts := by
    rw [map_fst_set found]
    exact holds.distinctDicts

theorem Holds.isKey {fuel : Nat} {k : Int} {key : DictKey} (isKey : s.keyOf fuel k = some key) : s.IsKey k key :=
  Heap.isKey_of_keyOf holds.sound.strings.formed isKey

theorem Holds.list_at {p i : Nat} {elements : List Int} (found : s.lists[p]? = some (i, elements)) :
    ∃ handle, Heap.Owner s.heap .list i handle ∧ s.heap.sideSlot .list handle = elements ∧
      ∃ keys, List.Forall₂ (Vm.IsKey s.heap s.strings.heap) elements keys := by
  have isList := holds.lists _ (List.mem_of_getElem? found)
  obtain ⟨handle, owner, slot⟩ := isList.tracks
  exact ⟨handle, owner, slot, isList.keys⟩

theorem Holds.dict_at {p i : Nat} {history : List (MapEvent DictKey Int)} (found : s.dicts[p]? = some (i, history)) :
    ∃ handle entries rows, Heap.Owner s.heap .dict i handle ∧ s.heap.sideSlot .dict handle = unpairs entries ∧
      List.Forall₂ (EntryOf s.heap s.strings.heap) entries rows ∧ Records rows history := by
  obtain ⟨entries, rows, ⟨handle, owner, slot⟩, areEntries, records⟩ := holds.dicts _ (List.mem_of_getElem? found)
  exact ⟨handle, entries, rows, owner, slot, areEntries, records⟩

theorem Holds.newObject_list {shard quantum i : Nat} {heap : Heap}
    (made : s.newObject m shard quantum m.listClassIdx Heap.listCtor = some (i, heap)) :
    Heap.NewContainer s.heap heap .list i [] := by
  obtain ⟨⟨j, g⟩, allocated, rest⟩ := Option.bind_eq_some_iff.mp made
  obtain ⟨g', built, same⟩ := Option.bind_eq_some_iff.mp rest
  cases same
  have object := Heap.allocClassOnHeap_new holds.sound.free m.list_fields allocated
  have built := except_toOption_eq_some.mp built
  exact object.containerCtor holds.sound.listHandles holds.sound.listClass m.list_small built

theorem Holds.newObject_dict {shard quantum i : Nat} {heap : Heap}
    (made : s.newObject m shard quantum m.dictClassIdx Heap.dictCtor = some (i, heap)) :
    Heap.NewContainer s.heap heap .dict i [] := by
  obtain ⟨⟨j, g⟩, allocated, rest⟩ := Option.bind_eq_some_iff.mp made
  obtain ⟨g', built, same⟩ := Option.bind_eq_some_iff.mp rest
  cases same
  have object := Heap.allocClassOnHeap_new holds.sound.free m.dict_fields allocated
  have built := except_toOption_eq_some.mp built
  exact object.containerCtor holds.sound.dictHandles holds.sound.dictClass m.dict_small built

theorem Holds.listCopy_new {shard quantum i j : Nat} {elements : List Int} {handle : Int} {heap : Heap}
    (owner : Heap.Owner s.heap .list i handle) (slot : s.heap.sideSlot .list handle = elements)
    (copied : finished (s.heap.listCopy i m.tables shard quantum) = some (j, heap)) :
    Heap.NewContainer s.heap heap .list j elements := by
  rw [finished_eq_some] at copied
  simp only [Heap.listCopy, Heap.readListHandle, owner.readHandle] at copied
  refine Heap.newContainer_made holds.sound.listHandles holds.sound.listClass m.list_small holds.sound.free
    m.list_fields ?_ copied
  intro g kept
  exact (kept _ _ _ owner).2.trans slot

theorem Holds.dictKeys_new {shard quantum i j : Nat} {entries : List (Int × Int)} {handle : Int} {heap : Heap}
    (owner : Heap.Owner s.heap .dict i handle) (slot : s.heap.sideSlot .dict handle = unpairs entries)
    (listed : finished (s.heap.dictKeys i m.tables shard quantum) = some (j, heap)) :
    Heap.NewContainer s.heap heap .list j (entries.map Prod.fst) := by
  rw [finished_eq_some] at listed
  simp only [Heap.dictKeys, Heap.readDictHandle, owner.readHandle] at listed
  refine Heap.newContainer_made holds.sound.listHandles holds.sound.listClass m.list_small holds.sound.free
    m.list_fields ?_ listed
  intro g kept
  rw [Heap.dictEntries, (kept _ _ _ owner).2, slot, pairs_unpairs]

theorem Holds.dictCopy_new {shard quantum i j : Nat} {entries : List (Int × Int)} {handle : Int} {heap : Heap}
    (owner : Heap.Owner s.heap .dict i handle) (slot : s.heap.sideSlot .dict handle = unpairs entries)
    (copied : finished (s.heap.dictCopy i m.tables shard quantum) = some (j, heap)) :
    Heap.NewContainer s.heap heap .dict j (unpairs entries) := by
  rw [finished_eq_some] at copied
  simp only [Heap.dictCopy, Heap.readDictHandle, owner.readHandle] at copied
  refine Heap.newContainer_made holds.sound.dictHandles holds.sound.dictClass m.dict_small holds.sound.free
    m.dict_fields ?_ copied
  intro g kept
  exact (kept _ _ _ owner).2.trans slot

theorem Holds.text {action : StringAction} {strings : StringProgram}
    (kept : ∀ others, action ≠ .collect others) (taken : s.strings.step stringConstants action = some strings) :
    Holds m stringConstants { s with strings } := by
  have sound := holds.sound
  refine holds.carried
    ⟨sound.free, sound.strings.step taken, sound.listClass, sound.dictClass, sound.listHandles, sound.dictHandles⟩ ?_
  refine carries_of_records (Nat.le_refl _) (fun _ _ _ => ⟨rfl, fun _ => rfl⟩) ?_ fun _ _ _ _ tracks => tracks
  intro c content operand reads
  have preserved := sound.strings.operand_preserved taken kept operand
  exact ⟨preserved.operand, preserved.content content reads⟩

theorem Holds.step {action : ContainerAction} {s' : ContainerProgram}
    (taken : s.step m stringConstants action = some s') : Holds m stringConstants s' := by
  cases action with
  | text action =>
    by_cases isCollect : ∃ others, action = .collect others
    · obtain ⟨others, rfl⟩ := isCollect
      cases taken
    · rw [not_exists] at isCollect
      rw [step_text m stringConstants s isCollect] at taken
      obtain ⟨strings, took, rfl⟩ := Option.map_eq_some_iff.mp taken
      exact holds.text isCollect took
  | box shard quantum row lo hi =>
    obtain ⟨⟨i, heap⟩, made, rfl⟩ := Option.map_eq_some_iff.mp taken
    exact holds.allocBoxedValue made
  | boxString shard quantum operand =>
    simp only [ContainerProgram.step] at taken
    split at taken
    · obtain ⟨⟨i, heap⟩, made, rfl⟩ := Option.map_eq_some_iff.mp taken
      exact holds.allocBoxedValue made
    · cases taken
  | record shard quantum slot =>
    simp only [ContainerProgram.step] at taken
    split at taken
    · rename_i ordinary
      obtain ⟨⟨i, heap⟩, made, rfl⟩ := Option.map_eq_some_iff.mp taken
      exact holds.newRecord ordinary.1 ordinary.2.2 made
    · cases taken
  | write i k value =>
    simp only [ContainerProgram.step] at taken
    split at taken
    · rename_i writable
      cases taken
      exact holds.write writable
    · cases taken
  | newList shard quantum =>
    obtain ⟨⟨i, heap⟩, made, same⟩ := Option.bind_eq_some_iff.mp taken
    cases same
    exact holds.newList (holds.newObject_list made) ⟨[], .nil⟩
  | listAdd p fuel value =>
    obtain ⟨⟨i, elements⟩, found, rest⟩ := Option.bind_eq_some_iff.mp taken
    obtain ⟨key, isKey, rest⟩ := Option.bind_eq_some_iff.mp rest
    obtain ⟨heap, added, same⟩ := Option.bind_eq_some_iff.mp rest
    cases same
    obtain ⟨handle, owner, slot, keys⟩ := holds.list_at found
    rw [except_toOption_eq_some, Heap.listAdd_eq owner slot] at added
    cases added
    refine holds.setList found owner (exists_forall₂.mpr fun elem member => ?_)
    rcases List.mem_append.mp member with old | last
    · exact exists_forall₂.mp keys elem old
    · rw [List.mem_singleton.mp last]
      exact ⟨key, holds.isKey isKey⟩
  | listSet p fuel idx value =>
    obtain ⟨⟨i, elements⟩, found, rest⟩ := Option.bind_eq_some_iff.mp taken
    obtain ⟨key, isKey, rest⟩ := Option.bind_eq_some_iff.mp rest
    obtain ⟨heap, written, same⟩ := Option.bind_eq_some_iff.mp rest
    cases same
    obtain ⟨handle, owner, slot, keys⟩ := holds.list_at found
    rw [except_toOption_eq_some, Heap.listSet_eq m.exceptions owner slot, except_map_ok] at written
    obtain ⟨-, -, rfl⟩ := written
    refine holds.setList found owner (exists_forall₂.mpr fun elem member => ?_)
    rcases List.mem_or_eq_of_mem_set member with old | rfl
    · exact exists_forall₂.mp keys elem old
    · exact ⟨key, holds.isKey isKey⟩
  | listRemoveAt p idx =>
    obtain ⟨⟨i, elements⟩, found, rest⟩ := Option.bind_eq_some_iff.mp taken
    obtain ⟨heap, removed, same⟩ := Option.bind_eq_some_iff.mp rest
    cases same
    obtain ⟨handle, owner, slot, keys⟩ := holds.list_at found
    rw [except_toOption_eq_some, Heap.listRemoveAt_eq m.exceptions owner slot, except_map_ok] at removed
    obtain ⟨-, -, rfl⟩ := removed
    refine holds.setList found owner (exists_forall₂.mpr fun elem member => ?_)
    exact exists_forall₂.mp keys elem (List.mem_of_mem_eraseIdx member)
  | listClear p =>
    obtain ⟨⟨i, elements⟩, found, rest⟩ := Option.bind_eq_some_iff.mp taken
    obtain ⟨heap, cleared, same⟩ := Option.bind_eq_some_iff.mp rest
    cases same
    obtain ⟨handle, owner, slot, keys⟩ := holds.list_at found
    rw [except_toOption_eq_some, Heap.listClear_eq owner] at cleared
    cases cleared
    exact holds.setList found owner ⟨[], .nil⟩
  | listCopy shard quantum p =>
    obtain ⟨⟨i, elements⟩, found, rest⟩ := Option.bind_eq_some_iff.mp taken
    obtain ⟨⟨j, heap⟩, copied, same⟩ := Option.bind_eq_some_iff.mp rest
    cases same
    obtain ⟨handle, owner, slot, keys⟩ := holds.list_at found
    exact holds.newList (holds.listCopy_new owner slot copied) keys
  | newDict shard quantum =>
    obtain ⟨⟨i, heap⟩, made, same⟩ := Option.bind_eq_some_iff.mp taken
    cases same
    have new : Heap.NewContainer s.heap heap .dict i (unpairs []) := holds.newObject_dict made
    exact holds.newDict new .nil records_nil
  | dictSet p fuel k v =>
    obtain ⟨⟨i, history⟩, found, rest⟩ := Option.bind_eq_some_iff.mp taken
    obtain ⟨key, isKey, rest⟩ := Option.bind_eq_some_iff.mp rest
    obtain ⟨heap, written, same⟩ := Option.bind_eq_some_iff.mp rest
    cases same
    obtain ⟨handle, entries, rows, owner, slot, areEntries, records⟩ := holds.dict_at found
    obtain ⟨entries', computes, areEntries'⟩ :=
      Heap.dictSet_computes owner slot areEntries (holds.isKey isKey) v
    cases computes.sound fuel _ (finished_eq_some.mp written)
    exact holds.setDict found owner areEntries' (records.set key v)
  | dictRemove p fuel k =>
    obtain ⟨⟨i, history⟩, found, rest⟩ := Option.bind_eq_some_iff.mp taken
    obtain ⟨key, isKey, rest⟩ := Option.bind_eq_some_iff.mp rest
    obtain ⟨⟨result, heap⟩, removed, same⟩ := Option.bind_eq_some_iff.mp rest
    cases same
    obtain ⟨handle, entries, rows, owner, slot, areEntries, records⟩ := holds.dict_at found
    obtain ⟨entries', computes, areEntries'⟩ :=
      Heap.dictRemove_computes owner slot areEntries (holds.isKey isKey)
    cases computes.sound fuel _ (finished_eq_some.mp removed)
    exact holds.setDict found owner areEntries' (records.remove key)
  | dictClear p =>
    obtain ⟨⟨i, history⟩, found, rest⟩ := Option.bind_eq_some_iff.mp taken
    obtain ⟨heap, cleared, same⟩ := Option.bind_eq_some_iff.mp rest
    cases same
    obtain ⟨handle, entries, rows, owner, slot, areEntries, records⟩ := holds.dict_at found
    rw [except_toOption_eq_some, Heap.dictClear_eq owner] at cleared
    cases cleared
    exact holds.setDict found owner .nil records_clear
  | dictKeys shard quantum p =>
    obtain ⟨⟨i, history⟩, found, rest⟩ := Option.bind_eq_some_iff.mp taken
    obtain ⟨⟨j, heap⟩, listed, same⟩ := Option.bind_eq_some_iff.mp rest
    cases same
    obtain ⟨handle, entries, rows, owner, slot, areEntries, records⟩ := holds.dict_at found
    have new := holds.dictKeys_new owner slot listed
    obtain ⟨handle', owner', contents⟩ := new.tracks
    rw [owner'.field, contents]
    refine holds.newList new (exists_forall₂.mpr fun k member => ?_)
    obtain ⟨entry, inside, rfl⟩ := List.mem_map.mp member
    obtain ⟨row, isEntry⟩ := exists_forall₂.mp ⟨rows, areEntries⟩ entry inside
    exact ⟨row.1, isEntry.1⟩
  | dictCopy shard quantum p =>
    obtain ⟨⟨i, history⟩, found, rest⟩ := Option.bind_eq_some_iff.mp taken
    obtain ⟨⟨j, heap⟩, copied, same⟩ := Option.bind_eq_some_iff.mp rest
    cases same
    obtain ⟨handle, entries, rows, owner, slot, areEntries, records⟩ := holds.dict_at found
    exact holds.newDict (holds.dictCopy_new owner slot copied) areEntries records

end Holds

end ContainerProgram

end NLang.Vm
