import NLang.Vm.Allocation
import NLang.Vm.Containers

/-!
# Handles of containers

No two objects share a slot of a side table, and a handle on a free list has no object, so an intrinsic changes the slot
of its own object and of no other.
-/

namespace NLang.Vm

structure ContainerModule where
  tables : TypeTables
  exceptions : ExceptionClasses
  listClassIdx : Nat
  dictClassIdx : Nat
  list_row : (tables.classes[listClassIdx]?).isSome
  dict_row : (tables.classes[dictClassIdx]?).isSome
  list_fields : tables.classFields listClassIdx = [{ kind := .int32 }]
  dict_fields : tables.classFields dictClassIdx = [{ kind := .int32 }]
  list_small : listClassIdx < 2 ^ 15
  dict_small : dictClassIdx < 2 ^ 15
  apart : listClassIdx ≠ dictClassIdx

namespace Heap

structure Owner (h : Heap) (kind : SideKind) (i : Nat) (handle : Int) : Prop where
  positive : 0 < i
  inside : i < h.size
  isClass : (h.slot i).kind = .cls
  ofClass : int16Cast (h.cell i 0) = (h.table kind).classIdx
  field : h.cell i kListHandleFieldOffset = handle
  constructed : 0 < handle

structure Handles (h : Heap) (kind : SideKind) : Prop where
  inside : ∀ i handle, Owner h kind i handle → handle.toNat ≤ (h.table kind).store.length
  unique : ∀ i j handle, Owner h kind i handle → Owner h kind j handle → i = j
  free : ∀ handle ∈ (h.table kind).freeList, 0 < handle ∧ handle.toNat ≤ (h.table kind).store.length ∧
    ∀ i, ¬ Owner h kind i handle
  nodup : (h.table kind).freeList.Nodup

def Tracks (h : Heap) (kind : SideKind) (i : Nat) (contents : List Int) : Prop :=
  ∃ handle, Owner h kind i handle ∧ h.sideSlot kind handle = contents

theorem Owner.live {h : Heap} {kind : SideKind} {i : Nat} {handle : Int} (owner : Owner h kind i handle) :
    (h.slot i).isFree = false := by
  simp [Slot.isFree, owner.isClass]

theorem Owner.readHandle {h : Heap} {kind : SideKind} {i : Nat} {handle : Int} (owner : Owner h kind i handle)
    (typeName methodName : String) : readHandle typeName methodName h i = .ok handle := by
  have positive := owner.positive
  have inside := owner.inside
  have constructed := owner.constructed
  unfold Heap.readHandle
  rw [if_neg (by omega), if_neg (by omega), Int.toNat_natCast, owner.field, if_neg (by omega)]

theorem setTable_table (h : Heap) (kind other : SideKind) (table : SideTable) :
    (h.setTable kind table).table other = if other = kind then table else h.table other := rfl

theorem setTable_owner {h : Heap} {kind other : SideKind} {i : Nat} {handle : Int} {table : SideTable}
    (classIdx : table.classIdx = (h.table kind).classIdx) :
    Owner (h.setTable kind table) other i handle ↔ Owner h other i handle := by
  have same : ((h.setTable kind table).table other).classIdx = (h.table other).classIdx := by
    rw [setTable_table]
    split
    · rename_i equal
      rw [equal, classIdx]
    · rfl
  constructor
  · rintro ⟨positive, inside, isClass, ofClass, field, constructed⟩
    exact ⟨positive, inside, isClass, ofClass.trans same, field, constructed⟩
  · rintro ⟨positive, inside, isClass, ofClass, field, constructed⟩
    exact ⟨positive, inside, isClass, ofClass.trans same.symm, field, constructed⟩

section Update
variable {h : Heap} {kind other : SideKind} {i j : Nat} {handle : Int} {contents : List Int}

@[simp] theorem setSideSlot_slot : (h.setSideSlot kind handle contents).slot = h.slot := rfl
@[simp] theorem setSideSlot_size : (h.setSideSlot kind handle contents).size = h.size := rfl

theorem setSideSlot_owner {handle' : Int} :
    Owner (h.setSideSlot kind handle contents) other i handle' ↔ Owner h other i handle' := setTable_owner rfl

theorem setSideSlot_classIdx :
    ((h.setSideSlot kind handle contents).table other).classIdx = (h.table other).classIdx := by
  rw [setSideSlot, setTable_table]
  split
  · rename_i equal
    rw [equal]
  · rfl

theorem setSideSlot_freeList :
    ((h.setSideSlot kind handle contents).table other).freeList = (h.table other).freeList := by
  rw [setSideSlot, setTable_table]
  split
  · rename_i equal
    rw [equal]
  · rfl

theorem setSideSlot_length :
    ((h.setSideSlot kind handle contents).table other).store.length = (h.table other).store.length := by
  rw [setSideSlot, setTable_table]
  split
  · rename_i equal
    rw [equal, List.length_set]
  · rfl

theorem Handles.setSideSlot (handles : Handles h other) : Handles (h.setSideSlot kind handle contents) other where
  inside i handle' owner := by
    rw [setSideSlot_length]
    exact handles.inside i handle' (setSideSlot_owner.mp owner)
  unique i j handle' first second :=
    handles.unique i j handle' (setSideSlot_owner.mp first) (setSideSlot_owner.mp second)
  free handle' listed := by
    rw [setSideSlot_freeList] at listed
    obtain ⟨positive, below, unowned⟩ := handles.free handle' listed
    rw [setSideSlot_length]
    exact ⟨positive, below, fun i owner => unowned i (setSideSlot_owner.mp owner)⟩
  nodup := by
    rw [setSideSlot_freeList]
    exact handles.nodup

theorem Owner.setSideSlot_self (handles : Handles h kind) (owner : Owner h kind i handle) :
    Tracks (h.setSideSlot kind handle contents) kind i contents := by
  refine ⟨handle, setSideSlot_owner.mpr owner, ?_⟩
  have below := handles.inside i handle owner
  have positive := owner.constructed
  unfold sideSlot Heap.setSideSlot setTable
  dsimp only
  rw [if_pos rfl, List.getD_eq_getElem?_getD, List.getElem?_set_self (by omega), Option.getD_some]

theorem Owner.sideSlot_setSideSlot {handle' : Int} (handles : Handles h kind) (owner : Owner h kind i handle)
    (owner' : Owner h other j handle') (apart : other ≠ kind ∨ j ≠ i) :
    (h.setSideSlot kind handle contents).sideSlot other handle' = h.sideSlot other handle' := by
  unfold sideSlot Heap.setSideSlot setTable
  dsimp only
  by_cases same : other = kind
  · subst same
    have handlesApart : handle ≠ handle' := by
      rintro rfl
      exact apart.elim (fun notSame => notSame rfl) fun ne => ne (handles.unique j i handle owner' owner)
    have positive := owner.constructed
    have positive' := owner'.constructed
    rw [if_pos rfl, List.getD_eq_getElem?_getD, List.getElem?_set_ne (by omega), ← List.getD_eq_getElem?_getD]
  · rw [if_neg same]

theorem Tracks.setSideSlot_of_ne {contents' : List Int} (handles : Handles h kind) (owner : Owner h kind i handle)
    (apart : other ≠ kind ∨ j ≠ i) (tracks : Tracks h other j contents') :
    Tracks (h.setSideSlot kind handle contents) other j contents' := by
  obtain ⟨handle', owner', rfl⟩ := tracks
  exact ⟨handle', setSideSlot_owner.mpr owner', owner.sideSlot_setSideSlot handles owner' apart⟩

end Update

def KeepsSlots (h h' : Heap) : Prop :=
  ∀ kind i handle, Owner h kind i handle → Owner h' kind i handle ∧ h'.sideSlot kind handle = h.sideSlot kind handle

section Frame
variable {h h' h'' : Heap} {kind : SideKind} {i : Nat} {contents : List Int}

theorem KeepsSlots.trans (first : KeepsSlots h h') (second : KeepsSlots h' h'') : KeepsSlots h h'' := by
  intro kind i handle owner
  obtain ⟨owner', same⟩ := first kind i handle owner
  obtain ⟨owner'', same'⟩ := second kind i handle owner'
  exact ⟨owner'', same'.trans same⟩

theorem KeepsSlots.tracks (keeps : KeepsSlots h h') (tracks : Tracks h kind i contents) : Tracks h' kind i contents := by
  obtain ⟨handle, owner, rfl⟩ := tracks
  obtain ⟨owner', same⟩ := keeps kind i handle owner
  exact ⟨handle, owner', same⟩

theorem keepsSlots_of_cells (table : h'.table = h.table) (size : h.size ≤ h'.size)
    (same : ∀ i < h.size, (h.slot i).kind = .cls → (h'.slot i).kind = .cls ∧ h'.cell i 0 = h.cell i 0 ∧
      ∀ kind handle, Owner h kind i handle → h'.cell i kListHandleFieldOffset = handle) : KeepsSlots h h' := by
  intro kind i handle owner
  obtain ⟨isClass, ofClass, field⟩ := same i owner.inside owner.isClass
  constructor
  · refine ⟨owner.positive, Nat.lt_of_lt_of_le owner.inside size, isClass, ?_, field kind handle owner, owner.constructed⟩
    rw [ofClass, table]
    exact owner.ofClass
  · rw [sideSlot, sideSlot, table]

theorem Keeps.keepsSlots (keeps : Keeps h h') (table : h'.table = h.table) : KeepsSlots h h' := by
  refine keepsSlots_of_cells table keeps.size fun i inside isClass => ?_
  have same := keeps.slot i inside (by simp [Slot.isFree, isClass])
  rw [cell, cell, same]
  exact ⟨isClass, rfl, fun kind handle owner => by rw [cell, same]; exact owner.field⟩

theorem Handles.frame (handles : Handles h kind) (table : h'.table kind = h.table kind)
    (owners : ∀ i handle, Owner h' kind i handle → Owner h kind i handle) : Handles h' kind where
  inside i handle owner := by
    rw [table]
    exact handles.inside i handle (owners i handle owner)
  unique i j handle first second := handles.unique i j handle (owners i handle first) (owners j handle second)
  free handle listed := by
    rw [table] at listed ⊢
    obtain ⟨positive, below, unowned⟩ := handles.free handle listed
    exact ⟨positive, below, fun i owner => unowned i (owners i handle owner)⟩
  nodup := by
    rw [table]
    exact handles.nodup

end Frame

structure NewHandle (h h' : Heap) (kind : SideKind) (handle : Int) : Prop where
  slot : h'.slot = h.slot
  size : h'.size = h.size
  shards : h'.shards = h.shards
  classIdx : ∀ other, (h'.table other).classIdx = (h.table other).classIdx
  others : ∀ other, other ≠ kind → h'.table other = h.table other
  positive : 0 < handle
  inside : handle.toNat ≤ (h'.table kind).store.length
  empty : h'.sideSlot kind handle = []
  unowned : ∀ i, ¬ Owner h kind i handle
  notFree : handle ∉ (h'.table kind).freeList
  handles : Handles h' kind
  slots : KeepsSlots h h'

section Alloc
variable {h : Heap} {kind : SideKind} (handles : Handles h kind)
include handles

theorem newHandle_of_table {table : SideTable} {handle : Int} (classIdx : table.classIdx = (h.table kind).classIdx)
    (positive : 0 < handle) (inside : handle.toNat ≤ table.store.length)
    (empty : table.store.getD (handle - 1).toNat [] = []) (unowned : ∀ i, ¬ Owner h kind i handle)
    (grows : (h.table kind).store.length ≤ table.store.length)
    (kept : ∀ i handle', Owner h kind i handle' →
      table.store.getD (handle' - 1).toNat [] = (h.table kind).store.getD (handle' - 1).toNat [])
    (fewer : table.freeList.Sublist (h.table kind).freeList) (notFree : handle ∉ table.freeList) :
    NewHandle h (h.setTable kind table) kind handle := by
  have new : (h.setTable kind table).table kind = table := if_pos rfl
  refine ⟨rfl, rfl, rfl, ?_, fun other apart => if_neg apart, positive, by rwa [new],
    by rwa [sideSlot, new], unowned, by rwa [new],
    ⟨?_, ?_, ?_, ?_⟩, ?_⟩
  · intro other
    rw [setTable_table]
    split
    · rename_i equal
      rw [equal, classIdx]
    · rfl
  · intro i handle' owner
    rw [new]
    exact Nat.le_trans (handles.inside i handle' ((setTable_owner classIdx).mp owner)) grows
  · intro i j handle' first second
    exact handles.unique i j handle' ((setTable_owner classIdx).mp first) ((setTable_owner classIdx).mp second)
  · intro handle' listed
    rw [new] at listed ⊢
    obtain ⟨positive', below, unowned'⟩ := handles.free handle' (fewer.subset listed)
    exact ⟨positive', Nat.le_trans below grows, fun i owner => unowned' i ((setTable_owner classIdx).mp owner)⟩
  · rw [new]
    exact handles.nodup.sublist fewer
  · intro other i handle' owner
    refine ⟨(setTable_owner classIdx).mpr owner, ?_⟩
    rw [sideSlot, sideSlot, setTable_table]
    split
    · rename_i equal
      subst equal
      exact kept i handle' owner
    · rfl

theorem allocHandle_new : NewHandle h (h.allocHandle kind).2 kind (h.allocHandle kind).1 := by
  unfold allocHandle
  cases free : (h.table kind).freeList with
  | nil =>
    dsimp only
    refine newHandle_of_table handles rfl (by omega) ?_ ?_ ?_ ?_ ?_ (.refl _) ?_
    · rw [List.length_append, List.length_singleton]
      omega
    · have last : ((h.table kind).store.length + 1 - 1 : Int).toNat = (h.table kind).store.length := by omega
      rw [last, List.getD_eq_getElem?_getD, List.getElem?_concat_length, Option.getD_some]
    · intro i owner
      have below := handles.inside i _ owner
      omega
    · rw [List.length_append]
      exact Nat.le_add_right _ _
    · intro i handle owner
      have below := handles.inside i handle owner
      have positive := owner.constructed
      rw [List.getD_eq_getElem?_getD, List.getElem?_append_left (by omega), ← List.getD_eq_getElem?_getD]
    · rw [free]
      exact List.not_mem_nil
  | cons handle rest =>
    dsimp only
    have nodup := handles.nodup
    rw [free] at nodup
    obtain ⟨positive, below, unowned⟩ := handles.free handle (by rw [free]; exact List.mem_cons_self)
    refine newHandle_of_table handles rfl positive ?_ ?_ unowned ?_ ?_ ?_ (List.nodup_cons.mp nodup).1
    · rwa [List.length_set]
    · rw [List.getD_eq_getElem?_getD, List.getElem?_set_self (by omega), Option.getD_some]
    · exact Nat.le_of_eq List.length_set.symm
    · intro i handle' owner
      have apart : handle ≠ handle' := by
        rintro rfl
        exact unowned i owner
      have positive' := owner.constructed
      rw [List.getD_eq_getElem?_getD, List.getElem?_set_ne (by omega), ← List.getD_eq_getElem?_getD]
    · rw [free]
      exact List.sublist_cons_self _ _

end Alloc

theorem newRecord_table {h h' : Heap} {shard quantum i : Nat} {slot : Slot}
    (made : h.newRecord shard quantum slot = some (i, h')) : h'.table = h.table := by
  obtain ⟨⟨j, g⟩, taken, same⟩ := Option.map_eq_some_iff.mp made
  cases same
  unfold takeHeapSlot at taken
  split at taken
  · dsimp only at taken
    split at taken
    · cases taken
    · cases taken
      rfl
  · dsimp only at taken
    split at taken
    · cases taken
    · cases taken
      rfl

theorem int16Cast_of_small {c : Nat} (small : c < 2 ^ 15) : int16Cast c = c := by
  rw [int16Cast, Int.bmod_def]
  split <;> omega

structure NewObject (h h' : Heap) (c i : Nat) : Prop where
  keeps : Keeps h h'
  fresh : Fresh h h' i
  slot : h'.slot i = { kind := .cls, cells := [↑c, 0, 0] }
  table : h'.table = h.table
  owners : ∀ kind j handle, Owner h' kind j handle → Owner h kind j handle

section Object
variable {h h' : Heap} {tables : TypeTables} {c shard quantum i : Nat}

theorem newRecord_owner {slot : Slot} {other : SideKind} {j : Nat} {handle : Int}
    (made : h.newRecord shard quantum slot = some (i, h')) (owner : Owner h' other j handle) (apart : j ≠ i) :
    Owner h other j handle := by
  have table := newRecord_table made
  obtain ⟨⟨k, g⟩, taken, same⟩ := Option.map_eq_some_iff.mp made
  cases same
  have live := owner.live
  obtain ⟨positive, inside, isClass, ofClass, field, constructed⟩ := owner
  rw [table] at ofClass
  rw [setSlot_slot_of_ne _ _ _ _ apart] at live isClass
  rw [cell, setSlot_slot_of_ne _ _ _ _ apart] at ofClass field
  obtain ⟨below, kept⟩ := takeHeapSlot_live taken inside live
  rw [kept] at isClass ofClass field
  exact ⟨positive, below, isClass, ofClass, field, constructed⟩

theorem allocClassOnHeap_new (sound : FreeListSound h []) (fields : tables.classFields c = [{ kind := .int32 }])
    (made : h.allocClassOnHeap tables shard quantum c = some (i, h')) : NewObject h h' c i := by
  unfold allocClassOnHeap at made
  split at made
  · cases made
  · obtain ⟨⟨j, g⟩, taken, rest⟩ := Option.bind_eq_some_iff.mp made
    obtain ⟨g', filled, same⟩ := Option.bind_eq_some_iff.mp rest
    cases same
    have none : tables.ownedCells c = [] := by
      rw [TypeTables.ownedCells, fields]
      rfl
    rw [none] at filled
    cases filled
    rw [fields] at taken
    obtain ⟨keeps, fresh, slot⟩ := newRecord_keeps sound rfl taken
    refine ⟨keeps, fresh, slot, newRecord_table taken, fun kind k handle owner => ?_⟩
    refine newRecord_owner taken owner ?_
    rintro rfl
    have zero : handle = 0 := by
      rw [← owner.field, cell, slot]
      rfl
    exact absurd owner.constructed (by omega)

theorem NewObject.keepsSlots (object : NewObject h h' c i) : KeepsSlots h h' := object.keeps.keepsSlots object.table

theorem NewObject.handles {kind : SideKind} (object : NewObject h h' c i) (handles : Handles h kind) : Handles h' kind :=
  handles.frame (by rw [object.table]) fun j handle owner => object.owners kind j handle owner

end Object

structure Constructed (h h' : Heap) (kind : SideKind) (i : Nat) (handle : Int) : Prop where
  keeps : ∀ before, Keeps before h → Fresh before h i → Keeps before h' ∧ Fresh before h' i
  slots : KeepsSlots h h'
  owner : Owner h' kind i handle
  empty : h'.sideSlot kind handle = []
  classIdx : ∀ other, (h'.table other).classIdx = (h.table other).classIdx
  handles : Handles h' kind
  others : ∀ other, (h.table other).classIdx ≠ (h.table kind).classIdx → Handles h other → Handles h' other

section Construct
variable {h : Heap} {kind : SideKind} {c i : Nat}

theorem NewHandle.keeps {h' before : Heap} {handle : Int} (new : NewHandle h h' kind handle) (keeps : Keeps before h) :
    Keeps before h' where
  sound := by
    obtain ⟨configured, sentinel, nodup, listed⟩ := keeps.sound
    have free : h'.freeIndices = h.freeIndices := by rw [freeIndices, freeIndices, new.shards]
    refine ⟨by rwa [new.shards], by rwa [new.size], by rwa [free], fun j => ?_⟩
    rw [free, new.size, new.slot]
    exact listed j
  size := by
    rw [new.size]
    exact keeps.size
  slot := by
    rw [new.slot]
    exact keeps.slot

theorem constructed_of_slot (handles : Handles h kind) (classIdx : (h.table kind).classIdx = c) (small : c < 2 ^ 15)
    (positive : 0 < i) (inside : i < h.size) (slot : h.slot i = { kind := .cls, cells := [↑c, 0, 0] }) :
    Constructed h ((h.allocHandle kind).2.storeCell i kListHandleFieldOffset (h.allocHandle kind).1) kind i
      (h.allocHandle kind).1 := by
  have new := allocHandle_new handles
  generalize (h.allocHandle kind).1 = handle at new ⊢
  generalize (h.allocHandle kind).2 = g at new ⊢
  have stored : (g.storeCell i kListHandleFieldOffset handle).slot i = { kind := .cls, cells := [↑c, handle, 0] } := by
    rw [storeCell, setSlot_slot_self, new.slot, slot]
    rfl
  have kept : ∀ j, j ≠ i → (g.storeCell i kListHandleFieldOffset handle).slot j = h.slot j := by
    intro j apart
    rw [storeCell, setSlot_slot_of_ne _ _ _ _ apart, new.slot]
  have notOwner : ∀ other handle', ¬ Owner h other i handle' := by
    intro other handle' owner
    have zero : handle' = 0 := by
      rw [← owner.field, cell, slot]
      rfl
    exact absurd owner.constructed (by omega)
  -- an owner in the new heap is record `i` with its slot, or one of the old heap
  have owners : ∀ other j handle', Owner (g.storeCell i kListHandleFieldOffset handle) other j handle' →
      (j = i ∧ handle' = handle ∧ (h.table other).classIdx = c) ∨ (j ≠ i ∧ Owner h other j handle') := by
    intro other j handle' owner
    obtain ⟨positive', inside', isClass, ofClass, field, constructed⟩ := owner
    by_cases same : j = i
    · subst same
      rw [cell, stored] at ofClass field
      refine .inl ⟨rfl, field.symm, ?_⟩
      rw [← new.classIdx other]
      exact ofClass.symm.trans (int16Cast_of_small small)
    · rw [cell, kept j same] at ofClass field
      rw [kept j same] at isClass
      exact .inr ⟨same, positive', new.size ▸ inside', isClass, ofClass.trans (new.classIdx other), field, constructed⟩
  refine ⟨?_, ?_, ?_, new.empty, new.classIdx, ⟨?_, ?_, ?_, new.handles.nodup⟩, ?_⟩
  · intro before keeps fresh
    have fresh' : Fresh before g i := ⟨fresh.free, fresh.positive, new.size ▸ fresh.inside, new.slot ▸ fresh.live⟩
    exact storeCell_keeps (new.keeps keeps) fresh' _ _
  · intro other j handle' owner
    have apart : j ≠ i := by
      rintro rfl
      exact notOwner other handle' owner
    refine ⟨⟨owner.positive, ?_, ?_, ?_, ?_, owner.constructed⟩, (new.slots other j handle' owner).2⟩
    · exact new.size ▸ owner.inside
    · rw [kept j apart]
      exact owner.isClass
    · rw [cell, kept j apart]
      exact owner.ofClass.trans (new.classIdx other).symm
    · rw [cell, kept j apart]
      exact owner.field
  · refine ⟨positive, new.size ▸ inside, by rw [stored], ?_, ?_, new.positive⟩
    · rw [cell, stored]
      exact (int16Cast_of_small small).trans (classIdx.symm.trans (new.classIdx kind).symm)
    · rw [cell, stored]
      rfl
  · intro j handle' owner
    rcases owners kind j handle' owner with ⟨-, rfl, -⟩ | ⟨-, old⟩
    · exact new.inside
    · exact new.handles.inside j handle' (new.slots kind j handle' old).1
  · intro j k handle' first second
    rcases owners kind j handle' first with ⟨rfl, rfl, -⟩ | ⟨-, old⟩
    · rcases owners kind k handle' second with ⟨same, -, -⟩ | ⟨-, old⟩
      · exact same.symm
      · exact absurd old (new.unowned k)
    · rcases owners kind k handle' second with ⟨-, rfl, -⟩ | ⟨-, old'⟩
      · exact absurd old (new.unowned j)
      · exact handles.unique j k handle' old old'
  · intro handle' listed
    obtain ⟨positive', below, unowned⟩ := new.handles.free handle' listed
    refine ⟨positive', below, fun j owner => ?_⟩
    rcases owners kind j handle' owner with ⟨-, rfl, -⟩ | ⟨-, old⟩
    · exact new.notFree listed
    · exact unowned j (new.slots kind j handle' old).1
  · intro other apart othersHandles
    have notKind : other ≠ kind := by
      rintro rfl
      exact apart rfl
    refine othersHandles.frame (new.others other notKind) fun j handle' owner => ?_
    rcases owners other j handle' owner with ⟨-, -, ofClass⟩ | ⟨-, old⟩
    · exact absurd (ofClass.trans classIdx.symm) apart
    · exact old

end Construct

structure NewContainer (h h' : Heap) (kind : SideKind) (i : Nat) (contents : List Int) : Prop where
  keeps : Keeps h h'
  fresh : Fresh h h' i
  slots : KeepsSlots h h'
  tracks : Tracks h' kind i contents
  classIdx : ∀ other, (h'.table other).classIdx = (h.table other).classIdx
  handles : Handles h' kind
  others : ∀ other, (h.table other).classIdx ≠ (h.table kind).classIdx → Handles h other → Handles h' other

section Container
variable {h g h' : Heap} {kind : SideKind} {tables : TypeTables} {c shard quantum i : Nat} {typeName : String}
variable (handles : Handles h kind) (classIdx : (h.table kind).classIdx = c) (small : c < 2 ^ 15)
include handles classIdx small

theorem NewObject.constructed (object : NewObject h g c i) :
    Constructed g ((g.allocHandle kind).2.storeCell i kListHandleFieldOffset (g.allocHandle kind).1) kind i
      (g.allocHandle kind).1 := by
  refine constructed_of_slot (object.handles handles) ?_ small object.fresh.positive object.fresh.inside object.slot
  rw [object.table]
  exact classIdx

theorem NewObject.containerCtor (object : NewObject h g c i) (built : containerCtor kind typeName g i = .ok h') :
    NewContainer h h' kind i [] := by
  have constructed := object.constructed handles classIdx small
  have positive := object.fresh.positive
  have inside := object.fresh.inside
  unfold Heap.containerCtor at built
  rw [if_neg (by omega), if_neg (by omega), Int.toNat_natCast] at built
  cases built
  obtain ⟨keeps, fresh⟩ := constructed.keeps h object.keeps object.fresh
  refine ⟨keeps, fresh, object.keepsSlots.trans constructed.slots, ⟨_, constructed.owner, constructed.empty⟩, ?_,
    constructed.handles, fun other apart others => constructed.others other ?_ (object.handles others)⟩
  · intro other
    rw [constructed.classIdx, object.table]
  · rwa [object.table]

omit handles small in
theorem newContainer_ok {contents : Heap → List Int} {result : Except Fault (Nat × Heap)}
    (made : newContainer kind typeName tables shard quantum contents h = some result) : ∃ i h', result = .ok (i, h') := by
  unfold newContainer at made
  rw [if_neg (by omega)] at made
  obtain ⟨⟨i, h'⟩, -, rfl⟩ := Option.map_eq_some_iff.mp made
  exact ⟨_, _, rfl⟩

theorem newContainer_made {contents : Heap → List Int} {cells : List Int} (sound : FreeListSound h [])
    (fields : tables.classFields c = [{ kind := .int32 }]) (reads : ∀ g, KeepsSlots h g → contents g = cells)
    (made : newContainer kind typeName tables shard quantum contents h = some (.ok (i, h'))) :
    NewContainer h h' kind i cells := by
  unfold newContainer at made
  rw [if_neg (by omega)] at made
  obtain ⟨⟨j, g⟩, allocated, same⟩ := Option.map_eq_some_iff.mp made
  have row : ((h.table kind).classIdx % 2 ^ 16).toNat = c := by omega
  rw [row] at allocated
  have object := allocClassOnHeap_new sound fields allocated
  have constructed := object.constructed handles classIdx small
  obtain ⟨rfl, rfl⟩ := Prod.mk.inj (Except.ok.inj same)
  obtain ⟨keeps, fresh⟩ := constructed.keeps h object.keeps object.fresh
  have slots := object.keepsSlots.trans constructed.slots
  rw [reads _ slots]
  refine ⟨⟨?_, keeps.size, keeps.slot⟩, ⟨fresh.free, fresh.positive, fresh.inside, fresh.live⟩, ?_,
    constructed.owner.setSideSlot_self constructed.handles, ?_, constructed.handles.setSideSlot, ?_⟩
  · exact ⟨keeps.sound.configured, keeps.sound.sentinel, keeps.sound.nodup, keeps.sound.listed⟩
  · intro other k handle owner
    obtain ⟨owner', same⟩ := slots other k handle owner
    refine ⟨setSideSlot_owner.mpr owner', Eq.trans ?_ same⟩
    refine constructed.owner.sideSlot_setSideSlot constructed.handles owner' (.inr ?_)
    rintro rfl
    exact fresh.free ⟨owner.inside, owner.live⟩
  · intro other
    rw [setSideSlot_classIdx, constructed.classIdx, object.table]
  · intro other apart others
    refine (constructed.others other ?_ (object.handles others)).setSideSlot
    rwa [object.table]

end Container

end Heap

end NLang.Vm
