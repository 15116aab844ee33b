import NLang.Vm.DictKeys

/-!
# List and Dict

`IntrinsicsContainer.cpp` and the handles of `VmExecutorContainers.cpp`. A Dict keeps its entries in one list of its
side table, each key before its value. A result of `none` is a search that needs more fuel, or an allocation that fails.
-/

namespace NLang.Vm

/-- What ends an intrinsic: a `runtime_error`, or an exception of the program. -/
inductive Fault where
  | runtime (text : String)
  | raised (classIdx : Int) (text : String)

structure ExceptionClasses where
  exceptionClassIdx : Int
  oobExcClassIdx : Int

def pairs : List Int → List (Int × Int)
  | k :: v :: rest => (k, v) :: pairs rest
  | _ => []

def unpairs : List (Int × Int) → List Int
  | [] => []
  | (k, v) :: entries => k :: v :: unpairs entries

@[simp] theorem pairs_unpairs (entries : List (Int × Int)) : pairs (unpairs entries) = entries := by
  induction entries with
  | nil => rfl
  | cons entry entries ih => rw [unpairs, pairs, ih]

namespace Heap

def readHandle (typeName methodName : String) (h : Heap) (this : Int) : Except Fault Int :=
  if this ≤ 0 then .error (.runtime ("NLang VM: " ++ typeName ++ " " ++ methodName ++ " on null instance"))
  else if h.size ≤ this.toNat then
    .error (.runtime ("NLang VM: " ++ typeName ++ " " ++ methodName ++ " on stale reference"))
  else if h.cell this.toNat kListHandleFieldOffset ≤ 0 then
    .error (.runtime ("NLang VM: " ++ typeName ++ " " ++ methodName ++ " on uninitialized instance"))
  else .ok (h.cell this.toNat kListHandleFieldOffset)

def readListHandle (h : Heap) (this : Int) (methodName : String) : Except Fault Int :=
  readHandle "List" methodName h this

def readDictHandle (h : Heap) (this : Int) (methodName : String) : Except Fault Int :=
  readHandle "Dict" methodName h this

def allocHandle (h : Heap) (kind : SideKind) : Int × Heap :=
  match (h.table kind).freeList with
  | handle :: rest =>
    (handle, h.setTable kind
      { h.table kind with freeList := rest, store := (h.table kind).store.set (handle - 1).toNat [] })
  | [] =>
    (((h.table kind).store.length : Int) + 1,
      h.setTable kind { h.table kind with store := (h.table kind).store ++ [[]] })

def sideSlot (h : Heap) (kind : SideKind) (handle : Int) : List Int :=
  (h.table kind).store.getD (handle - 1).toNat []

def setSideSlot (h : Heap) (kind : SideKind) (handle : Int) (contents : List Int) : Heap :=
  h.setTable kind { h.table kind with store := (h.table kind).store.set (handle - 1).toNat contents }

def dictEntries (h : Heap) (handle : Int) : List (Int × Int) := pairs (h.sideSlot .dict handle)

def setDictEntries (h : Heap) (handle : Int) (entries : List (Int × Int)) : Heap :=
  h.setSideSlot .dict handle (unpairs entries)

section Construct
variable (kind : SideKind) (typeName : String)

def containerCtor (h : Heap) (this : Int) : Except Fault Heap :=
  if this ≤ 0 then .error (.runtime ("NLang VM: " ++ typeName ++ " ctor on null instance"))
  else if h.size ≤ this.toNat then .error (.runtime ("NLang VM: " ++ typeName ++ " ctor on stale reference"))
  else .ok ((h.allocHandle kind).2.storeCell this.toNat kListHandleFieldOffset (h.allocHandle kind).1)

def newContainer (tables : TypeTables) (shard quantum : Nat) (contents : Heap → List Int) (h : Heap) :
    Option (Except Fault (Nat × Heap)) :=
  if (h.table kind).classIdx < 0 then
    some (.error (.runtime ("NLang VM: " ++ typeName ++ " class not registered")))
  else
    (allocClassOnHeap tables shard quantum h ((h.table kind).classIdx % 2 ^ 16).toNat).map fun (i, h) =>
      let handle := (h.allocHandle kind).1
      let h := (h.allocHandle kind).2.storeCell i kListHandleFieldOffset handle
      .ok (i, h.setSideSlot kind handle (contents h))

end Construct

def listCtor (h : Heap) (this : Int) : Except Fault Heap := containerCtor .list "List" h this
def dictCtor (h : Heap) (this : Int) : Except Fault Heap := containerCtor .dict "Dict" h this

section List
variable (classes : ExceptionClasses) (h : Heap) (this : Int)

def listAdd (value : Int) : Except Fault Heap := do
  let handle ← h.readListHandle this "add"
  return h.setSideSlot .list handle (h.sideSlot .list handle ++ [value])

def checkListIndex (elements : List Int) (idx : Int) : Except Fault Unit :=
  if idx < 0 ∨ elements.length ≤ idx.toNat then
    .error (.raised classes.oobExcClassIdx "NLang VM: List index out of bounds")
  else .ok ()

def listGet (idx : Int) : Except Fault Int := do
  let handle ← h.readListHandle this "get"
  checkListIndex classes (h.sideSlot .list handle) idx
  return (h.sideSlot .list handle).getD idx.toNat 0

def listSet (idx value : Int) : Except Fault Heap := do
  let handle ← h.readListHandle this "set"
  checkListIndex classes (h.sideSlot .list handle) idx
  return h.setSideSlot .list handle ((h.sideSlot .list handle).set idx.toNat value)

def listLength : Except Fault Int := do
  let handle ← h.readListHandle this "length"
  return (h.sideSlot .list handle).length

def listRemoveAt (idx : Int) : Except Fault Heap := do
  let handle ← h.readListHandle this "removeAt"
  checkListIndex classes (h.sideSlot .list handle) idx
  return h.setSideSlot .list handle ((h.sideSlot .list handle).eraseIdx idx.toNat)

def listIndexOf (strings : StringHeap) (fuel : Nat) (value : Int) : Option (Except Fault Int) :=
  match h.readListHandle this "indexOf" with
  | .error fault => some (.error fault)
  | .ok handle => (h.findListElement strings fuel value 0 (h.sideSlot .list handle)).map .ok

def listContains (strings : StringHeap) (fuel : Nat) (value : Int) : Option (Except Fault Int) :=
  match h.readListHandle this "contains" with
  | .error fault => some (.error fault)
  | .ok handle =>
    (h.findListElement strings fuel value 0 (h.sideSlot .list handle)).map fun p => .ok (if 0 ≤ p then 1 else 0)

def listClear : Except Fault Heap := do
  let handle ← h.readListHandle this "clear"
  return h.setSideSlot .list handle []

def listCopy (tables : TypeTables) (shard quantum : Nat) : Option (Except Fault (Nat × Heap)) :=
  match h.readListHandle this "copy" with
  | .error fault => some (.error fault)
  | .ok handle => newContainer .list "List" tables shard quantum (fun h => h.sideSlot .list handle) h

end List

section Dict
variable (classes : ExceptionClasses) (h : Heap) (strings : StringHeap) (fuel : Nat) (this : Int)

def dictSetLoop (k v : Int) : List (Int × Int) → Option (List (Int × Int))
  | [] => some [(k, v)]
  | kv :: entries =>
    (h.dictKeysEqual strings fuel kv.1 k).bind fun equal =>
      if equal then some ((kv.1, v) :: entries) else (dictSetLoop k v entries).map (kv :: ·)

def dictFindLoop (k : Int) : List (Int × Int) → Option (Option Int)
  | [] => some none
  | kv :: entries =>
    (h.dictKeysEqual strings fuel kv.1 k).bind fun equal =>
      if equal then some (some kv.2) else dictFindLoop k entries

def dictRemoveLoop (k : Int) : List (Int × Int) → Option (Int × List (Int × Int))
  | [] => some (0, [])
  | kv :: entries =>
    (h.dictKeysEqual strings fuel kv.1 k).bind fun equal =>
      if equal then some (1, entries)
      else (dictRemoveLoop k entries).map fun (result, entries) => (result, kv :: entries)

def dictSet (k v : Int) : Option (Except Fault Heap) :=
  match h.readDictHandle this "set" with
  | .error fault => some (.error fault)
  | .ok handle =>
    (dictSetLoop h strings fuel k v (h.dictEntries handle)).map fun entries => .ok (h.setDictEntries handle entries)

def dictGet (k : Int) : Option (Except Fault Int) :=
  match h.readDictHandle this "get" with
  | .error fault => some (.error fault)
  | .ok handle =>
    (dictFindLoop h strings fuel k (h.dictEntries handle)).map fun found =>
      match found with
      | some value => .ok value
      | none => .error (.raised classes.exceptionClassIdx "NLang VM: Dict key not found")

def dictContainsKey (k : Int) : Option (Except Fault Int) :=
  match h.readDictHandle this "containsKey" with
  | .error fault => some (.error fault)
  | .ok handle =>
    (dictFindLoop h strings fuel k (h.dictEntries handle)).map fun found => .ok (if found.isSome then 1 else 0)

def dictRemove (k : Int) : Option (Except Fault (Int × Heap)) :=
  match h.readDictHandle this "remove" with
  | .error fault => some (.error fault)
  | .ok handle =>
    (dictRemoveLoop h strings fuel k (h.dictEntries handle)).map fun (result, entries) =>
      .ok (result, h.setDictEntries handle entries)

def dictClear : Except Fault Heap := do
  let handle ← h.readDictHandle this "clear"
  return h.setDictEntries handle []

def dictCount : Except Fault Int := do
  let handle ← h.readDictHandle this "count"
  return (h.dictEntries handle).length

def dictKeys (tables : TypeTables) (shard quantum : Nat) : Option (Except Fault (Nat × Heap)) :=
  match h.readDictHandle this "keys" with
  | .error fault => some (.error fault)
  | .ok handle =>
    newContainer .list "List" tables shard quantum (fun h => (h.dictEntries handle).map Prod.fst) h

def dictCopy (tables : TypeTables) (shard quantum : Nat) : Option (Except Fault (Nat × Heap)) :=
  match h.readDictHandle this "copy" with
  | .error fault => some (.error fault)
  | .ok handle => newContainer .dict "Dict" tables shard quantum (fun h => h.sideSlot .dict handle) h

end Dict

end Heap

end NLang.Vm
