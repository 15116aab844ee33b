import NLang.Library.ShardStacks
import NLang.Vm.Mark

/-!
# The string store

`VmExecutorStrings.cpp`: `m_stringObjs` with its free indices and the weak table of short strings. A string is
its bytes. Fuel bounds the flatten walk; `none` is a walk that needs more, or a pop of an empty shard.
-/

namespace NLang.Vm
open NLang.Library

def kShortStringMaxBytes : Nat := 40

structure StrObj where
  form : StrForm := .flat
  immortal : Bool := false
  interned : Bool := false
  str : List UInt8 := []
  deriving DecidableEq

structure StringHeap where
  size : Nat
  obj : Nat → StrObj
  shards : List (List Nat)
  shortStrTable : List UInt8 → Option Nat
  constStrCache : List Nat
  emptyStrHandle : Nat

namespace StringHeap

def store (h : StringHeap) : StringStore where
  size := h.size
  form i := (h.obj i).form

def isLiveStringHandle (h : StringHeap) (handle : Int) : Bool := h.store.isLive handle

def freeIndices (h : StringHeap) : List Nat := h.shards.flatten

def setObj (h : StringHeap) (i : Nat) (obj : StrObj) : StringHeap :=
  { h with obj := fun j => if j = i then obj else h.obj j }

def setEntry (h : StringHeap) (content : List UInt8) (entry : Option Nat) : StringHeap :=
  { h with shortStrTable := fun key => if key = content then entry else h.shortStrTable key }

def growStrShardBlockLocked (h : StringHeap) (shard quantum : Nat) : StringHeap :=
  { h with
    size := h.size + quantum
    obj := fun j => if h.size ≤ j ∧ j < h.size + quantum then {} else h.obj j
    shards := h.shards.modify shard (List.range' h.size quantum ++ ·) }

def takeStringSlot (h : StringHeap) (shard quantum : Nat) : Option (Nat × StringHeap) :=
  let h := if h.shards.getD shard [] = [] then h.growStrShardBlockLocked shard quantum else h
  match h.shards.getD shard [] with
  | [] => none
  | i :: rest => some (i, { h with shards := h.shards.set shard rest })

def allocStringObj (h : StringHeap) (shard quantum : Nat) : Option (Nat × StringHeap) :=
  (h.takeStringSlot shard quantum).map fun (i, h) => (i, h.setObj i {})

def internedLookup (h : StringHeap) (content : List UInt8) : Option Nat :=
  (h.shortStrTable content).filter fun i => h.isLiveStringHandle i

def mintNewString (h : StringHeap) (shard quantum : Nat) (content : List UInt8) : Option (Nat × StringHeap) :=
  if kShortStringMaxBytes < content.length then
    (h.allocStringObj shard quantum).map fun (i, h) => (i, h.setObj i { h.obj i with str := content })
  else
    match h.internedLookup content with
    | some i => some (i, h)
    | none =>
      (h.allocStringObj shard quantum).map fun (i, h) =>
        (i, (h.setEntry content (some i)).setObj i { h.obj i with interned := true, str := content })

def mintConstantString (h : StringHeap) (shard quantum : Nat) (content : List UInt8) :
    Option (Nat × StringHeap) :=
  (h.mintNewString shard quantum content).map fun (i, h) => (i, h.setObj i { h.obj i with immortal := true })

def allocConsString (h : StringHeap) (shard quantum : Nat) (left right : Int) : Option (Nat × StringHeap) :=
  (h.allocStringObj shard quantum).map fun (i, h) => (i, h.setObj i { h.obj i with form := .cons left right })

def flattenInto (h : StringHeap) : Nat → List UInt8 → List Int → Option (List UInt8)
  | 0, _, _ => none
  | _+1, out, [] => some out
  | fuel+1, out, handle :: work =>
    if h.isLiveStringHandle handle then
      match (h.obj handle.toNat).form with
      | .cons left right => flattenInto h fuel out (left :: right :: work)
      | _ => flattenInto h fuel (out ++ (h.obj handle.toNat).str) work
    else flattenInto h fuel out work

def strVal (h : StringHeap) (fuel : Nat) (handle : Int) : Option (List UInt8 × StringHeap) :=
  if h.isLiveStringHandle handle then
    match (h.obj handle.toNat).form with
    | .cons _ _ =>
      (h.flattenInto fuel [] [handle]).map fun content =>
        (content, h.setObj handle.toNat { h.obj handle.toNat with form := .flat, str := content })
    | _ => some ((h.obj handle.toNat).str, h)
  else some ((h.obj h.emptyStrHandle).str, h)

def isInternedString (h : StringHeap) (handle : Int) : Bool :=
  h.isLiveStringHandle handle && (h.obj handle.toNat).interned

def stringsEqual (h : StringHeap) (fuel : Nat) (hA hB : Int) : Option (Bool × StringHeap) :=
  if h.isInternedString hA && h.isInternedString hB then some (hA = hB, h)
  else do
    let (a, h) ← h.strVal fuel hA
    let (b, h) ← h.strVal fuel hB
    return (a = b, h)

def opConcat (h : StringHeap) (shard quantum fuel : Nat) (hA hB : Int) : Option (Nat × StringHeap) :=
  if hA = hB then do
    let (first, h) ← h.strVal fuel hA
    let (second, h) ← h.strVal fuel hA
    h.mintNewString shard quantum (first ++ second)
  else h.allocConsString shard quantum hA hB

def strSweepPush (h : StringHeap) (i : Nat) : StringHeap :=
  { h with shards := h.shards.modify (i / defaultShardBlock % h.shards.length) ([i] ++ ·) }

def sweepString (marked : List Nat) (h : StringHeap) (i : Nat) : StringHeap :=
  let so := h.obj i
  if so.form = .dead then h.strSweepPush i
  else if so.immortal || i ∈ marked then h
  else
    let h := if so.interned then h.setEntry so.str none else h
    (h.setObj i { form := .dead }).strSweepPush i

def clearAll (h : StringHeap) : StringHeap := { h with shards := h.shards.map fun _ => [] }

def sweepStrings (marked : List Nat) (h : StringHeap) : StringHeap :=
  (List.range' 1 (h.size - 1)).foldl (sweepString marked) h.clearAll

def collect (h : StringHeap) (roots : List Int) : StringHeap :=
  h.sweepStrings (roots.foldl h.store.markString [])

def initStringStore (carriers shard quantum : Nat) (stringConstants : List (List UInt8)) : Option StringHeap := do
  let start : StringHeap :=
    { size := 1
      obj := fun _ => { form := .dead }
      shards := List.replicate (carriers + 1) []
      shortStrTable := fun _ => none
      constStrCache := []
      emptyStrHandle := 0 }
  let h ← stringConstants.foldlM (fun h content =>
    (h.mintConstantString shard quantum content).map fun (i, h) =>
      { h with constStrCache := h.constStrCache ++ [i] }) start
  let (i, h) ← h.mintConstantString shard quantum []
  return { h with emptyStrHandle := i }

section Simp
variable (h : StringHeap) (i : Nat) (obj : StrObj) (key : List UInt8) (entry : Option Nat)

@[simp] theorem setObj_size : (h.setObj i obj).size = h.size := rfl
@[simp] theorem setObj_obj_self : (h.setObj i obj).obj i = obj := by simp [setObj]
@[simp] theorem setObj_obj_of_ne {j : Nat} (ne : j ≠ i) : (h.setObj i obj).obj j = h.obj j := by simp [setObj, ne]
@[simp] theorem setObj_freeIndices : (h.setObj i obj).freeIndices = h.freeIndices := rfl
@[simp] theorem setObj_shortStrTable : (h.setObj i obj).shortStrTable = h.shortStrTable := rfl
@[simp] theorem setEntry_size : (h.setEntry key entry).size = h.size := rfl
@[simp] theorem setEntry_obj : (h.setEntry key entry).obj = h.obj := rfl
@[simp] theorem setEntry_freeIndices : (h.setEntry key entry).freeIndices = h.freeIndices := rfl
@[simp] theorem strSweepPush_size : (h.strSweepPush i).size = h.size := rfl
@[simp] theorem strSweepPush_obj : (h.strSweepPush i).obj = h.obj := rfl
@[simp] theorem strSweepPush_shortStrTable : (h.strSweepPush i).shortStrTable = h.shortStrTable := rfl

theorem isLiveStringHandle_iff {handle : Int} : h.isLiveStringHandle handle = true ↔
    0 < handle ∧ handle.toNat < h.size ∧ (h.obj handle.toNat).form ≠ .dead := by
  rw [isLiveStringHandle, StringStore.isLive, decide_eq_true_eq]
  rfl

end Simp

inductive Content (h : StringHeap) : Int → List UInt8 → Prop where
  | dead {handle : Int} : h.isLiveStringHandle handle = false → Content h handle []
  | flat {handle : Int} : h.isLiveStringHandle handle = true → (h.obj handle.toNat).form = .flat →
      Content h handle (h.obj handle.toNat).str
  | cons {handle left right : Int} {x y : List UInt8} : h.isLiveStringHandle handle = true →
      (h.obj handle.toNat).form = .cons left right → Content h left x → Content h right y →
      Content h handle (x ++ y)

namespace Content
variable {h : StringHeap} {handle : Int} {x : List UInt8}

theorem of_dead (content : h.Content handle x) (dead : h.isLiveStringHandle handle = false) : x = [] := by
  cases content with
  | dead _ => rfl
  | flat live _ => simp [live] at dead
  | cons live _ _ _ => simp [live] at dead

theorem of_flat (content : h.Content handle x) (live : h.isLiveStringHandle handle = true)
    (flat : (h.obj handle.toNat).form = .flat) : x = (h.obj handle.toNat).str := by
  cases content with
  | dead dead => simp [live] at dead
  | flat _ _ => rfl
  | cons _ node _ _ =>
    rw [flat] at node
    cases node

theorem of_cons {left right : Int} (content : h.Content handle x) (live : h.isLiveStringHandle handle = true)
    (node : (h.obj handle.toNat).form = .cons left right) :
    ∃ y z, x = y ++ z ∧ h.Content left y ∧ h.Content right z := by
  cases content with
  | dead dead => simp [live] at dead
  | flat _ flat =>
    rw [node] at flat
    cases flat
  | cons _ other first second =>
    rw [node] at other
    cases other
    exact ⟨_, _, rfl, first, second⟩

theorem unique (content : h.Content handle x) {y : List UInt8} (other : h.Content handle y) : x = y := by
  induction content generalizing y with
  | dead dead => exact (other.of_dead dead).symm
  | flat live flat => exact (other.of_flat live flat).symm
  | cons live node _ _ ihLeft ihRight =>
    obtain ⟨_, _, rfl, first, second⟩ := other.of_cons live node
    rw [ihLeft first, ihRight second]

theorem transfer {h' : StringHeap} (inside : Int → Prop)
    (live : ∀ c, inside c → h'.isLiveStringHandle c = h.isLiveStringHandle c)
    (same : ∀ c, inside c → h.isLiveStringHandle c = true → h'.obj c.toNat = h.obj c.toNat)
    (closed : ∀ c left right, inside c → h.isLiveStringHandle c = true →
      (h.obj c.toNat).form = .cons left right → inside left ∧ inside right)
    (content : h.Content handle x) (member : inside handle) : h'.Content handle x := by
  induction content with
  | dead dead => exact .dead ((live _ member).trans dead)
  | @flat c alive flat =>
    have kept := same c member alive
    rw [← kept]
    exact .flat ((live _ member).trans alive) (kept ▸ flat)
  | @cons c left right x y alive node _ _ ihLeft ihRight =>
    obtain ⟨first, second⟩ := closed c left right member alive node
    exact .cons ((live _ member).trans alive) (same c member alive ▸ node) (ihLeft first) (ihRight second)

theorem flattenInto (content : h.Content handle x) : ∃ n, ∀ (fuel : Nat) (out : List UInt8) (work : List Int),
    h.flattenInto (n + fuel) out (handle :: work) = h.flattenInto fuel (out ++ x) work := by
  induction content with
  | dead dead =>
    refine ⟨1, fun fuel out work => ?_⟩
    rw [Nat.add_comm, StringHeap.flattenInto, dead, List.append_nil]
    rfl
  | flat live flat =>
    refine ⟨1, fun fuel out work => ?_⟩
    rw [Nat.add_comm, StringHeap.flattenInto, if_pos live, flat]
  | @cons _ left right x y live node _ _ ihLeft ihRight =>
    obtain ⟨n, first⟩ := ihLeft
    obtain ⟨m, second⟩ := ihRight
    refine ⟨n + m + 1, fun fuel out work => ?_⟩
    have shape : n + m + 1 + fuel = (n + (m + fuel)) + 1 := by omega
    rw [shape, StringHeap.flattenInto, if_pos live, node]
    dsimp only
    rw [first, second, List.append_assoc]

end Content

theorem contents_of_flattenInto {h : StringHeap} {fuel : Nat} {out content : List UInt8} {work : List Int}
    (done : h.flattenInto fuel out work = some content) :
    ∃ xs, List.Forall₂ h.Content work xs ∧ content = out ++ xs.flatten := by
  induction fuel generalizing out work with
  | zero => cases done
  | succ fuel ih =>
    cases work with
    | nil =>
      cases done
      exact ⟨[], .nil, by simp⟩
    | cons handle work =>
      rw [flattenInto] at done
      by_cases live : h.isLiveStringHandle handle = true
      · rw [if_pos live] at done
        cases form : (h.obj handle.toNat).form with
        | flat =>
          rw [form] at done
          obtain ⟨xs, contents, rfl⟩ := ih done
          exact ⟨_ :: xs, .cons (.flat live form) contents, by simp⟩
        | dead =>
          have alive := (h.isLiveStringHandle_iff.mp live).2.2
          contradiction
        | cons left right =>
          rw [form] at done
          obtain ⟨xs, contents, rfl⟩ := ih done
          obtain ⟨x, _, first, rest, rfl⟩ := List.forall₂_cons_left_iff.mp contents
          obtain ⟨y, ys, second, others, rfl⟩ := List.forall₂_cons_left_iff.mp rest
          exact ⟨(x ++ y) :: ys, .cons (.cons live form first second) others, by simp⟩
      · rw [if_neg live] at done
        obtain ⟨xs, contents, rfl⟩ := ih done
        exact ⟨[] :: xs, .cons (.dead (Bool.not_eq_true _ ▸ live)) contents, by simp⟩

theorem flattenInto_iff {h : StringHeap} {handle : Int} {x : List UInt8} :
    h.Content handle x ↔ ∃ fuel, h.flattenInto fuel [] [handle] = some x := by
  constructor
  · intro content
    obtain ⟨n, walk⟩ := content.flattenInto
    exact ⟨n + 1, by rw [walk]; simp [StringHeap.flattenInto]⟩
  · rintro ⟨fuel, done⟩
    obtain ⟨xs, contents, rfl⟩ := contents_of_flattenInto done
    obtain ⟨x, ys, first, rest, rfl⟩ := List.forall₂_cons_left_iff.mp contents
    cases rest
    simpa using first

theorem Content.enough {h : StringHeap} {handle : Int} {x : List UInt8} (content : h.Content handle x) :
    ∃ n, ∀ fuel, n ≤ fuel → h.flattenInto fuel [] [handle] = some x := by
  obtain ⟨n, walk⟩ := content.flattenInto
  refine ⟨n + 1, fun fuel enough => ?_⟩
  obtain ⟨more, rfl⟩ := Nat.exists_eq_add_of_le enough
  have shape : n + 1 + more = n + (more + 1) := by omega
  rw [shape, walk]
  simp [StringHeap.flattenInto]

end StringHeap

end NLang.Vm
