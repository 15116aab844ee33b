import NLang.Compiler.ClassTree

/-!
# Field offsets

`FieldOffsets.cpp`: the offset of an instance field in a heap record, found by name from the root class down. Offsets
are `uint16_t`.
-/

namespace NLang.Backend
open NLang.Image NLang.Compiler NLang.Library.ParentChains

def kHeapCellBytes : UInt16 := 4
def kHeapFieldStrideBytes : UInt16 := 8

def searchFields (fieldName : Text) : UInt16 → List SnClassField → Option UInt16 × UInt16
  | off, [] => (none, off)
  | off, field :: rest =>
    if field.isStatic then searchFields fieldName off rest
    else if field.name = fieldName then (some off, off)
    else searchFields fieldName (off + kHeapFieldStrideBytes) rest

def classAncestorFieldOffset (node : ClassNode) (fieldName : Text) (off : UInt16) : Option UInt16 × UInt16 :=
  searchFields fieldName (if node.isHandleClassDecl then off + kHeapFieldStrideBytes else off) node.fields

def findAlong (tree : ClassTree) (fieldName : Text) : UInt16 → List Nat → Option UInt16
  | _, [] => none
  | off, i :: rest =>
    match tree.classes[i]? with
    | none => findAlong tree fieldName off rest
    | some node =>
      match classAncestorFieldOffset node fieldName off with
      | (some found, _) => some found
      | (none, off) => findAlong tree fieldName off rest

/-- Nothing where the walk up the superclasses does not end; inside, nothing for `-1`. -/
def findClassFieldOffset (tree : ClassTree) (classDecl : Nat) (fieldName : Text) : Option (Option UInt16) :=
  (tree.superChain classDecl).map fun chain => findAlong tree fieldName kHeapCellBytes chain.reverse

def offsetOf (slots : Nat) : UInt16 := UInt16.ofNat (4 + 8 * slots)

theorem offsetOf_zero : offsetOf 0 = kHeapCellBytes := rfl

theorem offsetOf_succ (slots : Nat) : offsetOf (slots + 1) = offsetOf slots + kHeapFieldStrideBytes := by
  have stride : kHeapFieldStrideBytes = UInt16.ofNat 8 := rfl
  rw [offsetOf, offsetOf, stride, ← UInt16.ofNat_add, Nat.mul_succ, Nat.add_assoc]

open ClassNode

theorem searchFields_absent {fieldName : Text} {fields : List SnClassField}
    (absent : ∀ field ∈ instanceFields fields, field.name ≠ fieldName) (slots : Nat) :
    searchFields fieldName (offsetOf slots) fields =
      (none, offsetOf (slots + (instanceFields fields).length)) := by
  induction fields generalizing slots with
  | nil => rfl
  | cons field rest ih =>
    unfold searchFields
    by_cases isStatic : field.isStatic = true
    · have same : instanceFields (field :: rest) = instanceFields rest := by simp [instanceFields, isStatic]
      rw [if_pos isStatic, same]
      exact ih (fun other member => absent other (same ▸ member)) slots
    · have more : instanceFields (field :: rest) = field :: instanceFields rest := by simp [instanceFields, isStatic]
      rw [if_neg isStatic, if_neg (absent field (by rw [more]; exact .head _)), ← offsetOf_succ, more,
        ih fun other member => absent other (by rw [more]; exact .tail _ member)]
      congr 2
      simp only [List.length_cons]
      omega

theorem searchFields_found {fields : List SnClassField} {field : SnClassField} (rest : List SnClassField)
    (isInstance : field.isStatic = false) (absent : ∀ other ∈ instanceFields fields, other.name ≠ field.name) (slots : Nat) :
    (searchFields field.name (offsetOf slots) (fields ++ field :: rest)).1 =
      some (offsetOf (slots + (instanceFields fields).length)) := by
  induction fields generalizing slots with
  | nil =>
    rw [List.nil_append, searchFields, if_neg (by simp [isInstance]), if_pos rfl]
    rfl
  | cons first before ih =>
    rw [List.cons_append]
    unfold searchFields
    by_cases isStatic : first.isStatic = true
    · have same : instanceFields (first :: before) = instanceFields before := by simp [instanceFields, isStatic]
      rw [if_pos isStatic, same]
      exact ih (fun other member => absent other (same ▸ member)) slots
    · have more : instanceFields (first :: before) = first :: instanceFields before := by
        simp [instanceFields, isStatic]
      rw [if_neg isStatic, if_neg (absent first (by rw [more]; exact .head _)), ← offsetOf_succ, more,
        ih fun other member => absent other (by rw [more]; exact .tail _ member)]
      congr 2
      simp only [List.length_cons]
      omega

section Walk
variable (tree : ClassTree)

def ownSlotsAt (i : Nat) : Nat := (tree.classes[i]?.map (·.ownSlots)).getD 0

def slotsOf (classes : List Nat) : Nat := (classes.map (ownSlotsAt tree)).sum

theorem handle_offset (node : ClassNode) (slots : Nat) :
    (if node.isHandleClassDecl then offsetOf slots + kHeapFieldStrideBytes else offsetOf slots) =
      offsetOf (slots + node.handleSlots) := by
  unfold handleSlots
  split
  · rw [← offsetOf_succ]
  · rw [Nat.add_zero]

theorem findAlong_absent {fieldName : Text} {above : List Nat}
    (absent : ∀ i ∈ above, ∀ field ∈ tree.fieldsAt i, field.name ≠ fieldName) (slots : Nat) (rest : List Nat) :
    findAlong tree fieldName (offsetOf slots) (above ++ rest) =
      findAlong tree fieldName (offsetOf (slots + slotsOf tree above)) rest := by
  induction above generalizing slots with
  | nil => rfl
  | cons i above ih =>
    rw [List.cons_append]
    have others : ∀ j ∈ above, ∀ field ∈ tree.fieldsAt j, field.name ≠ fieldName :=
      fun j member => absent j (.tail _ member)
    have total : slotsOf tree (i :: above) = ownSlotsAt tree i + slotsOf tree above := by simp [slotsOf]
    rw [findAlong]
    cases row : tree.classes[i]? with
    | none =>
      have own : ownSlotsAt tree i = 0 := by simp [ownSlotsAt, row]
      rw [total, own, Nat.zero_add]
      exact ih others slots
    | some node =>
      have fields : tree.fieldsAt i = node.fields := by simp [ClassTree.fieldsAt, row]
      have own : ownSlotsAt tree i = node.ownSlots := by simp [ownSlotsAt, row]
      have none : ∀ field ∈ instanceFields node.fields, field.name ≠ fieldName := fun field member =>
        absent i (.head _) field (fields ▸ (List.mem_filter.mp member).1)
      dsimp only
      rw [classAncestorFieldOffset, handle_offset, searchFields_absent none]
      dsimp only
      rw [ih others, total, own, ownSlots, Nat.add_assoc, Nat.add_assoc, Nat.add_assoc]

theorem findAlong_found {above : List Nat} (below : List Nat) {d : Nat} {node : ClassNode} {before rest : List SnClassField}
    {field : SnClassField} (row : tree.classes[d]? = some node) (fields : node.fields = before ++ field :: rest)
    (isInstance : field.isStatic = false) (first : ∀ other ∈ before, other.name ≠ field.name)
    (unhidden : ∀ i ∈ above, ∀ other ∈ tree.fieldsAt i, other.name ≠ field.name) :
    findAlong tree field.name kHeapCellBytes (above ++ d :: below) =
      some (offsetOf (slotsOf tree above + node.handleSlots + (instanceFields before).length)) := by
  rw [← offsetOf_zero, findAlong_absent tree unhidden, Nat.zero_add, findAlong, row]
  dsimp only
  have found := searchFields_found rest isInstance
    (fun other member => first other (List.mem_filter.mp member).1) (slotsOf tree above + node.handleSlots)
  rw [classAncestorFieldOffset, handle_offset, fields]
  generalize searchFields field.name _ _ = result at found
  obtain ⟨hit, off⟩ := result
  dsimp only at found
  rw [found]

end Walk

end NLang.Backend
