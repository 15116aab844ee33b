import NLang.Image.Records
import NLang.Library.ParentChains

/-!
# Class layouts

`src/vm/VmClassLayout.cpp`: the fields of an instance, joined along the superclass chain from the base down, and the
loader's check of these chains (`ModuleLoaderRecordsClasses.cpp`).
-/

namespace NLang.Vm.VmClassLayout
open NLang.Image NLang.Library.ParentChains

structure Entry where
  name : Text
  kind : UInt16
  structIdx : UInt16
  classIdx : UInt16

def ownEntries (cc : CompiledClass) : List Entry :=
  (List.range cc.fieldCount.toNat).map fun i =>
    { name := cc.fieldNames.getD i [], kind := cc.fieldTypeKinds.getD i 0,
      structIdx := cc.fieldStructIndices.getD i 0, classIdx := cc.fieldClassIndices.getD i 0 }

section Build
variable (classes : List CompiledClass)

/-- The chain from a class up, while it is shorter than the table; nothing for the corrupt-chain error. -/
def superChain : Nat → Nat → Option (List Nat)
  | 0, _ => none
  | room + 1, cur =>
    match classes[cur]? with
    | none => none
    | some cc =>
      if cc.superClassIdx.toInt < 0 then some [cur]
      else (superChain room cc.superClassIdx.toInt.toNat).map (cur :: ·)

def fieldsOf (c : Nat) : List Entry := (classes[c]?.map ownEntries).getD []

def layoutOf (c : Nat) : Option (List Entry) :=
  (superChain classes classes.length c).map fun chain => chain.reverse.flatMap (fieldsOf classes)

def build : Option (List (List Entry)) := (List.range classes.length).mapM (layoutOf classes)

def superclassWalk : Nat → Int → Bool
  | room, link =>
    if link = -1 then true
    else if link < 0 then false
    else match classes[link.toNat]?, room with
      | some cc, room + 1 => superclassWalk room cc.superClassIdx.toInt
      | _, _ => false

def superclassChainsValid : Bool := classes.all fun cc => superclassWalk classes classes.length cc.superClassIdx.toInt

end Build

inductive EndsAtNone (classes : List CompiledClass) : Nat → Prop where
  | none {c : Nat} {cc : CompiledClass} (row : classes[c]? = some cc) (ends : cc.superClassIdx.toInt = -1) :
      EndsAtNone classes c
  | super {c s : Nat} {cc : CompiledClass} (row : classes[c]? = some cc) (link : cc.superClassIdx.toInt = s)
      (above : EndsAtNone classes s) : EndsAtNone classes c

variable {classes : List CompiledClass}

theorem superclassWalk_start {room : Nat} {link : Int} (valid : superclassWalk classes room link) :
    link = -1 ∨ 0 ≤ link := by
  unfold superclassWalk at valid
  split at valid
  · exact .inl ‹_›
  · split at valid
    · cases valid
    · exact .inr (by omega)

theorem superclassChainsValid_link (valid : superclassChainsValid classes) {cc : CompiledClass} (member : cc ∈ classes) :
    cc.superClassIdx.toInt = -1 ∨ 0 ≤ cc.superClassIdx.toInt :=
  superclassWalk_start (List.all_eq_true.mp valid cc member)

def superIdx (classes : List CompiledClass) (c : Nat) : Option Nat :=
  match classes[c]? with
  | none => none
  | some cc => if cc.superClassIdx.toInt < 0 then none else some cc.superClassIdx.toInt.toNat

theorem superIdx_root {c : Nat} {cc : CompiledClass} (row : classes[c]? = some cc) (root : cc.superClassIdx.toInt = -1) :
    superIdx classes c = none := by
  rw [superIdx, row]
  exact if_pos (by omega)

theorem superIdx_super {c s : Nat} {cc : CompiledClass} (row : classes[c]? = some cc) (link : cc.superClassIdx.toInt = s) :
    superIdx classes c = some s := by
  rw [superIdx, row]
  dsimp only
  rw [if_neg (by omega), link, Int.toNat_natCast]

def LinksInRange (classes : List CompiledClass) : Prop := ∀ c s, superIdx classes c = some s → s < classes.length

theorem superChain_eq (inRange : LinksInRange classes) (room : Nat) {c : Nat} (inside : c < classes.length) :
    superChain classes room c = chainFrom (superIdx classes) room c := by
  induction room generalizing c with
  | zero => rfl
  | succ room ih =>
    have row := List.getElem?_eq_getElem inside
    rw [superChain, row]
    dsimp only
    by_cases root : classes[c].superClassIdx.toInt < 0
    · rw [if_pos root, chainFrom_root (by rw [superIdx, row]; exact if_pos root)]
    · have up : superIdx classes c = some classes[c].superClassIdx.toInt.toNat := by
        rw [superIdx, row]
        exact if_neg root
      rw [if_neg root, chainFrom_cons up, ih (inRange c _ up)]

private theorem mapM_of_some {α β : Type} {f : α → Option β} {g : α → β} {items : List α}
    (found : ∀ item ∈ items, f item = some (g item)) : items.mapM f = some (items.map g) := by
  induction items with
  | nil => rfl
  | cons item items ih =>
    rw [List.mapM_cons, found item (.head _), ih fun other member => found other (.tail _ member)]
    rfl

private theorem getElem?_of_mapM {α β : Type} {f : α → Option β} {items : List α} {results : List β}
    (mapped : items.mapM f = some results) {i : Nat} {item : α} (at_i : items[i]? = some item) :
    results[i]? = f item := by
  induction items generalizing results i with
  | nil => cases at_i
  | cons first items ih =>
    simp only [List.mapM_cons, Option.bind_eq_bind, Option.bind_eq_some_iff, Option.pure_def, Option.some.injEq] at mapped
    obtain ⟨result, made, rest, mapped, rfl⟩ := mapped
    cases i with
    | zero =>
      cases at_i
      exact made.symm
    | succ i => exact ih mapped at_i

theorem layout_of_build {layouts : List (List Entry)} (built : build classes = some layouts) {c : Nat}
    (inside : c < classes.length) : layouts[c]? = layoutOf classes c :=
  getElem?_of_mapM built (List.getElem?_range inside)

theorem build_of_acyclic (inRange : LinksInRange classes) (acyclic : Acyclic (superIdx classes)) :
    ∃ layouts, build classes = some layouts ∧ ∀ (c : Nat) (cc : CompiledClass), classes[c]? = some cc →
      (superIdx classes c = none → layouts[c]? = some (ownEntries cc)) ∧
      ∀ s, superIdx classes c = some s →
        ∃ base, layouts[s]? = some base ∧ layouts[c]? = some (base ++ ownEntries cc) := by
  have chains {c : Nat} (inside : c < classes.length) :
      ∃ chain, chainFrom (superIdx classes) classes.length c = some chain := by
    have closed : ∀ a ∈ List.range classes.length, ∀ b, superIdx classes a = some b → b ∈ List.range classes.length :=
      fun a _ b up => List.mem_range.mpr (inRange a b up)
    simpa using chainFrom_total acyclic closed (List.mem_range.mpr inside)
  let layout (c : Nat) := (layoutOf classes c).getD []
  have laidOut {c : Nat} (inside : c < classes.length) {chain : List Nat}
      (found : chainFrom (superIdx classes) classes.length c = some chain) :
      layoutOf classes c = some (chain.reverse.flatMap (fieldsOf classes)) := by
    rw [layoutOf, superChain_eq inRange _ inside, found, Option.map_some]
  have at_layout {c : Nat} (inside : c < classes.length) :
      ((List.range classes.length).map layout)[c]? = some (layout c) := by
    rw [List.getElem?_map, List.getElem?_range inside, Option.map_some]
  refine ⟨(List.range classes.length).map layout, mapM_of_some fun c member => ?_, fun c cc row => ⟨fun root => ?_, ?_⟩⟩
  · obtain ⟨chain, found⟩ := chains (List.mem_range.mp member)
    rw [laidOut (List.mem_range.mp member) found]
    simp [layout, laidOut (List.mem_range.mp member) found]
  · have inside := (List.getElem?_eq_some_iff.mp row).1
    obtain ⟨chain, found⟩ := chains inside
    have only : chain = [c] := by
      cases count : classes.length with
      | zero => omega
      | succ room =>
        rw [count, chainFrom_root root] at found
        exact (Option.some.inj found).symm
    rw [at_layout inside]
    simp [layout, laidOut inside found, only, fieldsOf, row]
  · intro s up
    have inside := (List.getElem?_eq_some_iff.mp row).1
    have above := inRange c s up
    obtain ⟨chain, found⟩ := chains inside
    obtain ⟨rest, found'⟩ := chains above
    have joined : chain = c :: rest := by
      have longer := chainFrom_more found
      rw [chainFrom_cons up, found', Option.map_some] at longer
      exact (Option.some.inj longer).symm
    refine ⟨layout s, at_layout above, ?_⟩
    rw [at_layout inside]
    simp [layout, laidOut inside found, laidOut above found', joined, fieldsOf, row]

end NLang.Vm.VmClassLayout
