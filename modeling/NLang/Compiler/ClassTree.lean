import NLang.Compiler.ClassStubs
import NLang.Library.ParentChains

/-!
# Classes of a tree and their superclasses

The class declarations of a merged tree as far as instance fields read them: those of the build, and the stubs that
`CompiledModuleNodeBuilder` adds for the own classes of an image. Superclass links are indices of the class table.
-/

namespace NLang.Compiler
open NLang.Image NLang.Library.ParentChains

structure SnClassField where
  name : Text
  isStatic : Bool := false
  deriving DecidableEq

inductive ClassOwner where
  | preludePackage | bindingPackage | other
  deriving DecidableEq

structure ClassNode where
  key : Text
  name : Text
  owner : ClassOwner := .other
  isImported : Bool := false
  isBuiltin : Bool := false
  fields : List SnClassField := []
  superClass : Option Nat := none
  deriving DecidableEq

inductive ClassTree.RootMember where
  | classDecl (index : Nat)
  | other (name : Text)

structure ClassTree where
  classes : List ClassNode
  root : List ClassTree.RootMember

def handleClassNames : List Text :=
  [[66, 121, 116, 101, 83, 116, 114, 101, 97, 109], [70, 105, 108, 101, 83, 116, 114, 101, 97, 109],
    [76, 105, 115, 116], [68, 105, 99, 116], [84, 104, 114, 101, 97, 100], [77, 117, 116, 101, 120],
    [67, 104, 97, 110, 110, 101, 108], [70, 117, 116, 117, 114, 101], [83, 101, 109, 97, 112, 104, 111, 114, 101],
    [80, 114, 111, 109, 105, 115, 101], [82, 101, 101, 110, 116, 114, 97, 110, 116, 77, 117, 116, 101, 120],
    [65, 116, 111, 109, 105, 99, 73, 110, 116]]

def kObjectName : Text := [79, 98, 106, 101, 99, 116]

def faceClassNames : List Text := [[83, 116, 114, 105, 110, 103], [65, 114, 114, 97, 121]]

def kHandleFieldName : Text := [95, 95, 104, 97, 110, 100, 108, 101]

namespace ClassNode
variable (node : ClassNode)

def isHandleClassDecl : Bool := decide (node.name ∈ handleClassNames) && decide (node.owner ≠ .other)

def isPreludeFaceClass : Bool := decide (node.owner = .preludePackage) && decide (node.name ∈ faceClassNames)

def handleSlots : Nat := if node.isHandleClassDecl then 1 else 0

def instanceFields (fields : List SnClassField) : List SnClassField := fields.filter fun field => !field.isStatic

def ownSlots : Nat := node.handleSlots + (instanceFields node.fields).length

def ownFieldNames : List Text :=
  (if node.isHandleClassDecl then [kHandleFieldName] else []) ++ (instanceFields node.fields).map (·.name)

def registerClassDecl : CompiledClass :=
  { name := node.key, fieldNames := node.ownFieldNames, fieldCount := UInt16.ofNat node.ownFieldNames.length }

end ClassNode

namespace ClassTree

section Tree
variable (tree : ClassTree)

def memberName : RootMember → Text
  | .classDecl i => (tree.classes[i]?.map (·.name)).getD []
  | .other name => name

def nameExistsInRoot (name : Text) : Bool := tree.root.any (tree.memberName · = name)

def findField (name : Text) : Option RootMember := tree.root.find? (tree.memberName · = name)

def addStub (node : ClassNode) : ClassTree :=
  { classes := tree.classes ++ [node], root := tree.root ++ [.classDecl tree.classes.length] }

end Tree

def stubFieldsOf (cc : CompiledClass) : List SnClassField :=
  ((cc.fieldNames.take (stubFields cc)).map fun name => { name := name }) ++
    cc.staticFields.map fun field => { name := field.name, isStatic := true }

def createClassStub (owner : ClassOwner) (cc : CompiledClass) : ClassNode :=
  { key := cc.name, name := leafNameOfKey cc.name, owner, isImported := true, fields := stubFieldsOf cc }

def mintStubs (owner : ClassOwner) : List CompiledClass → ClassTree → List (Nat × CompiledClass) × ClassTree
  | [], tree => ([], tree)
  | cc :: rest, tree =>
    if tree.nameExistsInRoot (leafNameOfKey cc.name) then mintStubs owner rest tree
    else
      let (minted, final) := mintStubs owner rest (tree.addStub (createClassStub owner cc))
      ((tree.classes.length, cc) :: minted, final)

def linkSuperclassStub (tree : ClassTree) (cm : CompiledModule) (minted : List (Nat × CompiledClass))
    (cc : CompiledClass) : Option Nat :=
  let idx := cc.superClassIdx.toInt
  if idx < 0 ∨ (Int16.ofNat cm.classes.length).toInt ≤ idx then none
  else
    match cm.classes[idx.toNat]? with
    | none => none
    | some super =>
      let superLeaf := leafNameOfKey super.name
      match minted.find? (leafNameOfKey ·.2.name = superLeaf) with
      | some (peer, _) => some peer
      | none =>
        match tree.findField superLeaf with
        | some (.classDecl i) =>
          match tree.classes[i]? with
          | some node => if node.isImported ∨ node.isBuiltin ∨ node.owner = .preludePackage then some i else none
          | none => none
        | _ => none

def loadModule (tree : ClassTree) (image : ClassOwner × CompiledModule) : ClassTree :=
  let (minted, tree) := mintStubs image.1 image.2.ownClasses tree
  { tree with
    classes := minted.foldl (fun classes (i, cc) =>
      classes.modify i fun node => { node with superClass := linkSuperclassStub tree image.2 minted cc }) tree.classes }

def IsStubOf (owner : ClassOwner) (cc : CompiledClass) (node : ClassNode) : Prop :=
  ∃ super, node = { createClassStub owner cc with superClass := super }

theorem mintStubs_grows {owner : ClassOwner} {rows : List CompiledClass} {tree final : ClassTree}
    {minted : List (Nat × CompiledClass)} (made : mintStubs owner rows tree = (minted, final)) :
    (∃ stubs, final.classes = tree.classes ++ stubs ∧ ∀ node ∈ stubs, ∃ cc ∈ rows, IsStubOf owner cc node) ∧
      ∀ entry ∈ minted, tree.classes.length ≤ entry.1 := by
  induction rows generalizing tree minted with
  | nil =>
    cases made
    exact ⟨⟨[], (List.append_nil _).symm, fun _ member => nomatch member⟩, fun _ member => nomatch member⟩
  | cons cc rest ih =>
    rw [mintStubs] at made
    split at made
    · obtain ⟨⟨stubs, classes, stubOf⟩, later⟩ := ih made
      refine ⟨⟨stubs, classes, fun node member => ?_⟩, later⟩
      obtain ⟨cc', inside, made⟩ := stubOf node member
      exact ⟨cc', .tail _ inside, made⟩
    · generalize made' : mintStubs owner rest (tree.addStub (createClassStub owner cc)) = result at made
      obtain ⟨minted', final'⟩ := result
      cases made
      obtain ⟨⟨stubs, classes, stubOf⟩, later⟩ := ih made'
      constructor
      · refine ⟨createClassStub owner cc :: stubs, by rw [classes, addStub]; simp, fun node member => ?_⟩
        rcases List.mem_cons.mp member with rfl | member
        · exact ⟨cc, .head _, none, rfl⟩
        · obtain ⟨cc', inside, made⟩ := stubOf node member
          exact ⟨cc', .tail _ inside, made⟩
      · intro entry member
        rcases List.mem_cons.mp member with rfl | member
        · exact Nat.le_refl _
        · have := later entry member
          rw [addStub, List.length_append] at this
          exact Nat.le_trans (Nat.le_add_right _ _) this

private theorem relinked_class (link : CompiledClass → Option Nat) {links : List (Nat × CompiledClass)}
    (P : Nat → ClassNode → Prop) {table : List ClassNode}
    (keeps : ∀ entry ∈ links, ∀ node, P entry.1 node → P entry.1 { node with superClass := link entry.2 })
    (start : ∀ j node, table[j]? = some node → P j node) (j : Nat) (node : ClassNode)
    (row : (links.foldl (fun classes (i, cc) =>
      classes.modify i fun node => { node with superClass := link cc }) table)[j]? = some node) : P j node := by
  induction links generalizing table with
  | nil => exact start j node row
  | cons entry links ih =>
    rw [List.foldl_cons] at row
    refine ih (fun other member => keeps other (.tail _ member)) (fun k node row => ?_) row
    rw [List.getElem?_modify] at row
    split at row
    · rename_i here
      subst here
      rw [Option.map_eq_map, Option.map_eq_some_iff] at row
      obtain ⟨node', row, rfl⟩ := row
      exact keeps entry (.head _) node' (start _ node' row)
    · rw [Option.map_eq_map, Option.map_id'] at row
      exact start k node row

theorem loadModule_class {tree : ClassTree} {image : ClassOwner × CompiledModule} {i : Nat} {node : ClassNode}
    (row : (tree.loadModule image).classes[i]? = some node) :
    tree.classes[i]? = some node ∨ ∃ cc ∈ image.2.ownClasses, IsStubOf image.1 cc node := by
  rw [loadModule] at row
  generalize made : mintStubs image.1 image.2.ownClasses tree = result at row
  obtain ⟨minted, final⟩ := result
  dsimp only at row
  obtain ⟨⟨stubs, classes, stubOf⟩, later⟩ := mintStubs_grows made
  let Old (j : Nat) (node : ClassNode) : Prop :=
    tree.classes[j]? = some node ∨ ∃ cc ∈ image.2.ownClasses, IsStubOf image.1 cc node
  refine relinked_class _ Old (fun entry member node stub => ?_) (fun j node row => ?_) i node row
  · rcases stub with old | ⟨cc, inside, super, rfl⟩
    · have := (List.getElem?_eq_some_iff.mp old).1
      have := later entry member
      omega
    · exact .inr ⟨cc, inside, _, rfl⟩
  · rw [classes] at row
    by_cases old : j < tree.classes.length
    · rw [List.getElem?_append_left old] at row
      exact .inl row
    · rw [List.getElem?_append_right (by omega)] at row
      exact .inr (stubOf node (List.mem_of_getElem? row))

section Tree
variable (tree : ClassTree)

def findPreludeClassDecl (name : Text) : Option Nat :=
  tree.classes.findIdx? fun node => node.owner = .preludePackage ∧ node.name = name

def superOf (i : Nat) : Option Nat :=
  match tree.classes[i]? with
  | none => none
  | some node =>
    match node.superClass with
    | some super => some super
    | none =>
      if node.isPreludeFaceClass then none
      else (tree.findPreludeClassDecl kObjectName).filter (· ≠ i)

/-- A class and its superclasses; nothing where the walk does not end. -/
def superChain (i : Nat) : Option (List Nat) := chainFrom tree.superOf tree.classes.length i

def keyAt (i : Nat) : Option Text := tree.classes[i]?.map (·.key)

def fieldsAt (i : Nat) : List SnClassField := (tree.classes[i]?.map (·.fields)).getD []

/-- `DuplicateFieldChecker` on the fields of a class: no name twice, and none of a superclass's. -/
def fieldsDistinct (i : Nat) : Option Bool :=
  (tree.superChain i).map fun chain =>
    let own := (tree.fieldsAt i).map (·.name)
    decide own.Nodup && chain.tail.all fun super => (tree.fieldsAt super).all fun field => field.name ∉ own

def Accepted : Prop := ∀ i < tree.classes.length, tree.fieldsDistinct i = some true

instance : Decidable tree.Accepted :=
  inferInstanceAs (Decidable (∀ i < tree.classes.length, tree.fieldsDistinct i = some true))

end Tree

end ClassTree

end NLang.Compiler
