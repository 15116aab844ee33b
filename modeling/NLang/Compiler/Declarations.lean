import NLang.Image.Records

/-!
# Declarations of a build

The merged syntax tree of a build as far as registration and cross-unit references read it: the top-level
declarations of all units in tree order, the functions in them (`SnMisc.h`, `SnData.h`), and the module that owns each
(`ModuleRegistry`). The grammar nests neither types nor namespaces.
-/

namespace NLang.Compiler
open NLang.Library.Words NLang.Image

@[ext]
structure Identifier where
  text : Text
  noDot : dot ∉ text := by decide
  nonempty : text ≠ [] := by decide
  deriving DecidableEq

def identifierA : Identifier := { text := [65] }
def identifierS : Identifier := { text := [83] }
def identifierF : Identifier := { text := [102] }

def kStaticInitFuncName : Text := [36, 115, 116, 97, 116, 105, 99, 73, 110, 105, 116]

structure SnFunction where
  name : Identifier
  params : Nat := 0
  access : UInt8 := 0
  isStatic : Bool := false
  isVirtual : Bool := false
  isNative : Bool := false
  hasBody : Bool := true
  deriving DecidableEq

def SnFunction.isStaticInit (fn : SnFunction) : Bool := fn.name.text = kStaticInitFuncName

inductive SnMember where
  | function (fn : SnFunction)
  | classField
  deriving DecidableEq

inductive Genericity where
  | plain | declaration | instantiation
  deriving DecidableEq

def functionAt : SnMember × Nat → Option (Nat × SnFunction)
  | (.function fn, position) => some (position, fn)
  | (.classField, _) => none

def memberFunctions (members : List SnMember) : List (Nat × SnFunction) := members.zipIdx.filterMap functionAt

structure SnClassDecl where
  name : Identifier
  genericity : Genericity := .plain
  members : List SnMember
  deriving DecidableEq

namespace SnClassDecl
variable (cls : SnClassDecl)

def functions : List (Nat × SnFunction) := memberFunctions cls.members

def isCtor (fn : SnFunction) : Bool := fn.name = cls.name && !fn.isStatic

end SnClassDecl

inductive DeclNode where
  | function (fn : SnFunction)
  | classDecl (cls : SnClassDecl)
  | structDecl (name : Identifier) (ctors : List SnFunction)
  | enumDecl (name : Identifier) (methods : List SnFunction)
  | interfaceDecl (name : Identifier) (members : List SnFunction)
  | globalField (name : Identifier)
  deriving DecidableEq

/-- A top-level declaration. `owner` is a module index, or none for `NO_OWNER`; members have the owner of their
declaration. `NF_Imported` marks the stubs of images, with all their members. -/
structure Decl where
  owner : Option Nat
  isImported : Bool := false
  node : DeclNode
  deriving DecidableEq

namespace DeclNode

def name : DeclNode → Identifier
  | function fn => fn.name
  | classDecl cls => cls.name
  | structDecl name _ | enumDecl name _ | interfaceDecl name _ | globalField name => name

def hasThisReceiver : DeclNode → SnFunction → Bool
  | classDecl _, fn | structDecl _ _, fn | enumDecl _ _, fn => !fn.isStatic
  | _, _ => false

def functions : DeclNode → List (Nat × SnFunction)
  | function fn => [(0, fn)]
  | classDecl cls => cls.functions
  | structDecl _ fns | enumDecl _ fns | interfaceDecl _ fns => fns.zipIdx.map fun (fn, position) => (position, fn)
  | globalField _ => []

end DeclNode

def SnFunction.hasImplementation (fn : SnFunction) (isImported : Bool) (cls : SnClassDecl) : Bool :=
  isImported || fn.hasBody || fn.isNative || cls.genericity = .instantiation

structure Build where
  root : List Decl
  modules : List Text
  attached : ∀ decl ∈ root, ∀ cls, decl.node = .classDecl cls → cls.genericity ≠ .instantiation
  oneStaticInit : ∀ decl ∈ root, ∀ cls, decl.node = .classDecl cls →
    (cls.functions.filter (·.2.isStaticInit)).length ≤ 1

namespace Build
variable (build : Build)

def preludePackages : List Text := [[108, 97, 110, 103], [99, 111, 110, 116, 97, 105, 110, 101, 114, 115]]

def modulePathOf (owner : Option Nat) : Text := (owner.bind (build.modules[·]?)).getD []

def isPreludeModule (owner : Option Nat) : Bool :=
  match owner.bind (build.modules[·]?) with
  | some path => path ∈ preludePackages
  | none => false

def qualifiedName (decl : Decl) : Text :=
  match build.modulePathOf decl.owner with
  | [] => decl.node.name.text
  | pkg => pkg ++ dot :: decl.node.name.text

def keyOf (decl : Decl) : Text :=
  match decl.node with
  | .classDecl { genericity := .declaration, name, .. } | .classDecl { genericity := .instantiation, name, .. } =>
    name.text
  | _ => if build.isPreludeModule decl.owner then decl.node.name.text else build.qualifiedName decl

def functionKey (decl : Decl) (fn : SnFunction) : Text :=
  match decl.node with
  | .enumDecl _ _ => build.keyOf decl ++ dot :: fn.name.text
  | .interfaceDecl _ _ => if fn.isStatic then build.keyOf decl ++ dot :: fn.name.text else fn.name.text
  | .classDecl _ | .structDecl _ _ => fn.name.text
  | .function _ | .globalField _ => build.keyOf decl

theorem keyOf_nonempty (decl : Decl) : build.keyOf decl ≠ [] := by
  have bare := decl.node.name.nonempty
  have qualified : build.qualifiedName decl ≠ [] := by
    unfold qualifiedName
    split
    · exact bare
    · exact List.append_ne_nil_of_right_ne_nil _ (List.cons_ne_nil _ _)
  unfold keyOf
  split
  · rename_i node
    rw [node] at bare
    exact bare
  · rename_i node
    rw [node] at bare
    exact bare
  · split
    · exact bare
    · exact qualified

theorem leafNameOfKey_keyOf (decl : Decl) : leafNameOfKey (build.keyOf decl) = decl.node.name.text := by
  have bare := leafNameOfKey_of_no_dot decl.node.name.noDot
  have qualified : leafNameOfKey (build.qualifiedName decl) = decl.node.name.text := by
    unfold qualifiedName
    split
    · exact bare
    · exact leafNameOfKey_append _ decl.node.name.noDot
  unfold keyOf
  split
  · rename_i node
    rw [node] at bare
    rw [node]
    exact bare
  · rename_i node
    rw [node] at bare
    rw [node]
    exact bare
  · split
    · exact bare
    · exact qualified

end Build

end NLang.Compiler
