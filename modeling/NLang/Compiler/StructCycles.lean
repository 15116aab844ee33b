import NLang.Compiler.Declarations
import NLang.Library.DepthFirst

/-!
# Circular structs

`CheckStructCircularRefs` of `ModuleBuilderChecks.cpp`, on the merged tree after its types are resolved. The stubs of
imported structs are members of the root like the declarations of the build. The grammar nests no namespaces.
-/

namespace NLang.Compiler
open NLang.Library NLang.Library.DepthFirst NLang.Image

inductive FieldType where
  | structDecl (node : Nat)
  | other

structure SnStructDecl where
  name : Identifier
  fields : List FieldType

inductive NamespaceMember where
  | structDecl (node : Nat)
  | other

inductive RootMember where
  | structDecl (node : Nat)
  | funcParent (members : List NamespaceMember)
  | other

structure StructTree where
  members : List RootMember
  decl : Nat → SnStructDecl

namespace StructTree
variable (tree : StructTree)

def Declares (node : Nat) : Prop :=
  .structDecl node ∈ tree.members ∨ ∃ members, .funcParent members ∈ tree.members ∧ .structDecl node ∈ members

def Contains (node inner : Nat) : Prop := tree.Declares node ∧ .structDecl inner ∈ (tree.decl node).fields

def collectStructs : List Nat :=
  tree.members.flatMap fun member =>
    match member with
    | .structDecl node => [node]
    | .funcParent members => members.filterMap fun child =>
      match child with
      | .structDecl node => some node
      | .other => none
    | .other => []

def fieldStructs (node : Nat) : List Nat :=
  (tree.decl node).fields.filterMap fun type =>
    match type with
    | .structDecl inner => some inner
    | .other => none

def structDeps (node : Nat) : List Nat := if node ∈ tree.collectStructs then tree.fieldStructs node else []

def searchNodes : List Nat := tree.collectStructs ++ tree.collectStructs.flatMap tree.fieldStructs

def formatCycleText (cycle : List Nat) : Text := List.intercalate [32, 45, 62, 32] (cycle.map fun node => (tree.decl node).name.text)

def checkStructCircularRefs : Option Text :=
  match search tree.structDeps (tree.searchNodes.length + 1) tree.collectStructs with
  | some (.error cycle) => some (tree.formatCycleText cycle)
  | _ => none

variable {tree}

theorem mem_collectStructs {node : Nat} : node ∈ tree.collectStructs ↔ tree.Declares node := by
  rw [collectStructs, List.mem_flatMap, Declares]
  constructor
  · rintro ⟨member, inside, found⟩
    cases member with
    | structDecl other =>
      cases List.mem_singleton.mp found
      exact .inl inside
    | funcParent members =>
      obtain ⟨child, inMembers, isNode⟩ := List.mem_filterMap.mp found
      cases child with
      | structDecl other =>
        cases isNode
        exact .inr ⟨members, inside, inMembers⟩
      | other => cases isNode
    | other => cases found
  · rintro (inside | ⟨members, inside, inMembers⟩)
    · exact ⟨_, inside, .head _⟩
    · exact ⟨_, inside, List.mem_filterMap.mpr ⟨_, inMembers, rfl⟩⟩

theorem mem_fieldStructs {node inner : Nat} : inner ∈ tree.fieldStructs node ↔ .structDecl inner ∈ (tree.decl node).fields := by
  rw [fieldStructs, List.mem_filterMap]
  constructor
  · rintro ⟨type, member, found⟩
    cases type with
    | structDecl other =>
      cases found
      exact member
    | other => cases found
  · exact fun member => ⟨_, member, rfl⟩

theorem edge_structDeps {node inner : Nat} : Edge tree.structDeps node inner ↔ tree.Contains node inner := by
  rw [Edge, structDeps, Contains, ← mem_collectStructs, ← mem_fieldStructs]
  split
  · rename_i collected
    exact (and_iff_right collected).symm
  · rename_i absent
    exact ⟨fun member => (nomatch member), fun both => absurd both.1 absent⟩

theorem search_ends :
    search tree.structDeps (tree.searchNodes.length + 1) tree.collectStructs ≠ none := by
  refine search_total (fun node member inner below => ?_) (List.subset_append_left _ _) (Nat.lt_succ_self _)
  obtain ⟨declared, field⟩ := edge_structDeps.mp below
  exact List.mem_append_right _
    (List.mem_flatMap.mpr ⟨node, mem_collectStructs.mpr declared, mem_fieldStructs.mpr field⟩)

theorem contains_acyclic (accepted : tree.checkStructCircularRefs = none) (node : Nat) :
    ¬ Relation.TransGen tree.Contains node node := by
  have edges : tree.Contains = Edge tree.structDeps := by
    funext outer inner
    exact propext edge_structDeps.symm
  rw [checkStructCircularRefs] at accepted
  intro cycle
  obtain ⟨inner, first, -⟩ := Relation.TransGen.head'_iff.mp cycle
  rw [edges] at cycle
  cases found : search tree.structDeps (tree.searchNodes.length + 1) tree.collectStructs with
  | none => exact search_ends found
  | some result =>
    rw [found] at accepted
    cases result with
    | error reported => cases accepted
    | ok visited => exact search_ok found (mem_collectStructs.mpr first.1) cycle

end StructTree

end NLang.Compiler
