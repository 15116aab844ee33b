import NLang.Backend.Types

/-!
# Type descriptors

Resolved types as the backend sees them and the descriptor that `BuildTypeDesc` (`TypeDesc.cpp`) writes for one.
The descriptor kinds are the runtime kinds and `RTK_NonSerialized`, which is `none` here.
-/

namespace NLang.Backend
open NLang.Vm

inductive GenericBase where
  | list | dict | array | other

inductive TypeNode where
  | missing
  | arrayToken (rank : Nat) (elem : TypeNode)
  | unresolvedArray
  | enumDecl
  | structDecl (decl : Nat)
  | interfaceDecl
  /-- The arguments of a func type are its return type and then its parameter types. -/
  | func (args : List TypeNode)
  | typeParam
  | generic (base : GenericBase) (args : List TypeNode) (decl : Nat)
  | classDecl (decl : Nat)
  | object
  | string
  | void
  /-- Any other type, with its row of the scalar registry if it has one. -/
  | builtin (kind : Rtk)

inductive TypeDesc where
  | mk (kind : Option Rtk) (typeIdx : Nat) (rank : Nat) (elems : List TypeDesc)

namespace TypeDesc

def kind : TypeDesc → Option Rtk
  | .mk kind _ _ _ => kind

def nonSerialized : TypeDesc := .mk none 0xFFFF 1 []

def leaf (kind : Rtk) : TypeDesc := .mk (some kind) 0xFFFF 1 []

def indexed (kind : Rtk) (typeIdx : Nat) : TypeDesc := .mk (some kind) typeIdx 1 []

def nested (kind : Rtk) (elems : List TypeDesc) : TypeDesc := .mk (some kind) 0xFFFF 1 elems

def array (rank : Nat) (elem : TypeDesc) : TypeDesc := .mk (some .array) 0xFFFF rank [elem]

end TypeDesc

structure TypeLeafSlots where
  structSlotOf : Nat → Nat
  classSlotOf : TypeNode → Nat

def kMaxTypeDescDepth : Nat := 8

def atDepth (depth : Nat) (desc : TypeDesc) : TypeDesc :=
  if kMaxTypeDescDepth ≤ depth then .nonSerialized else desc

section Build
variable (slots : TypeLeafSlots)

def classDesc (type : TypeNode) : TypeDesc := .indexed .cls (slots.classSlotOf type % 2 ^ 16)

mutual
def buildTypeDesc : TypeNode → Nat → TypeDesc
  | .missing, _ | .unresolvedArray, _ | .interfaceDecl, _ => .nonSerialized
  | .arrayToken rank elem, depth => atDepth depth (.array rank (buildTypeDesc elem (depth + 1)))
  | .enumDecl, _ => .leaf .int32
  | .structDecl decl, _ => .indexed .struct (slots.structSlotOf decl % 2 ^ 16)
  | .func [], _ => .nonSerialized
  | .func (ret :: params), depth =>
    atDepth depth (.nested .func (buildTypeDescs params (depth + 1) ++
      [match ret with
        | .void => .leaf .void
        | ret => buildTypeDesc ret (depth + 1)]))
  | .typeParam, _ => .leaf .typeParam
  | .generic .list [elem] _, depth => atDepth depth (.nested .list [buildTypeDesc elem (depth + 1)])
  | .generic .dict [key, value] _, depth =>
    atDepth depth (.nested .dict [buildTypeDesc key (depth + 1), buildTypeDesc value (depth + 1)])
  | .generic .array [elem] _, depth => atDepth depth (.array 0 (buildTypeDesc elem (depth + 1)))
  | .generic base args decl, _ => classDesc slots (.generic base args decl)
  | .classDecl decl, _ => classDesc slots (.classDecl decl)
  | .object, _ => classDesc slots .object
  | .string, _ => .leaf .string
  | .void, _ => .nonSerialized
  | .builtin kind, _ => if kind.scalarWidth.isSome then .leaf kind else .nonSerialized

def buildTypeDescs : List TypeNode → Nat → List TypeDesc
  | [], _ => []
  | type :: rest, depth => buildTypeDesc type depth :: buildTypeDescs rest depth
end

end Build

end NLang.Backend
