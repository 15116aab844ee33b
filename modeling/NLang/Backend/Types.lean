import NLang.Vm.Tables

/-!
# Declared types

The declared type of a slot or a cell, as far as the backend tells types apart, and the runtime kind it
records for it (`backend/Types.cpp`).
-/

namespace NLang.Backend
open NLang.Vm

inductive DeclType where
  | scalar (kind : Rtk)
  | enum
  | string
  | struct (structIdx : Nat)
  | cls
  | object
  | func
  | typeParam
  | array
  | iface
  deriving DecidableEq

def runtimeTypeKind : DeclType → Rtk
  | .array => .array
  | .enum => .int32
  | .struct _ => .struct
  | .func => .func
  | .typeParam => .typeParam
  | .cls | .object => .cls
  | .string => .string
  | .scalar kind => if kind.scalarWidth.isSome then kind else .int32
  | .iface => .int32

end NLang.Backend
