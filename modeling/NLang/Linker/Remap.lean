import NLang.Vm.Bytecode

/-!
# Remapping of bytecode operands

`src/vm/NcuLinkerRemap.cpp`. The body of a function is rewritten in place: operands that are indices into tables of
the unit become indices into the merged tables. A read outside of the body is undefined in the source; here it is
the outcome `overrun`.
-/

namespace NLang.Linker
open NLang.Library.Words NLang.Vm

structure NcuOperandMaps where
  strings : Nat → Option Nat
  functions : Nat → Option Nat
  classes : Nat → Option Nat
  structs : Nat → Option Nat
  arrayTypes : Nat → Option Nat
  enums : Nat → Option Nat
  interfaces : Nat → Option Nat
  slots : Nat → Option Nat

def NcuOperandMaps.table (maps : NcuOperandMaps) : Table → Nat → Option Nat
  | .strings => maps.strings
  | .functions => maps.functions
  | .classes => maps.classes
  | .structs => maps.structs
  | .arrayTypes => maps.arrayTypes
  | .enums => maps.enums
  | .interfaces => maps.interfaces
  | .slots => maps.slots

inductive RemapError where
  | unmapped (table : Table) (index : Nat)
  | unknownOpcode
  | overrun

section Patch
variable (maps : NcuOperandMaps) (bc : Bytes) (pos : Nat)

def readUint16 (off : Nat) : Except RemapError Nat :=
  if Inside bc off 2 then .ok (wordAt 2 bc off) else .error .overrun

def patchOperand (off : Nat) (table : Table) : Except RemapError Bytes := do
  let oldv ← readUint16 bc off
  match maps.table table oldv with
  | none => .error (.unmapped table oldv)
  | some newv => .ok (overwrite bc off (putWord 2 newv))

def patchNameOperands : OpCode → Except RemapError Bytes
  | .opConstString | .opAssertFail | .opCallMethod | .opMakeVFunc => patchOperand maps bc (pos + 1) .strings
  | .opCallFunc | .opCallMethodDirect | .opCallFuncOut | .opCallMethodDirectOut | .opMakeFunc | .opMakeBoundFunc =>
    patchOperand maps bc (pos + 1) .functions
  | _ => .ok bc

def patchTypeOperands : OpCode → Except RemapError Bytes
  | .opNew => patchOperand maps bc (pos + 3) .classes
  | .opCheckCast => patchOperand maps bc (pos + 1) .classes
  | .opCheckArrayType => patchOperand maps bc (pos + 5) .arrayTypes
  | .opAllocStruct => patchOperand maps bc (pos + 3) .structs
  | .opCopyStruct => patchOperand maps bc (pos + 5) .structs
  | .opAllocArrayN | .opAssembleArrayN => patchOperand maps bc (pos + 3) .arrayTypes
  | .opMakeArrayView => patchOperand maps bc (pos + 5) .arrayTypes
  | .opEnumToStr => patchOperand maps bc (pos + 1) .enums
  | .opLoadStatic => patchOperand maps bc (pos + 3) .slots
  | .opStoreStatic => patchOperand maps bc (pos + 1) .slots
  | .opSlotInitGate | .opSlotInitDone | .opSlotInitFail => patchOperand maps bc (pos + 1) .slots
  | _ => .ok bc

def patchClassInitOperands (op : OpCode) : Except RemapError Bytes :=
  match op with
  | .opClassInitGate | .opClassInitDone | .opClassInitFail => do
      let kind ← readUint16 bc (if op = .opClassInitGate then pos + 5 else pos + 3)
      patchOperand maps bc (pos + 1) (if kind = 1 then .interfaces else .classes)
  | _ => .ok bc

def patchOperands (op : OpCode) : Except RemapError Bytes := do
  let bc ← patchNameOperands maps bc pos op
  let bc ← patchTypeOperands maps bc pos op
  patchClassInitOperands maps bc pos op

end Patch

def remapLoop (maps : NcuOperandMaps) : Nat → Bytes → Nat → List Nat → Except RemapError (Bytes × List Nat)
  | 0, bc, _, visited => .ok (bc, visited)
  | fuel + 1, bc, pos, visited =>
    match bc[pos]? with
    | none => .ok (bc, visited)
    | some code =>
      match OpCode.ofByte code with
      | none => .error .unknownOpcode
      | some op => do
          let bc ← patchOperands maps bc pos op
          match instructionStride op with
          | none => .error .unknownOpcode
          | some stride => remapLoop maps fuel bc (pos + stride) (visited ++ [pos])

def ncuRemapBytecodeOperands (maps : NcuOperandMaps) (bytecode : Bytes) : Except RemapError (Bytes × List Nat) :=
  remapLoop maps bytecode.length bytecode 0 []

end NLang.Linker
