import NLang.Library.Words

/-!
# Bytecode

`src/vm/BytecodeOps.h` and the operands that the handlers of `VmExecutorOps*.cpp` read, in the order in which they
read them. An instruction is its opcode byte followed by its operands.
-/

namespace NLang.Vm
open NLang.Library.Words

inductive OpCode where
  | opReturn | opJump | opJumpIfNot | opStop | opAssertFail | opConstInt32 | opConstFloat | opConstString
  | opConstZero | opConstInt64 | opConstDouble | opVarLocal | opAssign | opPrimCast | opPrimToStr | opEnumToStr
  | opArrayToStr | opAdd | opSub | opMul | opDiv | opMod | opNeg | opCmp | opLogicalNot | opCallFunc | opParaEnd
  | opSwitch | opCase | opConcatStr | opEqStr | opNeStr | opLessStr | opLessEqualStr | opGreaterStr
  | opGreaterEqualStr | opStrLen | opDebugInfo | opAllocStruct | opLoadField | opStoreField | opCopyStruct | opNew
  | opCallMethod | opCallMethodDirect | opCallIntrinsic | opNullCheck | opAllocArrayN | opLoadElementN
  | opStoreElementN | opAssembleArrayN | opLoadElementFlat | opArrayLength | opArrayShape | opMakeArrayView | opBox
  | opUnbox | opCheckCast | opThrow | opRethrow | opPopHandler | opCallFuncOut | opCallMethodDirectOut | opMakeFunc
  | opCallDelegate | opEqFunc | opNeFunc | opFuncToStr | opMakeBoundFunc | opMakeVFunc | opCallDelegateOut
  | opStrByteAt | opStrForeachStep | opShl | opShr | opLoadStatic | opStoreStatic | opClassInitGate | opClassInitDone
  | opClassInitFail | opSlotInitGate | opSlotInitDone | opSlotInitFail | opCheckArrayRank | opCheckArrayType
  | opLoadElementDyn | opStoreElementDyn | opAllocArrayDyn
  deriving DecidableEq

def OpCode.all : List OpCode := [
  .opReturn, .opJump, .opJumpIfNot, .opStop, .opAssertFail, .opConstInt32, .opConstFloat, .opConstString,
  .opConstZero, .opConstInt64, .opConstDouble, .opVarLocal, .opAssign, .opPrimCast, .opPrimToStr, .opEnumToStr,
  .opArrayToStr, .opAdd, .opSub, .opMul, .opDiv, .opMod, .opNeg, .opCmp, .opLogicalNot, .opCallFunc, .opParaEnd,
  .opSwitch, .opCase, .opConcatStr, .opEqStr, .opNeStr, .opLessStr, .opLessEqualStr, .opGreaterStr,
  .opGreaterEqualStr, .opStrLen, .opDebugInfo, .opAllocStruct, .opLoadField, .opStoreField, .opCopyStruct, .opNew,
  .opCallMethod, .opCallMethodDirect, .opCallIntrinsic, .opNullCheck, .opAllocArrayN, .opLoadElementN,
  .opStoreElementN, .opAssembleArrayN, .opLoadElementFlat, .opArrayLength, .opArrayShape, .opMakeArrayView, .opBox,
  .opUnbox, .opCheckCast, .opThrow, .opRethrow, .opPopHandler, .opCallFuncOut, .opCallMethodDirectOut, .opMakeFunc,
  .opCallDelegate, .opEqFunc, .opNeFunc, .opFuncToStr, .opMakeBoundFunc, .opMakeVFunc, .opCallDelegateOut,
  .opStrByteAt, .opStrForeachStep, .opShl, .opShr, .opLoadStatic, .opStoreStatic, .opClassInitGate, .opClassInitDone,
  .opClassInitFail, .opSlotInitGate, .opSlotInitDone, .opSlotInitFail, .opCheckArrayRank, .opCheckArrayType,
  .opLoadElementDyn, .opStoreElementDyn, .opAllocArrayDyn]

def OpCode.ofByte (code : UInt8) : Option OpCode := OpCode.all[code.toNat]?

def kStrideNoOperands : List OpCode := [
  .opReturn, .opStop, .opConstZero, .opArrayToStr, .opFuncToStr, .opParaEnd, .opRethrow, .opPopHandler]

def kStrideByteTag : List OpCode := [.opPrimToStr, .opBox, .opUnbox]

def kStrideOneWord : List OpCode := [
  .opJump, .opCase, .opConstString, .opAssertFail, .opVarLocal, .opAssign, .opEnumToStr, .opLogicalNot, .opSwitch,
  .opDebugInfo, .opNullCheck, .opCheckCast, .opThrow, .opMakeFunc, .opMakeBoundFunc, .opMakeVFunc, .opSlotInitDone,
  .opSlotInitFail]

def kStrideKindWord : List OpCode := [.opNeg]

def kStrideKindByte : List OpCode := [.opPrimCast]

def kStrideTwoWords : List OpCode := [
  .opJumpIfNot, .opConcatStr, .opEqStr, .opNeStr, .opLessStr, .opLessEqualStr, .opGreaterStr, .opGreaterEqualStr,
  .opStrLen, .opCallFunc, .opCallMethod, .opCallMethodDirect, .opCallIntrinsic, .opCallDelegate, .opEqFunc, .opNeFunc,
  .opNew, .opArrayLength, .opArrayShape, .opLoadStatic, .opStoreStatic, .opClassInitDone, .opClassInitFail,
  .opSlotInitGate]

def kStrideKindTwoWords : List OpCode := [.opAdd, .opSub, .opMul, .opDiv, .opMod, .opShl, .opShr]

def kStrideThreeWords : List OpCode := [
  .opAllocStruct, .opLoadField, .opStoreField, .opCopyStruct, .opLoadElementFlat, .opStrByteAt, .opClassInitGate,
  .opCheckArrayRank, .opCheckArrayType, .opAllocArrayDyn]

def kStrideFourWords : List OpCode := [
  .opLoadElementN, .opStoreElementN, .opLoadElementDyn, .opStoreElementDyn, .opAssembleArrayN, .opAllocArrayN,
  .opStrForeachStep]

def kStrideFiveWords : List OpCode := [.opMakeArrayView]

def kStrideOutMaskWords : List OpCode := [.opCallFuncOut, .opCallMethodDirectOut, .opCallDelegateOut]

def kStrideCmpHead : List OpCode := [.opCmp]

def kStrideConst32 : List OpCode := [.opConstInt32, .opConstFloat]

def kStrideConst64 : List OpCode := [.opConstInt64, .opConstDouble]

def kStrideGroups : List (List OpCode × Nat) := [
  (kStrideNoOperands, 1), (kStrideByteTag, 1 + 1), (kStrideOneWord, 1 + 2), (kStrideKindWord, 1 + 1 + 2),
  (kStrideKindByte, 1 + 1 + 1), (kStrideTwoWords, 1 + 2 + 2), (kStrideKindTwoWords, 1 + 1 + 2 + 2),
  (kStrideThreeWords, 1 + 2 + 2 + 2), (kStrideFourWords, 1 + 2 + 2 + 2 + 2),
  (kStrideFiveWords, 1 + 2 + 2 + 2 + 2 + 2), (kStrideOutMaskWords, 1 + 2 + 2 + 4),
  (kStrideCmpHead, 1 + 1 + 1 + 2 + 2), (kStrideConst32, 1 + 4), (kStrideConst64, 1 + 8)]

def instructionStride (op : OpCode) : Option Nat :=
  (kStrideGroups.find? fun group => group.1.contains op).map Prod.snd

inductive Table where
  | strings | functions | classes | structs | arrayTypes | enums | interfaces | slots
  deriving DecidableEq

inductive Operand where
  | byte
  /-- A frame offset, a jump target, a count, a line or the number of an intrinsic. -/
  | word
  | index (table : Table)
  /-- An index into the table that the `ownerKind` of the instruction selects. -/
  | owner
  | ownerKind
  | dword
  | qword
  deriving DecidableEq

def Operand.width : Operand → Nat
  | .byte => 1
  | .word | .index _ | .owner | .ownerKind => 2
  | .dword => 4
  | .qword => 8

def OpCode.operands : OpCode → List Operand
  | .opReturn | .opStop | .opConstZero | .opArrayToStr | .opParaEnd | .opRethrow | .opPopHandler | .opFuncToStr => []
  | .opJump | .opVarLocal | .opAssign | .opLogicalNot | .opSwitch | .opCase | .opDebugInfo | .opNullCheck
  | .opThrow => [.word]
  | .opJumpIfNot | .opConcatStr | .opEqStr | .opNeStr | .opLessStr | .opLessEqualStr | .opGreaterStr
  | .opGreaterEqualStr | .opStrLen | .opCallIntrinsic | .opArrayLength | .opArrayShape | .opCallDelegate
  | .opEqFunc | .opNeFunc => [.word, .word]
  | .opAssertFail | .opConstString | .opMakeVFunc => [.index .strings]
  | .opConstInt32 | .opConstFloat => [.dword]
  | .opConstInt64 | .opConstDouble => [.qword]
  | .opPrimCast => [.byte, .byte]
  | .opPrimToStr | .opBox | .opUnbox => [.byte]
  | .opEnumToStr => [.index .enums]
  | .opAdd | .opSub | .opMul | .opDiv | .opMod | .opShl | .opShr => [.byte, .word, .word]
  | .opNeg => [.byte, .word]
  | .opCmp => [.byte, .byte, .word, .word]
  | .opCallFunc | .opCallMethodDirect => [.index .functions, .word]
  | .opAllocStruct => [.word, .index .structs, .word]
  | .opLoadField | .opStoreField | .opLoadElementFlat | .opStrByteAt | .opCheckArrayRank => [.word, .word, .word]
  | .opCopyStruct => [.word, .word, .index .structs]
  | .opNew => [.word, .index .classes]
  | .opCallMethod => [.index .strings, .word]
  | .opAllocArrayN | .opAssembleArrayN => [.word, .index .arrayTypes, .word, .word]
  | .opLoadElementN | .opStoreElementN | .opStrForeachStep | .opLoadElementDyn | .opStoreElementDyn =>
    [.word, .word, .word, .word]
  | .opMakeArrayView => [.word, .word, .index .arrayTypes, .word, .word]
  | .opCheckCast => [.index .classes]
  | .opCallFuncOut | .opCallMethodDirectOut => [.index .functions, .word, .dword]
  | .opMakeFunc | .opMakeBoundFunc => [.index .functions]
  | .opCallDelegateOut => [.word, .word, .dword]
  | .opLoadStatic => [.word, .index .slots]
  | .opStoreStatic | .opSlotInitGate => [.index .slots, .word]
  | .opClassInitGate => [.owner, .word, .ownerKind]
  | .opClassInitDone | .opClassInitFail => [.owner, .ownerKind]
  | .opSlotInitDone | .opSlotInitFail => [.index .slots]
  | .opCheckArrayType => [.word, .word, .index .arrayTypes]
  | .opAllocArrayDyn => [.word, .index .arrayTypes, .word]

def OpCode.size (op : OpCode) : Nat := 1 + (op.operands.map Operand.width).sum

def ownerTable : Nat → Option Table
  | 0 => some .classes
  | 1 => some .interfaces
  | _ => none

def placeOperands : Nat → List Operand → List (Nat × Operand)
  | _, [] => []
  | off, operand :: rest => (off, operand) :: placeOperands (off + operand.width) rest

def OpCode.placed (op : OpCode) : List (Nat × Operand) := placeOperands 1 op.operands

def OpCode.ownerKind (op : OpCode) (instr : Bytes) : Option Nat :=
  (op.placed.find? fun (_, operand) => operand = .ownerKind).map fun (off, _) => wordAt 2 instr off

def OpCode.tableOperands (op : OpCode) (instr : Bytes) : List (Nat × Table) :=
  op.placed.filterMap fun (off, operand) =>
    match operand with
    | .index table => some (off, table)
    | .owner => ((op.ownerKind instr).bind ownerTable).map fun table => (off, table)
    | _ => none

def walk : Nat → Bytes → List Bytes × Bytes
  | 0, rest => ([], rest)
  | _ + 1, [] => ([], [])
  | fuel + 1, code :: rest =>
    match OpCode.ofByte code with
    | none => ([], code :: rest)
    | some op =>
      if op.size ≤ rest.length + 1 then
        let (instrs, tail) := walk fuel ((code :: rest).drop op.size)
        ((code :: rest).take op.size :: instrs, tail)
      else ([], code :: rest)

def instructions (body : Bytes) : List Bytes × Bytes := walk body.length body

def starts : Nat → List Bytes → List Nat
  | _, [] => []
  | pos, instr :: rest => pos :: starts (pos + instr.length) rest

def opcodeOf (instr : Bytes) : Option OpCode := instr.head?.bind OpCode.ofByte

def tableOperands (instr : Bytes) : List (Nat × Table) :=
  (opcodeOf instr).elim [] fun op => op.tableOperands instr

theorem instructionStride_eq (op : OpCode) : instructionStride op = some op.size := by
  cases op <;> rfl

theorem OpCode.size_pos (op : OpCode) : 0 < op.size := Nat.lt_of_lt_of_le Nat.zero_lt_one (Nat.le_add_right 1 _)

end NLang.Vm
