import Mathlib

/-!
# Frames and exception handlers

Execution of one frame as far as control flow and exceptions go: dispatch (`DispatchFrames`), the search of the
try table (`TryEnterCatchHandler`) and the stack of caught exceptions (`OpRethrow`, `OpPopHandler`). Offsets count
bytes. What an instruction computes is left to the environment, which also decides whether it raises.
-/

namespace NLang.Vm

/-- An instruction that falls through or raises. `label` names it, `store` is the local slot it writes. -/
structure Op where
  label : Nat
  operandBytes : Nat := 0
  store : Option Nat := none
  deriving DecidableEq

inductive Instr where
  | op (o : Op)
  | jump (target : Nat)
  | jumpIfNot (target : Nat)
  /-- `OP_SlotInitGate`: goes on, skips the initializer, or raises. -/
  | gate (target : Nat)
  | popHandler
  | throwValue
  | rethrow
  | varLocal
  | ret
  deriving DecidableEq

def Instr.stride : Instr → Nat
  | .op o => o.operandBytes + 1
  | .jump _ | .throwValue | .varLocal => 3
  | .jumpIfNot _ | .gate _ => 5
  | .popHandler | .rethrow | .ret => 1

structure Item where
  instr : Instr
  handlers : List Nat := []
  deriving DecidableEq

def Item.stride (item : Item) : Nat := item.instr.stride

structure TryBlock where
  startPc : Nat
  endPc : Nat
  handlerPc : Nat
  exceptionClassIdx : Option Nat
  catchLocal : Nat
  outer : List Nat := []
  deriving DecidableEq

def codeSize (code : List Item) : Nat := (code.map Item.stride).sum

def fetch : List Item → Nat → Option Item
  | [], _ => none
  | item :: rest, pc =>
    if pc = 0 then some item
    else if item.stride ≤ pc then fetch rest (pc - item.stride) else none

theorem Item.stride_pos (item : Item) : 0 < item.stride := by
  unfold Item.stride
  cases item.instr <;> simp [Instr.stride]

@[simp] theorem codeSize_nil : codeSize [] = 0 := rfl

@[simp] theorem codeSize_cons (item : Item) (rest : List Item) :
    codeSize (item :: rest) = item.stride + codeSize rest := by
  simp [codeSize]

@[simp] theorem codeSize_append (first second : List Item) :
    codeSize (first ++ second) = codeSize first + codeSize second := by
  simp [codeSize]

theorem fetch_cons (item : Item) (rest : List Item) (pc : Nat) :
    fetch (item :: rest) pc =
      if pc = 0 then some item else if item.stride ≤ pc then fetch rest (pc - item.stride) else none := by
  rw [fetch]

theorem fetch_lt {code : List Item} {pc : Nat} {item : Item} (found : fetch code pc = some item) :
    pc < codeSize code := by
  induction code generalizing pc with
  | nil => cases found
  | cons first rest ih =>
    have positive := first.stride_pos
    rw [codeSize_cons]
    rw [fetch_cons] at found
    split at found
    · omega
    · split at found
      · have inRest := ih found
        omega
      · cases found

theorem fetch_append_left {first second : List Item} {pc : Nat} {item : Item} (found : fetch first pc = some item) :
    fetch (first ++ second) pc = some item := by
  induction first generalizing pc with
  | nil => cases found
  | cons head rest ih =>
    rw [List.cons_append, fetch_cons]
    rw [fetch_cons] at found
    split at found
    · rw [if_pos ‹_›]
      exact found
    · rw [if_neg ‹_›]
      split at found
      · rw [if_pos ‹_›]
        exact ih found
      · cases found

theorem fetch_append_right (first second : List Item) (pc : Nat) :
    fetch (first ++ second) (codeSize first + pc) = fetch second pc := by
  induction first with
  | nil => simp
  | cons head rest ih =>
    have positive := head.stride_pos
    rw [List.cons_append, fetch_cons, codeSize_cons, if_neg (by omega), if_pos (by omega)]
    rw [show head.stride + codeSize rest + pc - head.stride = codeSize rest + pc by omega]
    exact ih

theorem fetch_append_cases {first second : List Item} {pc : Nat} {item : Item}
    (found : fetch (first ++ second) pc = some item) :
    fetch first pc = some item ∨ ∃ offset, pc = codeSize first + offset ∧ fetch second offset = some item := by
  induction first generalizing pc with
  | nil => exact .inr ⟨pc, by simp, found⟩
  | cons head rest ih =>
    rw [List.cons_append, fetch_cons] at found
    rw [fetch_cons]
    split at found
    · left
      rw [if_pos ‹_›]
      exact found
    · rw [if_neg ‹_›]
      split at found
      · rename_i large
        rw [if_pos large]
        rcases ih found with inFirst | ⟨offset, same, inSecond⟩
        · exact .inl inFirst
        · refine .inr ⟨offset, ?_, inSecond⟩
          rw [codeSize_cons]
          omega
      · cases found

structure CompiledBody where
  code : List Item
  tryBlocks : List TryBlock

inductive Status where
  | running
  | raising (exc : Int)
  | returned
  | unwound (exc : Int)
  | failed
  deriving DecidableEq

inductive Observed where
  | done (label : Nat)
  | raised (label : Nat) (exc : Int)

/-- A frame in execution. `entered` and `trace` record its history: the exception that last entered each handler,
and the instructions executed. -/
structure CallFrame where
  pc : Nat := 0
  status : Status := .running
  handlerExcStack : List Int := []
  locals : Nat → Int := fun _ => 0
  entered : Nat → Int := fun _ => 0
  trace : List Observed := []

inductive Action where
  | next
  | finish (value : Int)
  | branch (taken : Bool)
  | raise (exc : Int)
  deriving DecidableEq

section Execution
variable (body : CompiledBody) (isInstanceOrSubclass : Int → Nat → Bool)

def TryBlock.handles (block : TryBlock) (opPc : Nat) (exc : Int) : Bool :=
  block.startPc ≤ opPc && opPc < block.endPc && block.exceptionClassIdx.all (isInstanceOrSubclass exc)

def CallFrame.store (frame : CallFrame) (slot : Option Nat) (value : Int) : Nat → Int :=
  match slot with
  | none => frame.locals
  | some slot => Function.update frame.locals slot value

def CallFrame.enterHandler (frame : CallFrame) (exc : Int) (block : TryBlock) : CallFrame :=
  { frame with
    pc := block.handlerPc, status := .running
    handlerExcStack := exc :: frame.handlerExcStack
    locals := Function.update frame.locals block.catchLocal exc
    entered := Function.update frame.entered block.handlerPc exc }

def tryEnterCatchHandler (frame : CallFrame) (exc : Int) : CallFrame :=
  match body.tryBlocks.find? (·.handles isInstanceOrSubclass (frame.pc % 2 ^ 16) exc) with
  | none => { frame with status := .unwound exc }
  | some block => frame.enterHandler exc block

def CallFrame.raise (frame : CallFrame) (exc : Int) : CallFrame := { frame with status := .raising exc }

def executeInstr (frame : CallFrame) (instr : Instr) (action : Action) : Option CallFrame :=
  match instr, action with
  | .op o, .finish value =>
    some { frame with
      pc := frame.pc + instr.stride, locals := frame.store o.store value
      trace := frame.trace ++ [.done o.label] }
  | .op o, .raise exc => some { frame with status := .raising exc, trace := frame.trace ++ [.raised o.label exc] }
  | .varLocal, .next => some { frame with pc := frame.pc + instr.stride }
  | .jump target, .next => some { frame with pc := target }
  | .jumpIfNot target, .branch taken | .gate target, .branch taken =>
    some { frame with pc := if taken then target else frame.pc + instr.stride }
  | .gate _, .raise exc | .throwValue, .raise exc => some (frame.raise exc)
  | .popHandler, .next =>
    match frame.handlerExcStack with
    | [] => some { frame with status := .failed }
    | _ :: rest => some { frame with pc := frame.pc + instr.stride, handlerExcStack := rest }
  | .rethrow, .next =>
    match frame.handlerExcStack with
    | [] => some { frame with status := .failed }
    | exc :: _ => some (frame.raise exc)
  | .ret, .next => some { frame with status := .returned }
  | _, _ => none

def CallFrame.step (frame : CallFrame) (action : Action) : Option CallFrame :=
  match frame.status with
  | .running => (fetch body.code frame.pc).bind fun item => executeInstr frame item.instr action
  | .raising exc => if action = .next then some (tryEnterCatchHandler body isInstanceOrSubclass frame exc) else none
  | _ => none

end Execution

end NLang.Vm
