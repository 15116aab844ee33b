import NLang.Library.Runs

/-!
# The frame machine

The frames of running calls, the top one first (`CallFrame.h`, `VmExecutorFrames.cpp`). Offsets count cells of
`kFrameSlotBytes`.
-/

namespace NLang.Vm.CallFrames
open NLang.Library.Runs

structure CompiledFunction where
  paramCount : Nat
  localsSize : Nat

structure CallFrame where
  localsBuf : List UInt64
  outMask : BitVec 32 := 0
  callParamBase : Nat := 0
  outShift : Nat := 0

def recurseLimit : Nat := 1000

def argumentCells (callerLocals : List UInt64) (callParamBase count : Nat) : Option (List UInt64) :=
  if callParamBase + count ≤ callerLocals.length then some ((callerLocals.drop callParamBase).take count) else none

def stageFrameParams (callee : CompiledFunction) (callerLocals : List UInt64) (callParamBase : Nat)
    (boundThisIdx : Option UInt64) : Option (List UInt64) :=
  if callee.localsSize < callee.paramCount then none
  else
    let rest := List.replicate (callee.localsSize - callee.paramCount) 0
    match boundThisIdx with
    | some thisIdx =>
      if callee.paramCount = 0 then none
      else (argumentCells callerLocals callParamBase (callee.paramCount - 1)).map fun args => thisIdx :: args ++ rest
    | none => (argumentCells callerLocals callParamBase callee.paramCount).map (· ++ rest)

def pushFrameCore (callee : CompiledFunction) (callParamBase : Nat) (outMask : BitVec 32) (outShift : Nat)
    (boundThisIdx : Option UInt64) : List CallFrame → Option (List CallFrame)
  | [] => none
  | caller :: rest =>
    if recurseLimit ≤ rest.length + 1 then none
    else
      (stageFrameParams callee caller.localsBuf callParamBase boundThisIdx).map fun localsBuf =>
        { localsBuf, outMask, callParamBase, outShift } :: caller :: rest

def pushRootFrame (callee : CompiledFunction) (stack : List CallFrame) : Option (List CallFrame) :=
  if recurseLimit ≤ stack.length then none else some ({ localsBuf := List.replicate callee.localsSize 0 } :: stack)

def writeBackSlot (frame : CallFrame) (callerLocals : List UInt64) (slot : Nat) : Option (List UInt64) :=
  if frame.outMask.getLsbD slot then
    match frame.localsBuf[slot + frame.outShift]? with
    | none => none
    | some value =>
      if frame.callParamBase + slot < callerLocals.length then
        some (callerLocals.set (frame.callParamBase + slot) value)
      else none
  else some callerLocals

def writeBack (frame : CallFrame) (callerLocals : List UInt64) : Option (List UInt64) :=
  (List.range 32).foldlM (writeBackSlot frame) callerLocals

def popFrameWithWriteback : List CallFrame → Option (List CallFrame)
  | [] => none
  | frame :: stack =>
    if frame.outMask = 0 then some stack
    else
      match stack with
      | [] => none
      | caller :: rest => (writeBack frame caller.localsBuf).map fun localsBuf => { caller with localsBuf } :: rest

/-- What instructions do to the stack: stores to cells of the running frame (the binding of a caught exception
included), calls, windows of the host, returns and the unwinding of an exception. -/
inductive Event where
  | store (slot : Nat) (value : UInt64)
  | push (callee : CompiledFunction) (callParamBase : Nat) (outMask : BitVec 32) (outShift : Nat)
      (boundThisIdx : Option UInt64)
  | pushRoot (callee : CompiledFunction)
  | ret
  | unwind

def step : List CallFrame → Event → Option (List CallFrame)
  | stack, .push callee callParamBase outMask outShift boundThisIdx =>
    pushFrameCore callee callParamBase outMask outShift boundThisIdx stack
  | stack, .pushRoot callee => pushRootFrame callee stack
  | stack, .ret => popFrameWithWriteback stack
  | [], _ => none
  | frame :: rest, .store slot value =>
    if slot < frame.localsBuf.length then some ({ frame with localsBuf := frame.localsBuf.set slot value } :: rest)
    else none
  | _ :: rest, .unwind => some rest

variable {called frame : CallFrame} {below stack stack' : List CallFrame}

def Above (depth : Nat) (stack : List CallFrame) : Event → Prop
  | .ret => depth + 1 < stack.length
  | .unwind => depth + 1 < stack.length
  | _ => True

structure SameCall (called frame : CallFrame) : Prop where
  size : frame.localsBuf.length = called.localsBuf.length
  outMask : frame.outMask = called.outMask
  callParamBase : frame.callParamBase = called.callParamBase
  outShift : frame.outShift = called.outShift

theorem SameCall.refl (called : CallFrame) : SameCall called called := ⟨rfl, rfl, rfl, rfl⟩

def Runs (called : CallFrame) (below stack : List CallFrame) : Prop :=
  ∃ inner frame, stack = inner ++ frame :: below ∧ SameCall called frame

theorem writeBackSlot_length {locals after : List UInt64} {slot : Nat}
    (written : writeBackSlot frame locals slot = some after) : after.length = locals.length := by
  unfold writeBackSlot at written
  split at written
  · split at written
    · cases written
    · split at written
      · cases written
        exact List.length_set
      · cases written
  · cases written
    rfl

theorem foldlM_writeBackSlot_length {slots : List Nat} {locals after : List UInt64}
    (written : slots.foldlM (writeBackSlot frame) locals = some after) : after.length = locals.length := by
  induction slots generalizing locals with
  | nil =>
    cases written
    rfl
  | cons slot rest ih =>
    obtain ⟨middle, first, later⟩ := Option.bind_eq_some_iff.mp written
    exact (ih later).trans (writeBackSlot_length first)

theorem Runs.step {event : Event} (runs : Runs called below stack) (above : Above below.length stack event)
    (taken : step stack event = some stack') : Runs called below stack' := by
  obtain ⟨inner, frame, rfl, same⟩ := runs
  cases event with
  | store slot value =>
    cases inner with
    | nil =>
      simp only [CallFrames.step, List.nil_append] at taken
      split at taken
      · cases taken
        exact ⟨[], _, rfl, ⟨List.length_set.trans same.size, same.outMask, same.callParamBase, same.outShift⟩⟩
      · cases taken
    | cons top rest =>
      simp only [CallFrames.step, List.cons_append] at taken
      split at taken
      · cases taken
        exact ⟨_ :: rest, frame, rfl, same⟩
      · cases taken
  | push callee callParamBase outMask outShift boundThisIdx =>
    have pushed : ∃ entered, stack' = entered :: (inner ++ frame :: below) := by
      cases inner with
      | nil =>
        simp only [CallFrames.step, pushFrameCore, List.nil_append] at taken
        split at taken
        · cases taken
        · obtain ⟨locals, -, rfl⟩ := Option.map_eq_some_iff.mp taken
          exact ⟨_, rfl⟩
      | cons top rest =>
        simp only [CallFrames.step, pushFrameCore, List.cons_append] at taken
        split at taken
        · cases taken
        · obtain ⟨locals, -, rfl⟩ := Option.map_eq_some_iff.mp taken
          exact ⟨_, rfl⟩
    obtain ⟨entered, rfl⟩ := pushed
    exact ⟨entered :: inner, frame, rfl, same⟩
  | pushRoot callee =>
    simp only [CallFrames.step, pushRootFrame] at taken
    split at taken
    · cases taken
    · cases taken
      exact ⟨_ :: inner, frame, rfl, same⟩
  | ret =>
    cases inner with
    | nil => simp [Above] at above
    | cons top rest =>
      simp only [CallFrames.step, List.cons_append, popFrameWithWriteback] at taken
      split at taken
      · cases taken
        exact ⟨rest, frame, rfl, same⟩
      · cases rest with
        | nil =>
          -- the call that returns wrote back to the frame that was called
          obtain ⟨locals, written, rfl⟩ := Option.map_eq_some_iff.mp taken
          exact ⟨[], _, rfl, ⟨(foldlM_writeBackSlot_length written).trans same.size, same.outMask,
            same.callParamBase, same.outShift⟩⟩
        | cons second others =>
          obtain ⟨locals, written, rfl⟩ := Option.map_eq_some_iff.mp taken
          exact ⟨_ :: others, frame, rfl, same⟩
  | unwind =>
    cases inner with
    | nil => simp [Above] at above
    | cons top rest =>
      cases taken
      exact ⟨rest, frame, rfl, same⟩

theorem runs_of_run (run : Run step (Above below.length) (called :: below) stack) (ends : stack.length = below.length + 1) :
    ∃ frame, stack = frame :: below ∧ SameCall called frame := by
  have runs : Runs called below stack :=
    run.invariant (Runs called below) ⟨[], called, rfl, .refl called⟩ fun _ _ _ runs above taken =>
      runs.step above taken
  obtain ⟨inner, frame, rfl, same⟩ := runs
  have none_inner : inner = [] := by
    apply List.eq_nil_of_length_eq_zero
    simp only [List.length_append, List.length_cons] at ends
    omega
  subst none_inner
  exact ⟨frame, rfl, same⟩

theorem run_stores (values : List UInt64) (size : values.length = called.localsBuf.length) :
    Run step (Above below.length) (called :: below) ({ called with localsBuf := values } :: below) := by
  have filled (count : Nat) (within : count ≤ values.length) :
      Run step (Above below.length) (called :: below)
        ({ called with localsBuf := values.take count ++ called.localsBuf.drop count } :: below) := by
    induction count with
    | zero => exact .refl
    | succ count ih =>
      have value : count < values.length := within
      have next : CallFrames.step
          ({ called with localsBuf := values.take count ++ called.localsBuf.drop count } :: below)
          (.store count values[count]) =
          some ({ called with localsBuf := values.take (count + 1) ++ called.localsBuf.drop (count + 1) } :: below) := by
        have here : count < called.localsBuf.length := size ▸ value
        have inside : count < (values.take count ++ called.localsBuf.drop count).length := by
          simp only [List.length_append, List.length_take, List.length_drop]
          omega
        have stored : (values.take count ++ called.localsBuf.drop count).set count values[count] =
            values.take (count + 1) ++ called.localsBuf.drop (count + 1) := by
          rw [List.set_append_right _ _ (by simp), List.length_take_of_le value.le, Nat.sub_self,
            List.drop_eq_getElem_cons here, List.set_cons_zero, List.take_succ_eq_append_getElem value,
            List.append_assoc]
          rfl
        simp only [CallFrames.step, if_pos inside, stored]
      refine .tail (ih value.le) ?_ next
      trivial
  have all := filled values.length le_rfl
  rw [List.take_length, size, List.drop_length, List.append_nil] at all
  exact all

structure WrittenBack (frame : CallFrame) (locals : List UInt64) (count : Nat) (after : List UInt64) : Prop where
  size : after.length = locals.length
  marked : ∀ slot < count, frame.outMask.getLsbD slot = true →
    after[frame.callParamBase + slot]? = frame.localsBuf[slot + frame.outShift]?
  others : ∀ cell, (∀ slot < count, frame.outMask.getLsbD slot = true → cell ≠ frame.callParamBase + slot) →
    after[cell]? = locals[cell]?

theorem WrittenBack.slot {locals after : List UInt64} {count : Nat} {value : UInt64}
    (written : WrittenBack frame locals count after) (bit : frame.outMask.getLsbD count = true)
    (final : frame.localsBuf[count + frame.outShift]? = some value)
    (inside : frame.callParamBase + count < locals.length) :
    WrittenBack frame locals (count + 1) (after.set (frame.callParamBase + count) value) where
  size := List.length_set.trans written.size
  marked := by
    intro slot lt marked
    by_cases same : slot = count
    · subst same
      rw [List.getElem?_set_self (written.size ▸ inside), final]
    · rw [List.getElem?_set_ne (by omega)]
      exact written.marked slot (by omega) marked
  others := by
    intro cell apart
    rw [List.getElem?_set_ne (apart count (Nat.lt_succ_self count) bit).symm]
    exact written.others cell fun slot lt marked => apart slot (Nat.lt_succ_of_lt lt) marked

theorem foldlM_writeBackSlot {locals : List UInt64} (count : Nat)
    (final : ∀ slot < count, frame.outMask.getLsbD slot = true → slot + frame.outShift < frame.localsBuf.length)
    (inside : ∀ slot < count, frame.outMask.getLsbD slot = true → frame.callParamBase + slot < locals.length) :
    ∃ after, (List.range count).foldlM (writeBackSlot frame) locals = some after ∧
      WrittenBack frame locals count after := by
  induction count with
  | zero => exact ⟨locals, rfl, rfl, fun _ lt => absurd lt (Nat.not_lt_zero _), fun _ _ => rfl⟩
  | succ count ih =>
    obtain ⟨before, folded, written⟩ := ih (fun slot lt => final slot (Nat.lt_succ_of_lt lt))
      fun slot lt => inside slot (Nat.lt_succ_of_lt lt)
    have last := Nat.lt_succ_self count
    rw [List.range_succ, List.foldlM_append, folded]
    by_cases bit : frame.outMask.getLsbD count = true
    · have value := List.getElem?_eq_getElem (final count last bit)
      have room : frame.callParamBase + count < before.length := written.size ▸ inside count last bit
      refine ⟨_, ?_, written.slot bit value (inside count last bit)⟩
      simp [writeBackSlot, bit, value, room]
    · refine ⟨before, by simp [writeBackSlot, bit], written.size, ?_, ?_⟩
      · intro slot lt marked
        by_cases same : slot = count
        · exact absurd (same ▸ marked) bit
        · exact written.marked slot (by omega) marked
      · intro cell apart
        exact written.others cell fun slot lt marked => apart slot (Nat.lt_succ_of_lt lt) marked

theorem writeBack_written {locals : List UInt64}
    (final : ∀ slot < 32, frame.outMask.getLsbD slot = true → slot + frame.outShift < frame.localsBuf.length)
    (inside : ∀ slot < 32, frame.outMask.getLsbD slot = true → frame.callParamBase + slot < locals.length) :
    ∃ after, writeBack frame locals = some after ∧ WrittenBack frame locals 32 after :=
  foldlM_writeBackSlot 32 final inside

theorem WrittenBack.of_plain {locals : List UInt64} (plain : frame.outMask = 0) : WrittenBack frame locals 32 locals where
  size := rfl
  marked := by
    intro slot _ bit
    simp [plain] at bit
  others := fun _ _ => rfl

theorem popFrameWithWriteback_written {caller : CallFrame} {rest : List CallFrame}
    (final : ∀ slot < 32, frame.outMask.getLsbD slot = true → slot + frame.outShift < frame.localsBuf.length)
    (inside : ∀ slot < 32, frame.outMask.getLsbD slot = true →
      frame.callParamBase + slot < caller.localsBuf.length) :
    ∃ after, popFrameWithWriteback (frame :: caller :: rest) = some ({ caller with localsBuf := after } :: rest) ∧
      WrittenBack frame caller.localsBuf 32 after := by
  by_cases plain : frame.outMask = 0
  · exact ⟨caller.localsBuf, by simp [popFrameWithWriteback, plain], .of_plain plain⟩
  · obtain ⟨after, written, exact_cells⟩ := writeBack_written final inside
    refine ⟨after, ?_, exact_cells⟩
    simp only [popFrameWithWriteback, if_neg plain, written, Option.map_some]

end NLang.Vm.CallFrames
