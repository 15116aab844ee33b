import NLang.Backend.FuncContext
import NLang.Library.Outcomes
import NLang.Vm.CallFrames

/-!
# Out arguments

Calls from the binding of their arguments (`ExprResolverDelegate.cpp`) over the code that is emitted for them
(`EmitCall.cpp`, `EmitExprCore.cpp`, `EmitExprMemberCall.cpp`) to what is left in the frame of the caller.
-/

namespace NLang.Backend.OutArguments
open NLang.Library NLang.Library.Runs NLang.Vm.CallFrames

structure Formal where
  name : String
  isOut : Bool
  hasDefault : Bool
  deriving DecidableEq

abbrev Argument := Option Nat

inductive Actual where
  | positional (argument : Argument)
  | named (name : String) (argument : Argument)
  | out (ident : Nat)

structure FormalBinding where
  formal : Formal
  callerExpr : Option Argument := none
  isOut : Bool := false
  deriving DecidableEq

structure Trial where
  bindings : List FormalBinding
  seenNamed : Bool := false
  nextFormal : Nat := 0

def bindPositionalActual (argument : Argument) (isOut : Bool) (trial : Trial) : Option Trial :=
  match trial.bindings[trial.nextFormal]? with
  | none => none
  | some binding =>
    if binding.callerExpr.isSome then none
    else if binding.formal.isOut ≠ isOut then none
    else
      some { trial with
        bindings := trial.bindings.set trial.nextFormal { binding with callerExpr := some argument, isOut }
        nextFormal := trial.nextFormal + 1 }

def bindNamedActual (name : String) (argument : Argument) (trial : Trial) : Option Trial :=
  let index := trial.bindings.findIdx fun binding => binding.formal.name = name
  match trial.bindings[index]? with
  | none => none
  | some binding =>
    if binding.callerExpr.isSome then none
    else some { trial with bindings := trial.bindings.set index { binding with callerExpr := some argument } }

def bindActual (trial : Trial) : Actual → Option Trial
  | .positional argument => if trial.seenNamed then none else bindPositionalActual argument false trial
  | .named name argument => bindNamedActual name argument { trial with seenNamed := true }
  | .out ident => bindPositionalActual (some ident) true trial

def tryBindArgs (formals : List Formal) (actuals : List Actual) : Option (List FormalBinding) :=
  (actuals.foldlM bindActual { bindings := formals.map fun formal => { formal } }).bind fun trial =>
    if ∀ binding ∈ trial.bindings, binding.callerExpr.isSome ∨ binding.formal.hasDefault then some trial.bindings
    else none

def bindDelegateActuals : List Formal → List Actual → Option (List FormalBinding)
  | [], [] => some []
  | formal :: formals, .positional argument :: actuals =>
    if formal.isOut then none
    else (bindDelegateActuals formals actuals).map ({ formal, callerExpr := some argument } :: ·)
  | formal :: formals, .out ident :: actuals =>
    if formal.isOut then
      (bindDelegateActuals formals actuals).map ({ formal, callerExpr := some (some ident), isOut := true } :: ·)
    else none
  | _, _ => none

inductive CallForm where
  | direct
  | method
  | delegate
  deriving DecidableEq

def CallForm.bind : CallForm → List Formal → List Actual → Option (List FormalBinding)
  | .delegate => bindDelegateActuals
  | _ => tryBindArgs

def CallForm.slotBase : CallForm → Nat
  | .method => 1
  | _ => 0

inductive Instr where
  | varLocal (slot : Nat)
  | assign (slot : Nat)
  | loadField (slot fieldOff : Nat)

def copyCells (source target : Nat) (count : Nat) : List Instr :=
  (List.range count).flatMap fun i => [.varLocal (slotAt (source + i)), .assign (slotAt (target + i))]

structure OutSpill where
  slotIdx : Nat
  localOffset : Nat

def kMaxFuncParams : Nat := 64

def recordOutSpills (resolveBareIdentifier : Nat → Option Nat) :
    Nat → List FormalBinding → Except String (List OutSpill)
  | _, [] => .ok []
  | slotIdx, binding :: rest =>
    if binding.isOut then
      match binding.callerExpr.join.bind resolveBareIdentifier with
      | none => .error "NLang backend: out argument is not a local variable"
      | some localOffset =>
        (recordOutSpills resolveBareIdentifier (slotIdx + 1) rest).map ({ slotIdx, localOffset } :: ·)
    else recordOutSpills resolveBareIdentifier (slotIdx + 1) rest

def markSlot (mask : BitVec 32) (spill : OutSpill) : Except String (BitVec 32) :=
  if 32 ≤ spill.slotIdx then .error "NLang backend: out parameter slot >= 32 is unsupported"
  else .ok (mask ||| 1#32 <<< spill.slotIdx)

def buildOutMask (spills : List OutSpill) : Except String (BitVec 32) := spills.foldlM markSlot 0

def emitOutSpills (callParamBase : Nat) (spills : List OutSpill) : List Instr :=
  spills.flatMap fun spill =>
    [.varLocal (slotAt (callParamBase + spill.slotIdx)), .assign (slotAt spill.localOffset)]

inductive Handle where
  | parked
  | local (source : Nat)
  | thisField (this fieldOff : Nat)

def Handle.load (calleeSlot : Nat) : Handle → List Instr
  | .parked => []
  | .local source => [.varLocal (slotAt source), .assign (slotAt calleeSlot)]
  | .thisField this fieldOff =>
    [.varLocal (slotAt this), .assign (slotAt calleeSlot), .loadField (slotAt calleeSlot) fieldOff]

structure Code where
  stage : List Instr
  outMask : BitVec 32
  spills : List Instr

structure CallSite where
  form : CallForm
  formals : List Formal
  actuals : List Actual
  bindings : List FormalBinding
  binds : form.bind formals actuals = some bindings
  /-- The slot that the emission finds under the name of the variable in a slot. -/
  resolveBareIdentifier : Nat → Option Nat
  handle : Handle
  locals : List Nat
  claimBase : Nat
  callParamBase : Nat
  calleeSlot : Nat
  resultOffset : Nat
  frameSlots : Nat
  claimed : claimBase + (bindings.length + form.slotBase) ≤ frameSlots
  staged : callParamBase + (bindings.length + form.slotBase) ≤ frameSlots
  handled : ∀ slot ∈ [calleeSlot, resultOffset], slot < frameSlots ∧
    ∀ index < bindings.length + form.slotBase, slot ≠ callParamBase + index
  sources : ∀ source, handle = .local source ∨ (∃ fieldOff, handle = .thisField source fieldOff) → source < frameSlots
  separate : ∀ ident ∈ locals, ident < frameSlots ∧ ident ≠ calleeSlot ∧ ident ≠ resultOffset ∧
    ∀ index < bindings.length + form.slotBase, ident ≠ callParamBase + index
  known : ∀ binding ∈ bindings, ∀ ident, binding.callerExpr = some (some ident) → ident ∈ locals
  resolved : ∀ ident localOffset, resolveBareIdentifier ident = some localOffset → localOffset ∈ locals

namespace CallSite
variable (site : CallSite)

def slotCount : Nat := site.bindings.length + site.form.slotBase

def OverCeiling : Prop := site.form ≠ .delegate ∧ kMaxFuncParams < site.slotCount

instance : Decidable site.OverCeiling := inferInstanceAs (Decidable (_ ∧ _))

def emit : Except String Code :=
  if site.OverCeiling then .ok { stage := [], outMask := 0, spills := [] }
  else
    (recordOutSpills site.resolveBareIdentifier site.form.slotBase site.bindings).bind fun spills =>
      (buildOutMask spills).map fun outMask =>
        { stage := copyCells site.claimBase site.callParamBase site.slotCount ++ site.handle.load site.calleeSlot
          outMask
          spills := emitOutSpills site.callParamBase spills }

end CallSite

/-- One instruction, over the locals and `pResult`; `fields` are the fields of the heap, none for a null object. -/
def execInstr (fields : UInt64 → Nat → Option UInt64) (s : List UInt64 × UInt64) : Instr → Option (List UInt64 × UInt64)
  | .varLocal slot => s.1[slot]?.map fun value => (s.1, value)
  | .assign slot => if slot < s.1.length then some (s.1.set slot s.2, s.2) else none
  | .loadField slot fieldOff =>
    (s.1[slot]?.bind fun object => fields object fieldOff).map fun value => (s.1.set slot value, s.2)

def exec (fields : UInt64 → Nat → Option UInt64) (code : List Instr) (s : List UInt64 × UInt64) :
    Option (List UInt64 × UInt64) :=
  code.foldlM (execInstr fields) s

def CallForm.paramSlot : CallForm → Option UInt64 → Nat → Nat
  | .method, _, index => index + 1
  | .delegate, some _, index => index + 1
  | _, _, index => index

def CallSite.enter (site : CallSite) (outMask : BitVec 32) (callee : CompiledFunction) (receiver : Option UInt64) :
    List CallFrame → Option (List CallFrame) :=
  match site.form, receiver with
  | .delegate, some thisIdx => pushFrameCore callee (slotAt site.callParamBase) outMask 1 (some thisIdx)
  | _, _ => pushFrameCore callee (slotAt site.callParamBase) outMask 0 none

structure Execution (site : CallSite) (code : Code) where
  fields : UInt64 → Nat → Option UInt64
  caller : CallFrame
  below : List CallFrame
  size : caller.localsBuf.length = slotAt site.frameSlots
  pResult : UInt64
  staged : List UInt64 × UInt64
  stages : exec fields code.stage (caller.localsBuf, pResult) = some staged
  callee : CompiledFunction
  receiver : Option UInt64
  params : callee.paramCount = site.form.paramSlot receiver site.bindings.length
  called : CallFrame
  enters : site.enter code.outMask callee receiver ({ caller with localsBuf := staged.1 } :: below) =
    some (called :: { caller with localsBuf := staged.1 } :: below)
  final : CallFrame
  rest : List CallFrame
  runs : Run step (Above (below.length + 1)) (called :: { caller with localsBuf := staged.1 } :: below) (final :: rest)
  ends : rest.length = below.length + 1
  result : UInt64

def CallSite.OutArgument (site : CallSite) (index ident : Nat) : Prop :=
  ∃ binding, site.bindings[index]? = some binding ∧ binding.formal.isOut = true ∧ binding.callerExpr = some (some ident)

structure Execution.Returns {site : CallSite} {code : Code} (e : Execution site code) (after : List UInt64) : Prop where
  outs : ∀ index ident, site.OutArgument index ident →
    after[slotAt ident]? = e.final.localsBuf[site.form.paramSlot e.receiver index]?
  others : ∀ ident ∈ site.locals, (∀ index, ¬ site.OutArgument index ident) →
    after[slotAt ident]? = e.caller.localsBuf[slotAt ident]?

/-- What is asked of a call: the write-back of a return, and none when an exception leaves the callee. -/
structure Execution.Exact {site : CallSite} {code : Code} (e : Execution site code) : Prop where
  returned : ∃ back after, step (e.final :: e.rest) .ret = some ({ e.caller with localsBuf := back } :: e.below) ∧
    exec e.fields (.assign (slotAt site.resultOffset) :: code.spills) (back, e.result) = some after ∧ e.Returns after.1
  left : ∃ back, step (e.final :: e.rest) .unwind = some ({ e.caller with localsBuf := back } :: e.below) ∧
    ∀ ident ∈ site.locals, back[slotAt ident]? = e.caller.localsBuf[slotAt ident]?

def CallSite.WritesBack (site : CallSite) : Prop := ∀ code, site.emit = .ok code → ∀ e : Execution site code, e.Exact

structure CallSite.Marked (site : CallSite) : Prop where
  within : ¬ site.OverCeiling
  marked : ∀ index ident, site.OutArgument index ident → ∃ binding, site.bindings[index]? = some binding ∧
    binding.isOut = true
  own : ∀ index ident, site.OutArgument index ident → site.resolveBareIdentifier ident = some ident
  distinct : ∀ index other ident, site.OutArgument index ident → site.OutArgument other ident → index = other

def Agrees (binding : FormalBinding) : Prop :=
  binding.isOut = true → binding.formal.isOut = true ∧ ∃ ident, binding.callerExpr = some (some ident)

theorem bindPositionalActual_agrees {argument : Argument} {isOut : Bool} {trial after : Trial}
    (agrees : ∀ binding ∈ trial.bindings, Agrees binding) (marks : isOut = true → ∃ ident, argument = some ident)
    (bound : bindPositionalActual argument isOut trial = some after) : ∀ binding ∈ after.bindings, Agrees binding := by
  unfold bindPositionalActual at bound
  split at bound
  · cases bound
  · rename_i before _
    split at bound
    · cases bound
    · split at bound
      · cases bound
      · rename_i same
        cases bound
        intro binding member
        rcases List.mem_or_eq_of_mem_set member with old | rfl
        · exact agrees binding old
        · intro out
          obtain ⟨ident, rfl⟩ := marks out
          exact ⟨(not_ne_iff.mp same).trans out, ident, rfl⟩

theorem bindNamedActual_agrees {name : String} {argument : Argument} {trial after : Trial}
    (agrees : ∀ binding ∈ trial.bindings, Agrees binding) (bound : bindNamedActual name argument trial = some after) :
    ∀ binding ∈ after.bindings, Agrees binding := by
  unfold bindNamedActual at bound
  simp only at bound
  split at bound
  · cases bound
  · rename_i before found
    split at bound
    · cases bound
    · rename_i unbound
      cases bound
      intro binding member
      rcases List.mem_or_eq_of_mem_set member with old | rfl
      · exact agrees binding old
      · intro out
        obtain ⟨-, ident, given⟩ := agrees before (List.mem_of_getElem? found) out
        rw [given] at unbound
        exact absurd rfl unbound

theorem bindActual_agrees {actual : Actual} {trial after : Trial} (agrees : ∀ binding ∈ trial.bindings, Agrees binding)
    (bound : bindActual trial actual = some after) : ∀ binding ∈ after.bindings, Agrees binding := by
  cases actual with
  | positional argument =>
    simp only [bindActual] at bound
    split at bound
    · cases bound
    · exact bindPositionalActual_agrees agrees (fun out : false = true => nomatch out) bound
  | named name argument => exact @bindNamedActual_agrees _ _ { trial with seenNamed := true } _ agrees bound
  | out ident => exact bindPositionalActual_agrees agrees (fun _ => ⟨ident, rfl⟩) bound

theorem tryBindArgs_agrees {formals : List Formal} {actuals : List Actual} {bindings : List FormalBinding}
    (bound : tryBindArgs formals actuals = some bindings) : ∀ binding ∈ bindings, Agrees binding := by
  have folded (actuals : List Actual) (before after : Trial) (agrees : ∀ binding ∈ before.bindings, Agrees binding)
      (folded : actuals.foldlM bindActual before = some after) : ∀ binding ∈ after.bindings, Agrees binding := by
    induction actuals generalizing before with
    | nil =>
      cases folded
      exact agrees
    | cons actual rest ih =>
      obtain ⟨middle, first, later⟩ := Option.bind_eq_some_iff.mp folded
      exact ih middle (bindActual_agrees agrees first) later
  obtain ⟨trial, routed, taken⟩ := Option.bind_eq_some_iff.mp bound
  split at taken
  · cases taken
    apply folded actuals _ trial _ routed
    intro binding member out
    obtain ⟨formal, -, rfl⟩ := List.mem_map.mp member
    cases out
  · cases taken

theorem bindDelegateActuals_agrees {formals : List Formal} {actuals : List Actual} {bindings : List FormalBinding}
    (bound : bindDelegateActuals formals actuals = some bindings) :
    ∀ binding ∈ bindings, Agrees binding := by
  induction formals, actuals using bindDelegateActuals.induct generalizing bindings with
  | case1 =>
    cases bound
    exact fun _ member => nomatch member
  | case2 formal formals argument actuals ordinary =>
    simp [bindDelegateActuals, ordinary] at bound
  | case3 formal formals argument actuals ordinary ih =>
    simp only [bindDelegateActuals, if_neg ordinary] at bound
    obtain ⟨rest, later, rfl⟩ := Option.map_eq_some_iff.mp bound
    intro binding member
    rcases List.mem_cons.mp member with rfl | old
    · exact (nomatch ·)
    · exact ih later binding old
  | case4 formal formals ident actuals marked ih =>
    simp only [bindDelegateActuals, if_pos marked] at bound
    obtain ⟨rest, later, rfl⟩ := Option.map_eq_some_iff.mp bound
    intro binding member
    rcases List.mem_cons.mp member with rfl | old
    · exact fun _ => ⟨marked, ident, rfl⟩
    · exact ih later binding old
  | case5 formal formals ident actuals marked =>
    simp [bindDelegateActuals, marked] at bound
  | case6 formals actuals => simp [bindDelegateActuals] at bound

theorem CallSite.agrees (site : CallSite) : ∀ binding ∈ site.bindings, Agrees binding := by
  have binds := site.binds
  cases form : site.form with
  | direct =>
    rw [form] at binds
    exact tryBindArgs_agrees binds
  | method =>
    rw [form] at binds
    exact tryBindArgs_agrees binds
  | delegate =>
    rw [form] at binds
    exact bindDelegateActuals_agrees binds

theorem exists_getElem?_cons {α : Type} {first : α} {rest : List α} {P : Nat → α → Prop} :
    (∃ index entry, (first :: rest)[index]? = some entry ∧ P index entry) ↔
      P 0 first ∨ ∃ index entry, rest[index]? = some entry ∧ P (index + 1) entry := by
  constructor
  · rintro ⟨index, entry, found, holds⟩
    cases index with
    | zero =>
      cases found
      exact .inl holds
    | succ index => exact .inr ⟨index, entry, found, holds⟩
  · rintro (holds | ⟨index, entry, found, holds⟩)
    · exact ⟨0, first, rfl, holds⟩
    · exact ⟨index + 1, entry, found, holds⟩

def FormalBinding.spillsTo (resolveBareIdentifier : Nat → Option Nat) (binding : FormalBinding) (localOffset : Nat) :
    Prop :=
  binding.isOut = true ∧ binding.callerExpr.join.bind resolveBareIdentifier = some localOffset

theorem mem_recordOutSpills {resolveBareIdentifier : Nat → Option Nat} {slotIdx : Nat} {bindings : List FormalBinding}
    {spills : List OutSpill} (recorded : recordOutSpills resolveBareIdentifier slotIdx bindings = .ok spills)
    (spill : OutSpill) :
    spill ∈ spills ↔ ∃ index binding, bindings[index]? = some binding ∧
      binding.spillsTo resolveBareIdentifier spill.localOffset ∧ spill.slotIdx = slotIdx + index := by
  induction bindings generalizing slotIdx spills with
  | nil =>
    cases recorded
    simp
  | cons binding rest ih =>
    unfold recordOutSpills at recorded
    simp only [exists_getElem?_cons, Nat.add_zero, ← Nat.add_assoc, Nat.add_right_comm slotIdx _ 1]
    by_cases out : binding.isOut = true
    · rw [if_pos out] at recorded
      cases target : binding.callerExpr.join.bind resolveBareIdentifier with
      | none =>
        rw [target] at recorded
        cases recorded
      | some localOffset =>
        rw [target] at recorded
        obtain ⟨later, recordedLater, rfl⟩ := except_map_ok.mp recorded
        have here : binding.spillsTo resolveBareIdentifier spill.localOffset ∧ spill.slotIdx = slotIdx ↔
            spill = { slotIdx, localOffset } := by
          obtain ⟨slot, offset⟩ := spill
          simp [FormalBinding.spillsTo, out, target, eq_comm, and_comm]
        rw [List.mem_cons, ih recordedLater, here]
    · rw [if_neg out] at recorded
      have here : ¬ (binding.spillsTo resolveBareIdentifier spill.localOffset ∧ spill.slotIdx = slotIdx) :=
        fun same => out same.1.1
      rw [ih recorded, or_iff_right here]

theorem buildOutMask_bits {spills : List OutSpill} {outMask : BitVec 32} (built : buildOutMask spills = .ok outMask) :
    (∀ spill ∈ spills, spill.slotIdx < 32) ∧
      ∀ slot < 32, outMask.getLsbD slot = true ↔ ∃ spill ∈ spills, spill.slotIdx = slot := by
  have folded (spills : List OutSpill) (before after : BitVec 32)
      (folded : spills.foldlM markSlot before = .ok after) :
      (∀ spill ∈ spills, spill.slotIdx < 32) ∧ ∀ slot < 32, after.getLsbD slot = true ↔
        before.getLsbD slot = true ∨ ∃ spill ∈ spills, spill.slotIdx = slot := by
    induction spills generalizing before with
    | nil =>
      cases folded
      simp
    | cons spill rest ih =>
      rw [List.foldlM_cons] at folded
      obtain ⟨middle, first, later⟩ := except_bind_ok.mp folded
      unfold markSlot at first
      split at first
      · cases first
      · rename_i within
        cases first
        obtain ⟨below, bits⟩ := ih _ later
        refine ⟨?_, ?_⟩
        · intro other member
          rcases List.mem_cons.mp member with rfl | old
          · exact Nat.lt_of_not_le within
          · exact below other old
        · intro slot lt
          have bit : (1#32 <<< spill.slotIdx).getLsbD slot = true ↔ spill.slotIdx = slot := by
            simp only [BitVec.getLsbD_shiftLeft, BitVec.getLsbD_one, lt, decide_true, Bool.true_and,
              Bool.and_eq_true, Bool.not_eq_true', decide_eq_false_iff_not, decide_eq_true_eq]
            omega
          simp only [bits slot lt, BitVec.getLsbD_or, Bool.or_eq_true, bit, List.exists_mem_cons_iff, or_assoc]
  obtain ⟨below, bits⟩ := folded spills 0 outMask built
  refine ⟨below, ?_⟩
  intro slot lt
  rw [bits slot lt]
  simp

end NLang.Backend.OutArguments
