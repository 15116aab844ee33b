import NLang.Backend.FrameRoots
import NLang.Backend.HandlerStack

/-!
# Pending exceptions

Collection while a handler runs. The collector does not scan the stack of caught exceptions; what keeps an
exception alive for a later rethrow is the local that its handler bound it to.
-/

namespace NLang.Backend
open NLang.Compiler NLang.Vm NLang.Library.Runs

section Pending
variable (cf : CompiledFunction) (compiled : CompiledBody) (isInstanceOrSubclass : Int → Nat → Bool)

def spares (slot : Nat) (exc : Int) (frame : CallFrame) (action : Action) : Bool :=
  match frame.status with
  | .running =>
    match fetch compiled.code frame.pc, action with
    | some ⟨.op o, _⟩, .finish value => o.store ≠ some slot ∨ value = exc
    | _, _ => true
  | .raising other =>
    (compiled.tryBlocks.find? (·.handles isInstanceOrSubclass (frame.pc % 2 ^ 16) other)).all fun block =>
      block.catchLocal ≠ slot ∨ other = exc
  | _ => true

/-- From `frame` on the stack keeps more than `depth` exceptions, until a rethrow raises the first of these. -/
def RethrownLater (depth : Nat) (exc : Int) (frame : CallFrame) : Prop :=
  ∃ last item, Run (CallFrame.step compiled isInstanceOrSubclass)
      (fun frame _ => depth < frame.handlerExcStack.length) frame last ∧
    last.status = .running ∧ fetch compiled.code last.pc = some item ∧ item.instr = .rethrow ∧
    last.handlerExcStack.length = depth + 1 ∧
    last.step compiled isInstanceOrSubclass .next = some (last.raise exc)

/-- Whenever an exception has entered a handler, and the steps since then were allowed, it is reachable from the
roots, if a later rethrow is to raise it. -/
def PendingReachable (allowed : Nat → Int → CallFrame → Action → Prop) : Prop :=
  ∀ locals raised exc block frame,
    Run (CallFrame.step compiled isInstanceOrSubclass) (fun _ _ => True) { locals } raised →
    raised.status = .raising exc →
    compiled.tryBlocks.find? (·.handles isInstanceOrSubclass (raised.pc % 2 ^ 16) exc) = some block →
    Run (CallFrame.step compiled isInstanceOrSubclass)
      (fun frame action => raised.handlerExcStack.length < frame.handlerExcStack.length ∧
        allowed block.catchLocal exc frame action) (raised.enterHandler exc block) frame →
    RethrownLater compiled isInstanceOrSubclass raised.handlerExcStack.length exc frame →
    ∀ tables h strings others i, h.Denotes strings exc (.record i) →
      Traces tables h strings (markFrame cf frame.locals ++ others) (.record i)

end Pending

section Steps
variable {cf : CompiledFunction} {compiled : CompiledBody} {isInstanceOrSubclass : Int → Nat → Bool}
variable {frame frame' : CallFrame} {action : Action}

theorem executeInstr_locals {instr : Instr} (executed : executeInstr frame instr action = some frame') :
    frame'.locals = frame.locals ∨
      ∃ o value, instr = .op o ∧ action = .finish value ∧ frame'.locals = frame.store o.store value := by
  unfold executeInstr at executed
  split at executed
  all_goals try split at executed
  all_goals cases executed
  case h_1 o value => exact .inr ⟨o, value, rfl, rfl, rfl⟩
  all_goals exact .inl rfl

theorem step_spares {slot : Nat} {exc : Int} (holds : frame.locals slot = exc)
    (spared : spares compiled isInstanceOrSubclass slot exc frame action = true)
    (taken : frame.step compiled isInstanceOrSubclass action = some frame') : frame'.locals slot = exc := by
  unfold spares at spared
  rcases step_cases taken with ⟨item, running, found, executed⟩ | ⟨other, raising, rfl⟩
  · rcases executeInstr_locals executed with same | ⟨o, value, isOp, finishes, stored⟩
    · rw [same]
      exact holds
    · subst finishes
      obtain ⟨instr, handlers⟩ := item
      cases isOp
      rw [running, found] at spared
      rw [stored]
      cases written : o.store with
      | none => exact holds
      | some target =>
        show Function.update frame.locals target value slot = exc
        by_cases same : slot = target
        · subst same
          rw [Function.update_self]
          exact (of_decide_eq_true spared).resolve_left (fun other => other written)
        · rw [Function.update_of_ne same]
          exact holds
  · rw [raising] at spared
    rcases tryEnterCatchHandler_cases compiled isInstanceOrSubclass frame other with left | ⟨block, handler, entered⟩
    · rw [left]
      exact holds
    · rw [entered]
      simp only [handler, Option.all_some] at spared
      show Function.update frame.locals block.catchLocal other slot = exc
      by_cases same : slot = block.catchLocal
      · subst same
        rw [Function.update_self]
        exact (of_decide_eq_true spared).resolve_left (fun other => other rfl)
      · rw [Function.update_of_ne same]
        exact holds

theorem run_holds {slot : Nat} {exc : Int} {meets : CallFrame → Action → Prop} {start : CallFrame}
    (spared : ∀ frame action, meets frame action →
      spares compiled isInstanceOrSubclass slot exc frame action = true)
    (holds : start.locals slot = exc)
    (run : Run (CallFrame.step compiled isInstanceOrSubclass) meets start frame) : frame.locals slot = exc :=
  Run.invariant (fun frame => frame.locals slot = exc) holds
    (fun frame action _ holds met taken => step_spares holds (spared frame action met) taken) run

end Steps

theorem traces_of_scanned {cf : CompiledFunction} {slot : Nat} (scanned : cf.Scanned slot 1) {tables : TypeTables}
    {h : Heap} {strings : StringStore} {cells : Nat → Int} {others : List MarkAction} {i : Nat}
    (denotes : h.Denotes strings (cells slot) (.record i)) :
    Traces tables h strings (markFrame cf cells ++ others) (.record i) := by
  obtain ⟨scan, member, rfl, tested⟩ := scanned
  refine ⟨.record i, rooted_append.mpr (.inl (rooted_markFrame.mpr ⟨scan, member, ?_⟩)), .refl⟩
  exact mem_classTargets.mpr ⟨denotes, tested⟩

/-- If the root map of the function scans the locals of its handlers for records, an exception stays reachable as
long as nothing else is stored into the local that it was bound to. -/
theorem pendingException_reachable {cf : CompiledFunction} {compiled : CompiledBody}
    (isInstanceOrSubclass : Int → Nat → Bool)
    (scanned : ∀ block ∈ compiled.tryBlocks, cf.Scanned block.catchLocal 1) :
    PendingReachable cf compiled isInstanceOrSubclass
      (fun slot exc frame action => spares compiled isInstanceOrSubclass slot exc frame action = true) := by
  intro locals raised exc block frame run raising handler kept later tables h strings others i denotes
  have bound : (raised.enterHandler exc block).locals block.catchLocal = exc := Function.update_self ..
  have holds : frame.locals block.catchLocal = exc := run_holds (fun _ _ met => met.2) bound kept
  apply traces_of_scanned (scanned block (List.mem_of_find?_eq_some handler))
  rw [holds]
  exact denotes

theorem step_running {compiled : CompiledBody} {isInstanceOrSubclass : Int → Nat → Bool} {frame frame' : CallFrame}
    {item : Item} (action : Action) (running : frame.status = .running)
    (found : fetch compiled.code frame.pc = some item) (executed : executeInstr frame item.instr action = some frame') :
    frame.step compiled isInstanceOrSubclass action = some frame' := by
  unfold CallFrame.step
  rw [running]
  show (fetch _ frame.pc).bind _ = _
  rw [found, Option.bind_some, executed]

def rethrown : Flow :=
  .tryCatch (.straight [{ label := 1 }]) (.handler (some 1) 5 (.seq (.straight [{ label := 2 }]) .rethrow) .skip)

def clearedAndRethrown : Flow :=
  .tryCatch (.straight [{ label := 1 }])
    (.handler (some 1) 5 (.seq (.straight [{ label := 3, store := some 5 }, { label := 2 }]) .rethrow) .skip)

def clearedDecl : FunctionDecl :=
  { params := []
    body := .tryCatch (.eval .nil true)
      (.handler "e" (.block (.seq (.assign "e" .cls (.value .cls)) (.seq (.eval .nil true) (.eval .nil false))))
        .skip) }

def clearedBody : Stmt Binding :=
  .tryCatch (.eval .nil true)
    (.handler "e"
      (.block (.seq (.assign (.local "e") .cls (.value .cls)) (.seq (.eval .nil true) (.eval .nil false)))) .skip)

example : clearedDecl.resolve = some clearedBody := rfl

def clearedFunction : CompiledFunction := compileFunction clearedDecl {} 0 clearedBody

def noTypes : TypeTables where
  structs := []
  classes := []
  arrayTypes := []
  depth _ := 0
  depth_lt := TypeTables.depth_lt_nil

def raisedByCall : CallFrame := { status := .raising 1, trace := [.raised 1 1] }

def catchBlock : TryBlock := { startPc := 0, endPc := 4, handlerPc := 4, exceptionClassIdx := some 1, catchLocal := 5 }

theorem rethrown_reachable :
    RethrownLater (compileFlow 9 rethrown).stored sameClass 0 1 (raisedByCall.enterHandler 1 catchBlock) ∧
      Traces noTypes (oneRecord .cls) oneString (markFrame clearedFunction (raisedByCall.enterHandler 1 catchBlock).locals)
        (.record 1) := by
  generalize compiled_eq : (compileFlow 9 rethrown).stored = compiled
  have atCall : fetch compiled.code 0 = some { instr := .op { label := 1 } } := by
    rw [← compiled_eq]
    decide +kernel
  have inHandler : fetch compiled.code 4 = some { instr := .op { label := 2 }, handlers := [4] } := by
    rw [← compiled_eq]
    decide +kernel
  have atRethrow : fetch compiled.code 5 = some { instr := .rethrow, handlers := [4] } := by
    rw [← compiled_eq]
    decide +kernel
  have table : compiled.tryBlocks = [catchBlock] := by
    rw [← compiled_eq]
    decide +kernel
  have raises : Run (CallFrame.step compiled sameClass) (fun _ _ => True) {} raisedByCall :=
    .tail .refl True.intro (step_running (.raise 1) rfl atCall rfl)
  have handler : compiled.tryBlocks.find? (·.handles sameClass (raisedByCall.pc % 2 ^ 16) 1) = some catchBlock := by
    rw [table]
    decide
  have later : RethrownLater compiled sameClass 0 1 (raisedByCall.enterHandler 1 catchBlock) :=
    ⟨_, _, .tail .refl (Nat.zero_lt_one) (step_running (.finish 0) rfl inHandler rfl), rfl, atRethrow, rfl, rfl,
      step_running .next rfl atRethrow rfl⟩
  have scanned : ∀ block ∈ compiled.tryBlocks, clearedFunction.Scanned block.catchLocal 1 := by
    rw [table]
    decide
  refine ⟨later, ?_⟩
  have reachable := pendingException_reachable sameClass scanned _ raisedByCall 1 catchBlock _ raises rfl handler .refl
    later noTypes (oneRecord .cls) oneString [] 1 ⟨by decide, rfl⟩
  rwa [List.append_nil] at reachable

theorem clearedAndRethrown_unreachable :
    ¬ PendingReachable clearedFunction (compileFlow 9 clearedAndRethrown).stored sameClass fun _ _ _ _ => True := by
  generalize compiled_eq : (compileFlow 9 clearedAndRethrown).stored = compiled
  intro reachable
  have atCall : fetch compiled.code 0 = some { instr := .op { label := 1 } } := by
    rw [← compiled_eq]
    decide +kernel
  have inHandler : fetch compiled.code 4 = some { instr := .op { label := 3, store := some 5 }, handlers := [4] } := by
    rw [← compiled_eq]
    decide +kernel
  have cleared : fetch compiled.code 5 = some { instr := .op { label := 2 }, handlers := [4] } := by
    rw [← compiled_eq]
    decide +kernel
  have atRethrow : fetch compiled.code 6 = some { instr := .rethrow, handlers := [4] } := by
    rw [← compiled_eq]
    decide +kernel
  have table : compiled.tryBlocks = [catchBlock] := by
    rw [← compiled_eq]
    decide +kernel
  have raises : Run (CallFrame.step compiled sameClass) (fun _ _ => True) {} raisedByCall :=
    .tail .refl True.intro (step_running (.raise 1) rfl atCall rfl)
  have handler : compiled.tryBlocks.find? (·.handles sameClass (raisedByCall.pc % 2 ^ 16) 1) = some catchBlock := by
    rw [table]
    decide
  obtain ⟨root, rooted, -⟩ := reachable _ raisedByCall 1 catchBlock _ raises rfl handler
    (.tail .refl ⟨Nat.zero_lt_one, True.intro⟩ (step_running (.finish 0) rfl inHandler rfl))
    ⟨_, _, .tail .refl (Nat.zero_lt_one) (step_running (.finish 0) rfl cleared rfl), rfl, atRethrow, rfl, rfl,
      step_running .next rfl atRethrow rfl⟩
    noTypes (oneRecord .cls) oneString [] 1 ⟨by decide, rfl⟩
  rw [List.append_nil, rooted_markFrame] at rooted
  obtain ⟨scan, member, target⟩ := rooted
  have positive := (mem_classTargets.mp target).1.positive
  have empty : ∀ scan ∈ clearedFunction.scans,
      Function.update (Function.update (fun _ => (0 : Int)) 5 1) 5 0 scan.1 ≤ 0 := by
    decide
  exact absurd positive (Int.not_lt.mpr (empty scan member))

end NLang.Backend
