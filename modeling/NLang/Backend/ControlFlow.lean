import NLang.Vm.Unwind

/-!
# Emission of control flow

The layout of loops, switches, `try` statements and exits (`EmitStmtFlow.cpp`, `EmitStmtSwitch.cpp`,
`EmitStmtTry.cpp`, `EmitStaticInit.cpp`). Everything between is a straight line of instructions.
-/

namespace NLang.Backend
open NLang.Vm

inductive Flow where
  | skip
  | seq (first second : Flow)
  | straight (ops : List Op)
  | ifElse (condition : List Op) (thenStmt elseStmt : Flow)
  | whileLoop (condition : List Op) (body : Flow)
  | doLoop (body : Flow) (condition : List Op)
  | forLoop (init condition : List Op) (body : Flow) (fini : List Op)
  | switch (subject : List Op) (clauses : Flow)
  | clause (labels : List (List Op)) (body rest : Flow)
  | tryCatch (body handlers : Flow)
  | tryFinally (body handlers finallyBody : Flow)
  | handler (exceptionClassIdx : Option Nat) (catchLocal : Nat) (body rest : Flow)
  /-- The protocol of static initializers: the body, whose failure is recorded and rethrown. -/
  | guarded (gate : Bool) (body : Flow) (done fail : List Op) (excLocal : Nat)
  | throwValue (value : List Op)
  | rethrow
  | result (value : List Op) (hasValue : Bool)
  | breakLoop
  | continueLoop

structure Fragment where
  code : List Item := []
  tryBlocks : List TryBlock := []
  copies : List (Nat × Nat) := []

namespace Fragment

def size (fragment : Fragment) : Nat := codeSize fragment.code

instance : Append Fragment where
  append first second :=
    { code := first.code ++ second.code, tryBlocks := first.tryBlocks ++ second.tryBlocks
      copies := first.copies ++ second.copies }

end Fragment

def opsSize (ops : List Op) : Nat := codeSize (ops.map fun o => { instr := .op o })

structure LoopShape where
  isSwitch : Bool
  catchBodyDepthAtEntry : Nat
  finallyDepthAtEntry : Nat

structure Shape where
  loops : List LoopShape := []
  catchBodyDepth : Nat := 0
  finallySizes : List Nat := []

namespace Shape
variable (shape : Shape)

def loop (isSwitch : Bool) : LoopShape :=
  { isSwitch, catchBodyDepthAtEntry := shape.catchBodyDepth, finallyDepthAtEntry := shape.finallySizes.length }

def pushLoop (isSwitch : Bool) : Shape := { shape with loops := shape.loop isSwitch :: shape.loops }

def pushFinally (size : Nat) : Shape := { shape with finallySizes := size :: shape.finallySizes }

def enterCatchBody : Shape := { shape with catchBodyDepth := shape.catchBodyDepth + 1 }

def pops (loop : LoopShape) : Nat := shape.catchBodyDepth - loop.catchBodyDepthAtEntry

def leaves (loop : LoopShape) : Nat := shape.finallySizes.length - loop.finallyDepthAtEntry

def exitSize (loop : Option LoopShape) : Nat :=
  match loop with
  | none => 0
  | some loop => shape.pops loop + (shape.finallySizes.take (shape.leaves loop)).sum + 3

end Shape

def labelsSize : List (List Op) → Nat
  | [] => 0
  | [last] => opsSize last + 5
  | label :: rest => opsSize label + 8 + labelsSize rest

def returnSize (hasValue : Bool) : Nat := if hasValue then 4 else 1

def Flow.size : Shape → Flow → Nat
  | _, .skip => 0
  | shape, .seq first second => first.size shape + second.size shape
  | _, .straight ops => opsSize ops
  | shape, .ifElse condition thenStmt elseStmt =>
    opsSize condition + 5 + thenStmt.size shape + 3 + elseStmt.size shape
  | shape, .whileLoop condition body => opsSize condition + 5 + body.size (shape.pushLoop false) + 3
  | shape, .doLoop body condition => body.size (shape.pushLoop false) + opsSize condition + 5 + 3
  | shape, .forLoop init condition body fini =>
    opsSize init + opsSize condition + 5 + body.size (shape.pushLoop false) + opsSize fini + 3
  | shape, .switch subject clauses => opsSize subject + clauses.size (shape.pushLoop true)
  | shape, .clause labels body rest => labelsSize labels + body.size shape + 3 + rest.size shape
  | shape, .tryCatch body handlers => body.size shape + 3 + handlers.size shape
  | shape, .tryFinally body handlers finallyBody =>
    let inner := shape.pushFinally (finallyBody.size {})
    body.size inner + 3 + handlers.size inner + (finallyBody.size {} + 1) + (finallyBody.size {} + 3)
  | shape, .handler _ _ body rest => body.size shape.enterCatchBody + 4 + rest.size shape
  | shape, .guarded gate body done fail _ =>
    (if gate then 5 else 0) + body.size shape + opsSize done + 3 + opsSize fail + 1
  | _, .throwValue value => opsSize value + 3
  | _, .rethrow => 1
  | shape, .result value hasValue => opsSize value + shape.finallySizes.sum + returnSize hasValue
  | shape, .breakLoop => shape.exitSize shape.loops.head?
  | shape, .continueLoop => shape.exitSize (shape.loops.find? (!·.isSwitch))

structure FinallyCopy where
  size : Nat
  emit : Nat → List Nat → Fragment

structure LoopContext extends LoopShape where
  breakTarget : Nat
  continueTarget : Nat

/-- Enclosing loops and finally bodies, innermost first, and the handlers whose code is being emitted. `tryRange`,
`outer` and `completion` are for the handlers of a `try`; `finallyLocal` is the slot of `$finally_exc`. -/
structure EmitContext where
  loopStack : List LoopContext := []
  catchBodyDepth : Nat := 0
  finallyStack : List FinallyCopy := []
  handlers : List Nat := []
  tryRange : Nat × Nat := (0, 0)
  outer : List Nat := []
  completion : Nat := 0
  finallyLocal : Nat := 0

namespace EmitContext
variable (ctx : EmitContext)

def shape : Shape :=
  { loops := ctx.loopStack.map LoopContext.toLoopShape, catchBodyDepth := ctx.catchBodyDepth
    finallySizes := ctx.finallyStack.map FinallyCopy.size }

def pushLoop (isSwitch : Bool) (breakTarget continueTarget : Nat) : EmitContext :=
  { ctx with loopStack := { ctx.shape.loop isSwitch with breakTarget, continueTarget } :: ctx.loopStack }

def pushFinally (copy : FinallyCopy) : EmitContext := { ctx with finallyStack := copy :: ctx.finallyStack }

def enterCatchBody (handlerPc : Nat) : EmitContext :=
  { ctx with handlers := handlerPc :: ctx.handlers, catchBodyDepth := ctx.catchBodyDepth + 1 }

def catching (startPc endPc completion : Nat) : EmitContext :=
  { ctx with tryRange := (startPc, endPc), outer := ctx.handlers, completion }

@[simp] theorem shape_pushLoop (isSwitch : Bool) (breakTarget continueTarget : Nat) :
    (ctx.pushLoop isSwitch breakTarget continueTarget).shape = ctx.shape.pushLoop isSwitch := rfl

@[simp] theorem shape_pushFinally (copy : FinallyCopy) :
    (ctx.pushFinally copy).shape = ctx.shape.pushFinally copy.size := rfl

@[simp] theorem shape_enterCatchBody (handlerPc : Nat) :
    (ctx.enterCatchBody handlerPc).shape = ctx.shape.enterCatchBody := rfl

@[simp] theorem shape_catching (startPc endPc completion : Nat) :
    (ctx.catching startPc endPc completion).shape = ctx.shape := rfl

end EmitContext

section Emit
variable (handlers : List Nat)

def emitOps (ops : List Op) : Fragment := { code := ops.map fun o => { instr := .op o, handlers } }

def emitInstr (instr : Instr) : Fragment := { code := [{ instr, handlers }] }

def emitTest (condition : List Op) (target : Nat) : Fragment :=
  emitOps handlers condition ++ emitInstr handlers (.jumpIfNot target)

def emitLabels (bodyStart miss : Nat) : Nat → List (List Op) → Fragment
  | _, [] => {}
  | _, [last] => emitTest handlers last miss
  | base, label :: rest =>
    let next := base + opsSize label + 8
    emitTest handlers label next ++ emitInstr handlers (.jump bodyStart) ++ emitLabels bodyStart miss next rest

def emitCopies (base : Nat) : List FinallyCopy → Fragment
  | [] => {}
  | copy :: rest =>
    { copy.emit base handlers with copies := (base, base + copy.size) :: (copy.emit base handlers).copies } ++
      emitCopies (base + copy.size) rest

def emitReturn (hasValue : Bool) : Fragment :=
  (if hasValue then emitInstr handlers .varLocal else {}) ++ emitInstr handlers .ret

end Emit

def emitPops : List Nat → Nat → Fragment
  | _, 0 => {}
  | handlers, pops + 1 => emitInstr handlers .popHandler ++ emitPops handlers.tail pops

def emitExit (ctx : EmitContext) (base : Nat) (loop : Option LoopContext) (target : LoopContext → Nat) : Fragment :=
  match loop with
  | none => {}
  | some loop =>
    let pops := ctx.shape.pops loop.toLoopShape
    emitPops ctx.handlers pops ++
      emitCopies (ctx.handlers.drop pops) (base + pops)
        (ctx.finallyStack.take (ctx.shape.leaves loop.toLoopShape)) ++
      emitInstr (ctx.handlers.drop pops) (.jump (target loop))

def Fragment.block (block : TryBlock) : Fragment := { tryBlocks := [block] }

def Flow.emit : EmitContext → Nat → Flow → Fragment
  | _, _, .skip => {}
  | ctx, base, .seq first second => first.emit ctx base ++ second.emit ctx (base + first.size ctx.shape)
  | ctx, _, .straight ops => emitOps ctx.handlers ops
  | ctx, base, .ifElse condition thenStmt elseStmt =>
    let thenStart := base + opsSize condition + 5
    let elseStart := thenStart + thenStmt.size ctx.shape + 3
    emitTest ctx.handlers condition elseStart ++ thenStmt.emit ctx thenStart ++
      emitInstr ctx.handlers (.jump (elseStart + elseStmt.size ctx.shape)) ++ elseStmt.emit ctx elseStart
  | ctx, base, .whileLoop condition body =>
    let loopEnd := base + Flow.size ctx.shape (.whileLoop condition body)
    emitTest ctx.handlers condition loopEnd ++
      body.emit (ctx.pushLoop false loopEnd base) (base + opsSize condition + 5) ++
      emitInstr ctx.handlers (.jump base)
  | ctx, base, .doLoop body condition =>
    let loopEnd := base + Flow.size ctx.shape (.doLoop body condition)
    let continueTarget := base + body.size (ctx.shape.pushLoop false)
    body.emit (ctx.pushLoop false loopEnd continueTarget) base ++ emitTest ctx.handlers condition loopEnd ++
      emitInstr ctx.handlers (.jump base)
  | ctx, base, .forLoop init condition body fini =>
    let loopStart := base + opsSize init
    let loopEnd := base + Flow.size ctx.shape (.forLoop init condition body fini)
    let bodyStart := loopStart + opsSize condition + 5
    let continueTarget := bodyStart + body.size (ctx.shape.pushLoop false)
    emitOps ctx.handlers init ++ emitTest ctx.handlers condition loopEnd ++
      body.emit (ctx.pushLoop false loopEnd continueTarget) bodyStart ++ emitOps ctx.handlers fini ++
      emitInstr ctx.handlers (.jump loopStart)
  | ctx, base, .switch subject clauses =>
    let locEnd := base + Flow.size ctx.shape (.switch subject clauses)
    emitOps ctx.handlers subject ++ clauses.emit (ctx.pushLoop true locEnd 0) (base + opsSize subject)
  | ctx, base, .clause labels body rest =>
    let bodyStart := base + labelsSize labels
    let next := bodyStart + body.size ctx.shape + 3
    emitLabels ctx.handlers bodyStart next base labels ++ body.emit ctx bodyStart ++
      emitInstr ctx.handlers (.jump (next + rest.size ctx.shape)) ++ rest.emit ctx next
  | ctx, base, .tryCatch body handlers =>
    let tryEnd := base + body.size ctx.shape + 3
    let postTry := tryEnd + handlers.size ctx.shape
    body.emit ctx base ++ emitInstr ctx.handlers (.jump postTry) ++
      handlers.emit (ctx.catching base tryEnd postTry) tryEnd
  | ctx, base, .tryFinally body handlers finallyBody =>
    let copy := {
      size := finallyBody.size {}
      emit := fun base handlers => finallyBody.emit { handlers, finallyLocal := ctx.finallyLocal } base }
    let inner := ctx.pushFinally copy
    let tryEnd := base + body.size inner.shape + 3
    let rangeEnd := tryEnd + handlers.size inner.shape
    let finallyNormal := rangeEnd + copy.size + 1
    body.emit inner base ++ emitInstr ctx.handlers (.jump finallyNormal) ++
      handlers.emit (inner.catching base tryEnd finallyNormal) tryEnd ++
      .block {
        startPc := base, endPc := rangeEnd, handlerPc := rangeEnd, exceptionClassIdx := none
        catchLocal := ctx.finallyLocal, outer := ctx.handlers } ++
      copy.emit rangeEnd (rangeEnd :: ctx.handlers) ++ emitInstr (rangeEnd :: ctx.handlers) .rethrow ++
      copy.emit finallyNormal ctx.handlers ++ emitInstr ctx.handlers (.jump (finallyNormal + copy.size + 3))
  | ctx, base, .handler exceptionClassIdx catchLocal body rest =>
    let next := base + body.size ctx.shape.enterCatchBody + 4
    .block {
      startPc := ctx.tryRange.1, endPc := ctx.tryRange.2, handlerPc := base, exceptionClassIdx, catchLocal
      outer := ctx.outer } ++
      body.emit (ctx.enterCatchBody base) base ++ emitInstr (base :: ctx.handlers) .popHandler ++
      emitInstr ctx.handlers (.jump ctx.completion) ++ rest.emit ctx next
  | ctx, base, .guarded gate body done fail excLocal =>
    let tryStart := base + if gate then 5 else 0
    let tryEnd := tryStart + body.size ctx.shape
    let handlerPc := tryEnd + opsSize done + 3
    let next := base + Flow.size ctx.shape (.guarded gate body done fail excLocal)
    (if gate then emitInstr ctx.handlers (.gate next) else {}) ++ body.emit ctx tryStart ++
      emitOps ctx.handlers done ++ emitInstr ctx.handlers (.jump next) ++
      .block {
        startPc := tryStart, endPc := tryEnd, handlerPc, exceptionClassIdx := none, catchLocal := excLocal
        outer := ctx.handlers } ++
      emitOps (handlerPc :: ctx.handlers) fail ++ emitInstr (handlerPc :: ctx.handlers) .rethrow
  | ctx, _, .throwValue value => emitOps ctx.handlers value ++ emitInstr ctx.handlers .throwValue
  | ctx, _, .rethrow => emitInstr ctx.handlers .rethrow
  | ctx, base, .result value hasValue =>
    emitOps ctx.handlers value ++ emitCopies ctx.handlers (base + opsSize value) ctx.finallyStack ++
      emitReturn ctx.handlers hasValue
  | ctx, base, .breakLoop => emitExit ctx base ctx.loopStack.head? LoopContext.breakTarget
  | ctx, base, .continueLoop => emitExit ctx base (ctx.loopStack.find? (!·.isSwitch)) LoopContext.continueTarget

def Flow.finallyCopy (finallyLocal : Nat) (finallyBody : Flow) : FinallyCopy :=
  { size := finallyBody.size {}, emit := fun base handlers => finallyBody.emit { handlers, finallyLocal } base }

theorem Flow.emit_tryFinally (ctx : EmitContext) (base : Nat) (body handlers finallyBody : Flow) :
    (Flow.tryFinally body handlers finallyBody).emit ctx base =
      let copy := finallyBody.finallyCopy ctx.finallyLocal
      let tryEnd := base + body.size (ctx.pushFinally copy).shape + 3
      let rangeEnd := tryEnd + handlers.size (ctx.pushFinally copy).shape
      let finallyNormal := rangeEnd + copy.size + 1
      body.emit (ctx.pushFinally copy) base ++ emitInstr ctx.handlers (.jump finallyNormal) ++
        handlers.emit ((ctx.pushFinally copy).catching base tryEnd finallyNormal) tryEnd ++
        .block {
          startPc := base, endPc := rangeEnd, handlerPc := rangeEnd, exceptionClassIdx := none
          catchLocal := ctx.finallyLocal, outer := ctx.handlers } ++
        copy.emit rangeEnd (rangeEnd :: ctx.handlers) ++ emitInstr (rangeEnd :: ctx.handlers) .rethrow ++
        copy.emit finallyNormal ctx.handlers ++ emitInstr ctx.handlers (.jump (finallyNormal + copy.size + 3)) :=
  rfl

namespace Fragment

@[simp] theorem code_append (first second : Fragment) : (first ++ second).code = first.code ++ second.code := rfl

@[simp] theorem tryBlocks_append (first second : Fragment) :
    (first ++ second).tryBlocks = first.tryBlocks ++ second.tryBlocks := rfl

@[simp] theorem copies_append (first second : Fragment) :
    (first ++ second).copies = first.copies ++ second.copies := rfl

theorem append_assoc (first second third : Fragment) : first ++ second ++ third = first ++ (second ++ third) := by
  show Fragment.mk _ _ _ = Fragment.mk _ _ _
  simp

@[simp] theorem size_append (first second : Fragment) : (first ++ second).size = first.size + second.size := by
  simp [size]

@[simp] theorem size_empty : ({} : Fragment).size = 0 := rfl

@[simp] theorem size_block (tryBlock : TryBlock) : (block tryBlock).size = 0 := rfl

end Fragment

@[simp] theorem opsSize_nil : opsSize [] = 0 := rfl

@[simp] theorem emitOps_size (handlers : List Nat) (ops : List Op) : (emitOps handlers ops).size = opsSize ops := by
  simp [emitOps, Fragment.size, opsSize, codeSize, Function.comp_def, Item.stride]

@[simp] theorem emitInstr_size (handlers : List Nat) (instr : Instr) :
    (emitInstr handlers instr).size = instr.stride := by
  simp [emitInstr, Fragment.size, Item.stride]

@[simp] theorem emitTest_size (handlers : List Nat) (condition : List Op) (target : Nat) :
    (emitTest handlers condition target).size = opsSize condition + 5 := by
  simp [emitTest, Instr.stride]

@[simp] theorem emitReturn_size (handlers : List Nat) (hasValue : Bool) :
    (emitReturn handlers hasValue).size = returnSize hasValue := by
  cases hasValue <;> rfl

@[simp] theorem emitPops_size (handlers : List Nat) (pops : Nat) : (emitPops handlers pops).size = pops := by
  induction pops generalizing handlers with
  | zero => rfl
  | succ pops ih =>
    rw [emitPops, Fragment.size_append, ih, emitInstr_size]
    simp only [Instr.stride]
    omega

@[simp] theorem emitLabels_size (handlers : List Nat) (bodyStart miss base : Nat) (labels : List (List Op)) :
    (emitLabels handlers bodyStart miss base labels).size = labelsSize labels := by
  fun_induction emitLabels handlers bodyStart miss base labels with
  | case1 => rfl
  | case2 => simp [labelsSize]
  | case3 base label rest nonempty next ih =>
    rw [labelsSize]
    · simp only [Fragment.size_append, ih, emitTest_size, emitInstr_size, Instr.stride]
    · exact nonempty

def FinallyCopy.Sized (copy : FinallyCopy) : Prop := ∀ base handlers, (copy.emit base handlers).size = copy.size

theorem emitCopies_size {handlers : List Nat} {copies : List FinallyCopy} (base : Nat)
    (sized : ∀ copy ∈ copies, copy.Sized) :
    (emitCopies handlers base copies).size = (copies.map FinallyCopy.size).sum := by
  induction copies generalizing base with
  | nil => rfl
  | cons copy rest ih =>
    obtain ⟨first, later⟩ := List.forall_mem_cons.mp sized
    rw [emitCopies, Fragment.size_append, ih _ later, List.map_cons, List.sum_cons]
    exact congrArg (· + _) (first base handlers)

theorem emitExit_size {ctx : EmitContext} {base : Nat} (loop : Option LoopContext) (target : LoopContext → Nat)
    (sized : ∀ copy ∈ ctx.finallyStack, copy.Sized) :
    (emitExit ctx base loop target).size = ctx.shape.exitSize (loop.map LoopContext.toLoopShape) := by
  cases loop with
  | none => rfl
  | some loop =>
    have taken : ∀ copy ∈ ctx.finallyStack.take (ctx.shape.leaves loop.toLoopShape), copy.Sized := by
      intro copy member
      exact sized copy (List.mem_of_mem_take member)
    simp only [emitExit, Fragment.size_append, emitPops_size, emitCopies_size _ taken, emitInstr_size,
      Instr.stride, Option.map_some, Shape.exitSize, List.map_take]
    rfl

theorem Flow.emit_size {f : Flow} {ctx : EmitContext} (base : Nat)
    (sized : ∀ copy ∈ ctx.finallyStack, copy.Sized) : (f.emit ctx base).size = f.size ctx.shape := by
  induction f generalizing ctx base with
  | skip => rfl
  | seq first second firstIh secondIh =>
    rw [emit, Fragment.size_append, firstIh base sized, secondIh _ sized, size]
  | straight ops => simp [emit, size]
  | ifElse condition thenStmt elseStmt thenIh elseIh =>
    simp [emit, size, thenIh _ sized, elseIh _ sized, Instr.stride]
  | whileLoop condition body ih =>
    simp only [emit, Fragment.size_append, emitTest_size, emitInstr_size]
    rw [ih]
    · simp [size, Instr.stride]
    · exact sized
  | doLoop body condition ih =>
    simp only [emit, Fragment.size_append, emitTest_size, emitInstr_size]
    rw [ih]
    · simp [size, Instr.stride, Nat.add_assoc]
    · exact sized
  | forLoop init condition body fini ih =>
    simp only [emit, Fragment.size_append, emitOps_size, emitTest_size, emitInstr_size]
    rw [ih]
    · simp [size, Instr.stride, Nat.add_assoc]
    · exact sized
  | switch subject clauses ih =>
    simp only [emit, Fragment.size_append, emitOps_size]
    rw [ih]
    · simp [size]
    · exact sized
  | clause labels body rest bodyIh restIh =>
    simp [emit, size, bodyIh _ sized, restIh _ sized, Instr.stride]
  | tryCatch body handlers bodyIh handlersIh =>
    simp only [emit, Fragment.size_append, emitInstr_size]
    rw [bodyIh _ sized, handlersIh]
    · simp [size, Instr.stride]
    · exact sized
  | tryFinally body handlers finallyBody bodyIh handlersIh finallyIh =>
    have finallySize : ∀ base handlers,
        (finallyBody.emit { handlers, finallyLocal := ctx.finallyLocal } base).size = finallyBody.size {} := by
      intro base handlers
      apply finallyIh
      intro copy member
      cases member
    have inner : ∀ copy ∈ { size := finallyBody.size {}
                            emit := fun base handlers =>
                              finallyBody.emit { handlers, finallyLocal := ctx.finallyLocal } base } ::
          ctx.finallyStack, copy.Sized := List.forall_mem_cons.mpr ⟨finallySize, sized⟩
    simp only [emit, Fragment.size_append, emitInstr_size, Fragment.size_block, finallySize]
    rw [bodyIh _ inner, handlersIh _ inner]
    simp [size, Instr.stride]
    omega
  | handler exceptionClassIdx catchLocal body rest bodyIh restIh =>
    simp only [emit, Fragment.size_append, emitInstr_size, Fragment.size_block]
    rw [bodyIh, restIh _ sized]
    · simp only [size, Instr.stride, EmitContext.shape_enterCatchBody]
      omega
    · exact sized
  | guarded gate body done fail excLocal ih =>
    cases gate <;> simp [emit, size, ih _ sized, Instr.stride]
  | throwValue value => simp [emit, size, Instr.stride]
  | rethrow => simp [emit, size, Instr.stride]
  | result value hasValue =>
    simp [emit, size, emitCopies_size _ sized, EmitContext.shape]
  | breakLoop =>
    rw [emit, size, emitExit_size _ _ sized]
    simp [EmitContext.shape]
  | continueLoop =>
    rw [emit, size, emitExit_size _ _ sized]
    simp [EmitContext.shape, List.find?_map]

def Instr.truncate : Instr → Instr
  | .jump target => .jump (target % 2 ^ 16)
  | .jumpIfNot target => .jumpIfNot (target % 2 ^ 16)
  | .gate target => .gate (target % 2 ^ 16)
  | instr => instr

def TryBlock.truncate (block : TryBlock) : TryBlock :=
  { block with
    startPc := block.startPc % 2 ^ 16, endPc := block.endPc % 2 ^ 16, handlerPc := block.handlerPc % 2 ^ 16 }

def Fragment.stored (fragment : Fragment) : CompiledBody :=
  { code := fragment.code.map fun item => { item with instr := Instr.truncate item.instr }
    tryBlocks := fragment.tryBlocks.map TryBlock.truncate }

def Flow.function (body : Flow) : Flow := .seq body (.result [] false)

def compileFlow (finallyLocal : Nat) (body : Flow) : Fragment := body.function.emit { finallyLocal } 0

end NLang.Backend
