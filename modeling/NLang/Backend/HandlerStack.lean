import NLang.Backend.ControlFlow
import NLang.Library.Runs

/-!
# The stack of caught exceptions

What the resolver accepts as the body of a function, that the code emitted for it keeps track of the handlers it
runs in, and which exception `OP_Rethrow` finds on the stack.
-/

namespace NLang.Backend
open NLang.Vm NLang.Library.Runs

inductive Position where
  | statement | clauses | handlers
  deriving DecidableEq

structure ResolveEnv where
  inFinallyBody : Bool := false
  inCatch : Bool := false
  breakable : Bool := false
  inLoop : Bool := false
  position : Position := .statement

namespace ResolveEnv
variable (env : ResolveEnv)

def isStatement : Bool := env.position ≠ .handlers

def statement : ResolveEnv := { env with position := .statement }

def enterLoop : ResolveEnv := { env with position := .statement, breakable := true, inLoop := true }

end ResolveEnv

def Flow.isSkip : Flow → Bool
  | .skip => true
  | _ => false

@[simp] def Flow.accepted : ResolveEnv → Flow → Bool
  | _, .skip => true
  | env, .seq first second => env.isStatement && first.accepted env.statement && second.accepted env.statement
  | env, .straight _ => env.isStatement
  | env, .ifElse _ thenStmt elseStmt =>
    env.isStatement && thenStmt.accepted env.statement && elseStmt.accepted env.statement
  | env, .whileLoop _ body | env, .doLoop body _ | env, .forLoop _ _ body _ =>
    env.isStatement && body.accepted env.enterLoop
  | env, .switch _ clauses => env.isStatement && clauses.accepted { env with position := .clauses, breakable := true }
  | env, .clause _ body rest => env.position = .clauses && body.accepted env.statement && rest.accepted env
  | env, .tryCatch body handlers =>
    env.isStatement && body.accepted env.statement && !handlers.isSkip &&
      handlers.accepted { env with position := .handlers }
  | env, .tryFinally body handlers finallyBody =>
    env.isStatement && body.accepted env.statement && handlers.accepted { env with position := .handlers } &&
      finallyBody.accepted { env with position := .statement, inFinallyBody := true }
  | env, .handler _ _ body rest =>
    env.position = .handlers && body.accepted { env with position := .statement, inCatch := true } &&
      rest.accepted env
  | env, .guarded _ body _ _ _ =>
    env.isStatement && body.accepted { env with position := .statement, inFinallyBody := true }
  | env, .throwValue _ | env, .result _ _ => env.isStatement && !env.inFinallyBody
  | env, .rethrow => env.isStatement && !env.inFinallyBody && env.inCatch
  | env, .breakLoop => env.isStatement && !env.inFinallyBody && env.breakable
  | env, .continueLoop => env.isStatement && !env.inFinallyBody && env.inLoop

section Tracking
variable (code : List Item)

def Leads (pc : Nat) (handlers : List Nat) : Prop :=
  ∃ item, fetch code pc = some item ∧ item.handlers = handlers

/-- Wherever the instruction can lead without an exception, the code is part of the handlers that are still
running. -/
def Tracks (pc : Nat) (item : Item) : Prop :=
  match item.instr with
  | .op _ | .varLocal => Leads code (pc + item.stride) item.handlers
  | .jump target => Leads code target item.handlers
  | .jumpIfNot target | .gate target =>
    Leads code target item.handlers ∧ Leads code (pc + item.stride) item.handlers
  | .popHandler => ∃ handler rest, item.handlers = handler :: rest ∧ Leads code (pc + item.stride) rest
  | .rethrow => item.handlers ≠ []
  | .throwValue | .ret => True

structure BlockTracks (block : TryBlock) : Prop where
  start_le : block.startPc ≤ block.endPc
  end_le : block.endPc ≤ block.handlerPc
  outer_lt : ∀ handler ∈ block.outer, handler < block.handlerPc
  leads : Leads code block.handlerPc (block.handlerPc :: block.outer)

structure Sound (base : Nat) (fragment : Fragment) : Prop where
  items : ∀ pc item, fetch fragment.code pc = some item → Tracks code (base + pc) item
  blocks : ∀ block ∈ fragment.tryBlocks, BlockTracks code block

def Placed (base : Nat) (fragment : Fragment) : Prop :=
  ∀ pc item, fetch fragment.code pc = some item → fetch code (base + pc) = some item

end Tracking

section Pieces
variable {code : List Item} {base : Nat} {handlers : List Nat}

theorem Sound.append {first second : Fragment} {next : Nat} (soundFirst : Sound code base first)
    (at_ : next = base + first.size) (soundSecond : Sound code next second) :
    Sound code base (first ++ second) where
  items pc item found := by
    rcases fetch_append_cases found with inFirst | ⟨offset, rfl, inSecond⟩
    · exact soundFirst.items pc item inFirst
    · have tracked := soundSecond.items offset item inSecond
      rw [at_, Nat.add_assoc] at tracked
      exact tracked
  blocks block member := by
    rcases List.mem_append.mp member with inFirst | inSecond
    · exact soundFirst.blocks block inFirst
    · exact soundSecond.blocks block inSecond

theorem Sound.empty : Sound code base {} where
  items pc item found := by cases found
  blocks block member := by cases member

theorem Sound.block {tryBlock : TryBlock} (tracks : BlockTracks code tryBlock) : Sound code base (.block tryBlock) where
  items pc item found := by cases found
  blocks other member := by
    cases List.mem_singleton.mp member
    exact tracks

theorem Placed.left {first second : Fragment} (placed : Placed code base (first ++ second)) :
    Placed code base first := by
  intro pc item found
  exact placed pc item (fetch_append_left found)

theorem Placed.right {first second : Fragment} {next : Nat} (placed : Placed code base (first ++ second))
    (at_ : next = base + first.size) : Placed code next second := by
  intro pc item found
  rw [at_, Nat.add_assoc]
  apply placed
  rw [← found]
  exact fetch_append_right first.code second.code pc

theorem Placed.leads {instr : Instr} (placed : Placed code base (emitInstr handlers instr)) :
    Leads code base handlers :=
  ⟨_, placed 0 _ rfl, rfl⟩

theorem Sound.instr {instr : Instr} (tracks : Tracks code base { instr, handlers }) :
    Sound code base (emitInstr handlers instr) where
  items pc item found := by
    simp only [emitInstr, fetch_cons] at found
    split at found
    · rename_i zero
      cases found
      rw [zero]
      exact tracks
    · split at found
      · cases found
      · cases found
  blocks block member := by cases member

theorem emitOps_cons (o : Op) (rest : List Op) :
    emitOps handlers (o :: rest) = emitInstr handlers (.op o) ++ emitOps handlers rest := rfl

theorem opsSize_cons (o : Op) (rest : List Op) : opsSize (o :: rest) = o.operandBytes + 1 + opsSize rest := by
  simp [opsSize, Item.stride, Instr.stride]

theorem emitOps_sound {ops : List Op} {next : Nat} (placed : Placed code base (emitOps handlers ops))
    (leads : Leads code next handlers) (at_ : next = base + opsSize ops) :
    Leads code base handlers ∧ Sound code base (emitOps handlers ops) := by
  induction ops generalizing base with
  | nil =>
    rw [at_] at leads
    exact ⟨leads, Sound.empty⟩
  | cons o rest ih =>
    rw [emitOps_cons] at placed ⊢
    rw [opsSize_cons, ← Nat.add_assoc] at at_
    obtain ⟨after, soundRest⟩ := ih (placed.right rfl) at_
    exact ⟨placed.left.leads, Sound.append (Sound.instr after) rfl soundRest⟩

theorem emitTest_sound {condition : List Op} {target next : Nat}
    (placed : Placed code base (emitTest handlers condition target))
    (taken : Leads code target handlers) (notTaken : Leads code next handlers)
    (at_ : next = base + opsSize condition + 5) :
    Leads code base handlers ∧ Sound code base (emitTest handlers condition target) := by
  have size : base + (emitOps handlers condition).size = base + opsSize condition := by rw [emitOps_size]
  have jump : Placed code (base + opsSize condition) (emitInstr handlers (.jumpIfNot target)) :=
    placed.right size.symm
  obtain ⟨start, soundOps⟩ := emitOps_sound placed.left jump.leads rfl
  rw [at_] at notTaken
  exact ⟨start, soundOps.append size.symm (Sound.instr ⟨taken, notTaken⟩)⟩

theorem emitTest_leads {condition : List Op} {target : Nat}
    (placed : Placed code base (emitTest handlers condition target)) : Leads code base handlers := by
  have at_ : base + opsSize condition = base + (emitOps handlers condition).size := by rw [emitOps_size]
  exact (emitOps_sound placed.left (placed.right at_).leads rfl).1

theorem emitLabels_sound {bodyStart miss : Nat} {labels : List (List Op)}
    (placed : Placed code base (emitLabels handlers bodyStart miss base labels))
    (leads : Leads code bodyStart handlers) (missed : Leads code miss handlers)
    (ends : bodyStart = base + labelsSize labels) :
    Leads code base handlers ∧ Sound code base (emitLabels handlers bodyStart miss base labels) := by
  fun_induction emitLabels handlers bodyStart miss base labels with
  | case1 base =>
    simp only [labelsSize, Nat.add_zero] at ends
    rw [ends] at leads
    exact ⟨leads, Sound.empty⟩
  | case2 base last =>
    apply emitTest_sound placed missed leads
    rw [ends, labelsSize, Nat.add_assoc]
  | case3 base label rest nonempty next ih =>
    rw [labelsSize] at ends
    · have hitAt : base + opsSize label + 5 = base + (emitTest handlers label next).size := by
        rw [emitTest_size, Nat.add_assoc]
      have nextAt : next =
          base + (emitTest handlers label next ++ emitInstr handlers (.jump bodyStart)).size := by
        simp only [Fragment.size_append, emitTest_size, emitInstr_size, Instr.stride, next]
        omega
      have hit := (placed.left.right hitAt).leads
      obtain ⟨nextLeads, soundRest⟩ := ih (placed.right nextAt) (by omega)
      obtain ⟨start, soundTest⟩ := emitTest_sound placed.left.left nextLeads hit rfl
      have soundHit : Sound code (base + opsSize label + 5) (emitInstr handlers (.jump bodyStart)) :=
        Sound.instr leads
      exact ⟨start, (soundTest.append hitAt soundHit).append nextAt soundRest⟩
    · exact nonempty

theorem emitReturn_sound {hasValue : Bool} (placed : Placed code base (emitReturn handlers hasValue)) :
    Leads code base handlers ∧ Sound code base (emitReturn handlers hasValue) := by
  have soundRet : ∀ base, Sound code base (emitInstr handlers .ret) := fun base => Sound.instr trivial
  cases hasValue with
  | false => exact ⟨(placed.right rfl).leads, Sound.empty.append rfl (soundRet _)⟩
  | true =>
    have after : Tracks code base { instr := .varLocal, handlers } := (placed.right rfl).leads
    exact ⟨placed.left.leads, (Sound.instr after).append rfl (soundRet _)⟩

theorem emitPops_sound {pops : Nat} (placed : Placed code base (emitPops handlers pops))
    (leads : Leads code (base + pops) (handlers.drop pops)) (enough : pops ≤ handlers.length) :
    Leads code base handlers ∧ Sound code base (emitPops handlers pops) := by
  induction pops generalizing base handlers with
  | zero => exact ⟨leads, Sound.empty⟩
  | succ pops ih =>
    cases handlers with
    | nil => exact absurd enough (by simp)
    | cons handler rest =>
      rw [emitPops] at placed ⊢
      have after : base + 1 + pops = base + (pops + 1) := by omega
      rw [← after] at leads
      obtain ⟨next, soundRest⟩ := ih (placed.right rfl) leads (Nat.le_of_succ_le_succ enough)
      exact ⟨placed.left.leads, Sound.append (Sound.instr ⟨handler, rest, rfl, next⟩) rfl soundRest⟩

structure FinallyCopy.Good (code : List Item) (copy : FinallyCopy) : Prop where
  sized : copy.Sized
  sound : ∀ base handlers, Placed code base (copy.emit base handlers) →
    Leads code (base + copy.size) handlers → (∀ handler ∈ handlers, handler ≤ base) →
      Leads code base handlers ∧ Sound code base (copy.emit base handlers)

theorem emitCopies_sound {copies : List FinallyCopy} {next : Nat} (good : ∀ copy ∈ copies, copy.Good code)
    (placed : Placed code base (emitCopies handlers base copies)) (leads : Leads code next handlers)
    (at_ : next = base + (copies.map FinallyCopy.size).sum) (before : ∀ handler ∈ handlers, handler ≤ base) :
    Leads code base handlers ∧ Sound code base (emitCopies handlers base copies) := by
  induction copies generalizing base with
  | nil =>
    rw [at_] at leads
    exact ⟨leads, Sound.empty⟩
  | cons copy rest ih =>
    obtain ⟨first, later⟩ := List.forall_mem_cons.mp good
    rw [emitCopies] at placed ⊢
    have size := first.sized base handlers
    have restAt : base + copy.size = base + (copy.emit base handlers).size := by rw [size]
    rw [List.map_cons, List.sum_cons, ← Nat.add_assoc] at at_
    have further : ∀ handler ∈ handlers, handler ≤ base + copy.size := by
      intro handler member
      exact Nat.le_add_right_of_le (before handler member)
    obtain ⟨nextLeads, soundRest⟩ := ih later (placed.right restAt) at_ further
    obtain ⟨start, soundFirst⟩ := first.sound base handlers placed.left nextLeads before
    exact ⟨start, Sound.append ⟨soundFirst.items, soundFirst.blocks⟩ restAt soundRest⟩

end Pieces

structure LoopLeads (code : List Item) (ctx : EmitContext) (loop : LoopContext) : Prop where
  entered : loop.catchBodyDepthAtEntry ≤ ctx.catchBodyDepth
  enough : ctx.shape.pops loop.toLoopShape ≤ ctx.handlers.length
  breaks : Leads code loop.breakTarget (ctx.handlers.drop (ctx.shape.pops loop.toLoopShape))
  continues : loop.isSwitch = false →
    Leads code loop.continueTarget (ctx.handlers.drop (ctx.shape.pops loop.toLoopShape))

structure Supported (code : List Item) (env : ResolveEnv) (ctx : EmitContext) (base : Nat) : Prop where
  before : ∀ handler ∈ ctx.handlers, handler ≤ base
  inHandler : env.inCatch = true → env.inFinallyBody = false → ctx.handlers ≠ []
  copies : ∀ copy ∈ ctx.finallyStack, copy.Good code
  loops : ∀ loop ∈ ctx.loopStack, LoopLeads code ctx loop

structure Catching (code : List Item) (ctx : EmitContext) (base : Nat) : Prop where
  start_le : ctx.tryRange.1 ≤ ctx.tryRange.2
  end_le : ctx.tryRange.2 ≤ base
  outer : ctx.outer = ctx.handlers
  before : ∀ handler ∈ ctx.handlers, handler < base
  completes : Leads code ctx.completion ctx.handlers

namespace Supported
variable {code : List Item} {env : ResolveEnv} {ctx : EmitContext} {base : Nat}

theorem sized (supported : Supported code env ctx base) : ∀ copy ∈ ctx.finallyStack, copy.Sized :=
  fun copy member => (supported.copies copy member).sized

theorem later {next : Nat} (supported : Supported code env ctx base) (le : base ≤ next) :
    Supported code env ctx next :=
  { supported with before := fun handler member => Nat.le_trans (supported.before handler member) le }

theorem pushLoop {isSwitch : Bool} {breakTarget continueTarget : Nat} {inner : ResolveEnv}
    (supported : Supported code env ctx base) (inCatch : inner.inCatch = env.inCatch)
    (inFinally : inner.inFinallyBody = env.inFinallyBody) (breaks : Leads code breakTarget ctx.handlers)
    (continues : isSwitch = false → Leads code continueTarget ctx.handlers) :
    Supported code inner (ctx.pushLoop isSwitch breakTarget continueTarget) base where
  before := supported.before
  inHandler := by
    rw [inCatch, inFinally]
    exact supported.inHandler
  copies := supported.copies
  loops loop member := by
    have none_ : ctx.shape.pops (ctx.shape.loop isSwitch) = 0 := Nat.sub_self _
    rcases List.mem_cons.mp member with rfl | outer
    · exact {
        entered := Nat.le_refl _
        enough := by
          show ctx.shape.pops (ctx.shape.loop isSwitch) ≤ _
          rw [none_]
          exact Nat.zero_le _
        breaks := by
          show Leads code breakTarget (ctx.handlers.drop (ctx.shape.pops (ctx.shape.loop isSwitch)))
          rw [none_]
          exact breaks
        continues := fun isLoop => by
          show Leads code continueTarget (ctx.handlers.drop (ctx.shape.pops (ctx.shape.loop isSwitch)))
          rw [none_]
          exact continues isLoop }
    · have leads := supported.loops loop outer
      exact { entered := leads.entered, enough := leads.enough, breaks := leads.breaks, continues := leads.continues }

theorem pushFinally {copy : FinallyCopy} (supported : Supported code env ctx base) (good : copy.Good code) :
    Supported code env (ctx.pushFinally copy) base where
  before := supported.before
  inHandler := supported.inHandler
  copies := List.forall_mem_cons.mpr ⟨good, supported.copies⟩
  loops loop member := by
    have leads := supported.loops loop member
    exact { entered := leads.entered, enough := leads.enough, breaks := leads.breaks, continues := leads.continues }

theorem enterCatchBody (supported : Supported code env ctx base) (inner : ResolveEnv) :
    Supported code inner (ctx.enterCatchBody base) base where
  before := List.forall_mem_cons.mpr ⟨Nat.le_refl _, supported.before⟩
  inHandler _ _ := List.cons_ne_nil _ _
  copies := supported.copies
  loops loop member := by
    have leads := supported.loops loop member
    have deeper : (ctx.enterCatchBody base).shape.pops loop.toLoopShape =
        ctx.shape.pops loop.toLoopShape + 1 := Nat.succ_sub leads.entered
    exact {
      entered := Nat.le_succ_of_le leads.entered
      enough := by
        rw [deeper]
        exact Nat.succ_le_succ leads.enough
      breaks := by
        rw [deeper]
        exact leads.breaks
      continues := by
        rw [deeper]
        exact leads.continues }

theorem catching {startPc endPc completion : Nat} {inner : ResolveEnv} (supported : Supported code env ctx base)
    (inCatch : inner.inCatch = env.inCatch) (inFinally : inner.inFinallyBody = env.inFinallyBody) :
    Supported code inner (ctx.catching startPc endPc completion) base where
  before := supported.before
  inHandler := by
    rw [inCatch, inFinally]
    exact supported.inHandler
  copies := supported.copies
  loops loop member := by
    have leads := supported.loops loop member
    exact { entered := leads.entered, enough := leads.enough, breaks := leads.breaks, continues := leads.continues }

theorem statement (supported : Supported code env ctx base) : Supported code env.statement ctx base :=
  { supported with inHandler := supported.inHandler }

end Supported

section Emission
variable {code : List Item}

theorem emitExit_sound {env : ResolveEnv} {ctx : EmitContext} {base : Nat} {loop : Option LoopContext}
    {target : LoopContext → Nat} (supported : Supported code env ctx base)
    (member : ∀ l, loop = some l → l ∈ ctx.loopStack)
    (leads : ∀ l, loop = some l → Leads code (target l) (ctx.handlers.drop (ctx.shape.pops l.toLoopShape)))
    (placed : Placed code base (emitExit ctx base loop target))
    (after : Leads code (base + ctx.shape.exitSize (loop.map LoopContext.toLoopShape)) ctx.handlers) :
    Leads code base ctx.handlers ∧ Sound code base (emitExit ctx base loop target) := by
  cases loop with
  | none => exact ⟨after, Sound.empty⟩
  | some loop =>
    simp only [emitExit] at placed ⊢
    generalize pops_eq : ctx.shape.pops loop.toLoopShape = pops at placed leads ⊢
    generalize copies_eq : ctx.finallyStack.take (ctx.shape.leaves loop.toLoopShape) = copies at placed ⊢
    have loopLeads := supported.loops loop (member loop rfl)
    have enough := loopLeads.enough
    rw [pops_eq] at enough
    have good : ∀ copy ∈ copies, copy.Good code := by
      intro copy inCopies
      rw [← copies_eq] at inCopies
      exact supported.copies copy (List.mem_of_mem_take inCopies)
    have sized : (emitCopies (ctx.handlers.drop pops) (base + pops) copies).size =
        (copies.map FinallyCopy.size).sum := emitCopies_size _ fun copy inCopies => (good copy inCopies).sized
    have copiesAt : base + pops = base + (emitPops ctx.handlers pops).size := by rw [emitPops_size]
    have jumpAt : base + pops + (copies.map FinallyCopy.size).sum =
        base + (emitPops ctx.handlers pops ++ emitCopies (ctx.handlers.drop pops) (base + pops) copies).size := by
      rw [Fragment.size_append, emitPops_size, sized, Nat.add_assoc]
    have dropped : ∀ handler ∈ ctx.handlers.drop pops, handler ≤ base + pops := by
      intro handler inHandlers
      exact Nat.le_add_right_of_le (supported.before handler (List.mem_of_mem_drop inHandlers))
    have jump := (placed.right jumpAt).leads
    have jumps := leads loop rfl
    rw [pops_eq] at jumps
    obtain ⟨copiesLeads, soundCopies⟩ := emitCopies_sound good (placed.left.right copiesAt) jump rfl dropped
    obtain ⟨start, soundPops⟩ := emitPops_sound placed.left.left copiesLeads enough
    have soundJump : Sound code (base + pops + (copies.map FinallyCopy.size).sum)
        (emitInstr (ctx.handlers.drop pops) (.jump (target loop))) := Sound.instr jumps
    exact ⟨start, Sound.append (Sound.append soundPops copiesAt soundCopies) jumpAt soundJump⟩

structure EmitsSound (code : List Item) (env : ResolveEnv) (ctx : EmitContext) (base : Nat) (f : Flow) : Prop where
  statement : env.isStatement = true → Leads code (base + f.size ctx.shape) ctx.handlers →
    Leads code base ctx.handlers ∧ Sound code base (f.emit ctx base)
  handlers : env.position = .handlers → Catching code ctx base → Sound code base (f.emit ctx base)

theorem EmitsSound.of_statement {env : ResolveEnv} {ctx : EmitContext} {base : Nat} {f : Flow}
    (isStatement : env.isStatement = true)
    (sound : Leads code (base + f.size ctx.shape) ctx.handlers →
      Leads code base ctx.handlers ∧ Sound code base (f.emit ctx base)) : EmitsSound code env ctx base f where
  statement _ := sound
  handlers position := by
    rw [ResolveEnv.isStatement, position] at isStatement
    cases isStatement

def Flow.Tracked (code : List Item) (f : Flow) : Prop :=
  ∀ {env : ResolveEnv} {ctx : EmitContext} {base : Nat}, f.accepted env = true → Supported code env ctx base →
    Placed code base (f.emit ctx base) → EmitsSound code env ctx base f

namespace Flow

theorem seq_tracked {first second : Flow} (firstIh : first.Tracked code) (secondIh : second.Tracked code) :
    (seq first second).Tracked code := by
  intro env ctx base resolved supported placed
  simp only [accepted, Bool.and_eq_true] at resolved
  obtain ⟨⟨isStatement, firstResolved⟩, secondResolved⟩ := resolved
  apply EmitsSound.of_statement isStatement
  intro leads
  have middle : base + first.size ctx.shape = base + (first.emit ctx base).size := by
    rw [first.emit_size base supported.sized]
  rw [size, ← Nat.add_assoc] at leads
  have secondSound := secondIh secondResolved (supported.statement.later (Nat.le_add_right _ _))
    (placed.right middle)
  obtain ⟨middleLeads, soundSecond⟩ := secondSound.statement rfl leads
  obtain ⟨start, soundFirst⟩ :=
    (firstIh firstResolved supported.statement placed.left).statement rfl middleLeads
  exact ⟨start, soundFirst.append middle soundSecond⟩

theorem ifElse_tracked {condition : List Op} {thenStmt elseStmt : Flow} (thenIh : thenStmt.Tracked code)
    (elseIh : elseStmt.Tracked code) : (ifElse condition thenStmt elseStmt).Tracked code := by
  intro env ctx base resolved supported placed
  simp only [accepted, Bool.and_eq_true] at resolved
  obtain ⟨⟨isStatement, thenResolved⟩, elseResolved⟩ := resolved
  apply EmitsSound.of_statement isStatement
  intro leads
  simp only [emit] at placed ⊢
  simp only [size] at leads
  have thenSize : ∀ b, (thenStmt.emit ctx b).size = thenStmt.size ctx.shape :=
    fun b => thenStmt.emit_size b supported.sized
  generalize thenStart_eq : base + opsSize condition + 5 = thenStart at placed ⊢
  generalize elseStart_eq : thenStart + thenStmt.size ctx.shape + 3 = elseStart at placed ⊢
  have endLeads : Leads code (elseStart + elseStmt.size ctx.shape) ctx.handlers := by
    convert leads using 1
    omega
  have elsePlaced : Placed code elseStart (elseStmt.emit ctx elseStart) :=
    placed.right (by simp [thenSize, Instr.stride]; omega)
  have jumpPlaced : Placed code (thenStart + thenStmt.size ctx.shape)
      (emitInstr ctx.handlers (.jump (elseStart + elseStmt.size ctx.shape))) :=
    placed.left.right (by simp [thenSize]; omega)
  have thenPlaced : Placed code thenStart (thenStmt.emit ctx thenStart) :=
    placed.left.left.right (by simp; omega)
  have elseSound := elseIh elseResolved (supported.statement.later (by omega)) elsePlaced
  obtain ⟨elseLeads, soundElse⟩ := elseSound.statement rfl endLeads
  have thenSound := thenIh thenResolved (supported.statement.later (by omega)) thenPlaced
  obtain ⟨thenLeads, soundThen⟩ := thenSound.statement rfl jumpPlaced.leads
  obtain ⟨start, soundTest⟩ := emitTest_sound placed.left.left.left elseLeads thenLeads thenStart_eq.symm
  have soundJump : Sound code (thenStart + thenStmt.size ctx.shape)
      (emitInstr ctx.handlers (.jump (elseStart + elseStmt.size ctx.shape))) := Sound.instr endLeads
  refine ⟨start, ((soundTest.append ?_ soundThen).append ?_ soundJump).append ?_ soundElse⟩
  all_goals simp [thenSize, Instr.stride]
  all_goals omega

theorem whileLoop_tracked {condition : List Op} {body : Flow} (ih : body.Tracked code) :
    (whileLoop condition body).Tracked code := by
  intro env ctx base resolved supported placed
  simp only [accepted, Bool.and_eq_true] at resolved
  obtain ⟨isStatement, bodyResolved⟩ := resolved
  apply EmitsSound.of_statement isStatement
  intro leads
  simp only [emit] at placed ⊢
  generalize loopEnd_eq : base + size ctx.shape (.whileLoop condition body) = loopEnd at placed leads ⊢
  have bodySize : ∀ b, (body.emit (ctx.pushLoop false loopEnd base) b).size =
      body.size (ctx.shape.pushLoop false) := fun b => body.emit_size b supported.sized
  generalize bodyStart_eq : base + opsSize condition + 5 = bodyStart at placed ⊢
  have start := emitTest_leads placed.left.left
  have bodyPlaced : Placed code bodyStart (body.emit (ctx.pushLoop false loopEnd base) bodyStart) :=
    placed.left.right (by simp; omega)
  have jumpPlaced : Placed code (bodyStart + body.size (ctx.shape.pushLoop false))
      (emitInstr ctx.handlers (.jump base)) := placed.right (by simp [bodySize]; omega)
  have bodySound := ih bodyResolved
    ((supported.later (by omega)).pushLoop rfl rfl leads fun _ => start) bodyPlaced
  obtain ⟨bodyLeads, soundBody⟩ := bodySound.statement rfl jumpPlaced.leads
  obtain ⟨-, soundTest⟩ := emitTest_sound placed.left.left leads bodyLeads bodyStart_eq.symm
  have soundJump : Sound code (bodyStart + body.size (ctx.shape.pushLoop false))
      (emitInstr ctx.handlers (.jump base)) := Sound.instr start
  refine ⟨start, (soundTest.append ?_ soundBody).append ?_ soundJump⟩
  all_goals simp [bodySize]
  all_goals omega

theorem doLoop_tracked {condition : List Op} {body : Flow} (ih : body.Tracked code) :
    (doLoop body condition).Tracked code := by
  intro env ctx base resolved supported placed
  simp only [accepted, Bool.and_eq_true] at resolved
  obtain ⟨isStatement, bodyResolved⟩ := resolved
  apply EmitsSound.of_statement isStatement
  intro leads
  simp only [emit] at placed ⊢
  generalize loopEnd_eq : base + size ctx.shape (.doLoop body condition) = loopEnd at placed leads ⊢
  generalize continue_eq : base + body.size (ctx.shape.pushLoop false) = continueTarget at placed ⊢
  have bodySize : ∀ b, (body.emit (ctx.pushLoop false loopEnd continueTarget) b).size =
      body.size (ctx.shape.pushLoop false) := fun b => body.emit_size b supported.sized
  have testPlaced : Placed code continueTarget (emitTest ctx.handlers condition loopEnd) :=
    placed.left.right (by simp [bodySize]; omega)
  have jumpPlaced : Placed code (continueTarget + opsSize condition + 5) (emitInstr ctx.handlers (.jump base)) :=
    placed.right (by simp [bodySize]; omega)
  obtain ⟨continueLeads, soundTest⟩ := emitTest_sound testPlaced leads jumpPlaced.leads rfl
  have bodySound := ih bodyResolved (supported.pushLoop rfl rfl leads fun _ => continueLeads) placed.left.left
  rw [← continue_eq] at continueLeads
  obtain ⟨start, soundBody⟩ := bodySound.statement rfl continueLeads
  have soundJump : Sound code (continueTarget + opsSize condition + 5)
      (emitInstr ctx.handlers (.jump base)) := Sound.instr start
  refine ⟨start, (soundBody.append ?_ soundTest).append ?_ soundJump⟩
  all_goals simp [bodySize]
  all_goals omega

theorem forLoop_tracked {init condition fini : List Op} {body : Flow} (ih : body.Tracked code) :
    (forLoop init condition body fini).Tracked code := by
  intro env ctx base resolved supported placed
  simp only [accepted, Bool.and_eq_true] at resolved
  obtain ⟨isStatement, bodyResolved⟩ := resolved
  apply EmitsSound.of_statement isStatement
  intro leads
  simp only [emit] at placed ⊢
  generalize loopEnd_eq : base + size ctx.shape (.forLoop init condition body fini) = loopEnd at placed leads ⊢
  generalize loopStart_eq : base + opsSize init = loopStart at placed ⊢
  generalize bodyStart_eq : loopStart + opsSize condition + 5 = bodyStart at placed ⊢
  generalize continue_eq : bodyStart + body.size (ctx.shape.pushLoop false) = continueTarget at placed ⊢
  have bodySize : ∀ b, (body.emit (ctx.pushLoop false loopEnd continueTarget) b).size =
      body.size (ctx.shape.pushLoop false) := fun b => body.emit_size b supported.sized
  have testPlaced : Placed code loopStart (emitTest ctx.handlers condition loopEnd) :=
    placed.left.left.left.right (by simp; omega)
  have bodyPlaced : Placed code bodyStart (body.emit (ctx.pushLoop false loopEnd continueTarget) bodyStart) :=
    placed.left.left.right (by simp; omega)
  have finiPlaced : Placed code continueTarget (emitOps ctx.handlers fini) :=
    placed.left.right (by simp [bodySize]; omega)
  have jumpPlaced : Placed code (continueTarget + opsSize fini) (emitInstr ctx.handlers (.jump loopStart)) :=
    placed.right (by simp [bodySize]; omega)
  have loopStartLeads := emitTest_leads testPlaced
  obtain ⟨continueLeads, soundFini⟩ := emitOps_sound finiPlaced jumpPlaced.leads rfl
  have bodySound := ih bodyResolved
    ((supported.later (by omega)).pushLoop rfl rfl leads fun _ => continueLeads) bodyPlaced
  obtain ⟨bodyLeads, soundBody⟩ := bodySound.statement rfl (by rw [← continue_eq] at continueLeads; exact continueLeads)
  obtain ⟨-, soundTest⟩ := emitTest_sound testPlaced leads bodyLeads bodyStart_eq.symm
  obtain ⟨start, soundInit⟩ := emitOps_sound placed.left.left.left.left loopStartLeads loopStart_eq.symm
  have soundJump : Sound code (continueTarget + opsSize fini)
      (emitInstr ctx.handlers (.jump loopStart)) := Sound.instr loopStartLeads
  refine ⟨start, (((soundInit.append ?_ soundTest).append ?_ soundBody).append ?_ soundFini).append ?_ soundJump⟩
  all_goals simp [bodySize]
  all_goals omega

theorem switch_tracked {subject : List Op} {clauses : Flow} (ih : clauses.Tracked code) :
    (switch subject clauses).Tracked code := by
  intro env ctx base resolved supported placed
  simp only [accepted, Bool.and_eq_true] at resolved
  obtain ⟨isStatement, clausesResolved⟩ := resolved
  apply EmitsSound.of_statement isStatement
  intro leads
  simp only [emit] at placed ⊢
  generalize locEnd_eq : base + size ctx.shape (.switch subject clauses) = locEnd at placed leads ⊢
  simp only [size] at locEnd_eq
  have clausesPlaced : Placed code (base + opsSize subject)
      (clauses.emit (ctx.pushLoop true locEnd 0) (base + opsSize subject)) := placed.right (by simp)
  have clausesSound := ih clausesResolved
    ((supported.later (by omega)).pushLoop rfl rfl leads fun isLoop => by cases isLoop) clausesPlaced
  have endLeads : Leads code (base + opsSize subject + clauses.size (ctx.shape.pushLoop true)) ctx.handlers := by
    convert leads using 1
    omega
  obtain ⟨clausesLeads, soundClauses⟩ := clausesSound.statement rfl endLeads
  obtain ⟨start, soundSubject⟩ := emitOps_sound placed.left clausesLeads rfl
  exact ⟨start, soundSubject.append (by simp) soundClauses⟩

theorem clause_tracked {labels : List (List Op)} {body rest : Flow} (bodyIh : body.Tracked code)
    (restIh : rest.Tracked code) : (clause labels body rest).Tracked code := by
  intro env ctx base resolved supported placed
  simp only [accepted, Bool.and_eq_true, decide_eq_true_eq] at resolved
  obtain ⟨⟨position, bodyResolved⟩, restResolved⟩ := resolved
  have isStatement : env.isStatement = true := by
    rw [ResolveEnv.isStatement, position]
    rfl
  apply EmitsSound.of_statement isStatement
  intro leads
  simp only [emit] at placed ⊢
  simp only [size] at leads
  have bodySize : ∀ b, (body.emit ctx b).size = body.size ctx.shape := fun b => body.emit_size b supported.sized
  generalize bodyStart_eq : base + labelsSize labels = bodyStart at placed ⊢
  generalize next_eq : bodyStart + body.size ctx.shape + 3 = next at placed ⊢
  have endLeads : Leads code (next + rest.size ctx.shape) ctx.handlers := by
    convert leads using 1
    omega
  have restPlaced : Placed code next (rest.emit ctx next) :=
    placed.right (by simp [bodySize, Instr.stride]; omega)
  have jumpPlaced : Placed code (bodyStart + body.size ctx.shape)
      (emitInstr ctx.handlers (.jump (next + rest.size ctx.shape))) := placed.left.right (by simp [bodySize]; omega)
  have bodyPlaced : Placed code bodyStart (body.emit ctx bodyStart) := placed.left.left.right (by simp; omega)
  obtain ⟨nextLeads, soundRest⟩ :=
    (restIh restResolved (supported.later (by omega)) restPlaced).statement isStatement endLeads
  have bodySound := bodyIh bodyResolved (supported.statement.later (by omega)) bodyPlaced
  obtain ⟨bodyLeads, soundBody⟩ := bodySound.statement rfl jumpPlaced.leads
  obtain ⟨start, soundLabels⟩ := emitLabels_sound placed.left.left.left bodyLeads nextLeads bodyStart_eq.symm
  have soundJump : Sound code (bodyStart + body.size ctx.shape)
      (emitInstr ctx.handlers (.jump (next + rest.size ctx.shape))) := Sound.instr endLeads
  refine ⟨start, ((soundLabels.append ?_ soundBody).append ?_ soundJump).append ?_ soundRest⟩
  all_goals simp [bodySize, Instr.stride]
  all_goals omega

theorem tryCatch_tracked {body handlers : Flow} (bodyIh : body.Tracked code) (handlersIh : handlers.Tracked code) :
    (tryCatch body handlers).Tracked code := by
  intro env ctx base resolved supported placed
  simp only [accepted, Bool.and_eq_true] at resolved
  obtain ⟨⟨⟨isStatement, bodyResolved⟩, -⟩, handlersResolved⟩ := resolved
  apply EmitsSound.of_statement isStatement
  intro leads
  simp only [emit] at placed ⊢
  simp only [size] at leads
  have bodySize : ∀ b, (body.emit ctx b).size = body.size ctx.shape := fun b => body.emit_size b supported.sized
  generalize tryEnd_eq : base + body.size ctx.shape + 3 = tryEnd at placed ⊢
  have postLeads : Leads code (tryEnd + handlers.size ctx.shape) ctx.handlers := by
    convert leads using 1
    omega
  generalize tryEnd + handlers.size ctx.shape = postTry at placed postLeads ⊢
  have jumpPlaced : Placed code (base + body.size ctx.shape) (emitInstr ctx.handlers (.jump postTry)) :=
    placed.left.right (by simp [bodySize])
  have handlersPlaced : Placed code tryEnd (handlers.emit (ctx.catching base tryEnd postTry) tryEnd) :=
    placed.right (by simp [bodySize, Instr.stride]; omega)
  obtain ⟨start, soundBody⟩ :=
    (bodyIh bodyResolved supported.statement placed.left.left).statement rfl jumpPlaced.leads
  have catching : Catching code (ctx.catching base tryEnd postTry) tryEnd := {
    start_le := by
      show base ≤ tryEnd
      omega
    end_le := Nat.le_refl _
    outer := rfl
    before := fun handler member => by
      have le := supported.before handler member
      omega
    completes := postLeads }
  have soundHandlers := (handlersIh handlersResolved ((supported.later (by omega)).catching rfl rfl)
    handlersPlaced).handlers rfl catching
  have soundJump : Sound code (base + body.size ctx.shape) (emitInstr ctx.handlers (.jump postTry)) :=
    Sound.instr postLeads
  refine ⟨start, (soundBody.append ?_ soundJump).append ?_ soundHandlers⟩
  all_goals simp [bodySize, Instr.stride]
  omega

theorem handler_tracked {exceptionClassIdx : Option Nat} {catchLocal : Nat} {body rest : Flow}
    (bodyIh : body.Tracked code) (restIh : rest.Tracked code) :
    (handler exceptionClassIdx catchLocal body rest).Tracked code := by
  intro env ctx base resolved supported placed
  simp only [accepted, Bool.and_eq_true, decide_eq_true_eq] at resolved
  obtain ⟨⟨position, bodyResolved⟩, restResolved⟩ := resolved
  refine { statement := fun isStatement => ?_, handlers := fun _ catching => ?_ }
  · rw [ResolveEnv.isStatement, position] at isStatement
    cases isStatement
  · simp only [emit] at placed ⊢
    have bodySize : ∀ b, (body.emit (ctx.enterCatchBody base) b).size = body.size ctx.shape.enterCatchBody :=
      fun b => body.emit_size b supported.sized
    generalize next_eq : base + body.size ctx.shape.enterCatchBody + 4 = next at placed ⊢
    have bodyPlaced : Placed code base (body.emit (ctx.enterCatchBody base) base) :=
      placed.left.left.left.right (by simp)
    have popPlaced : Placed code (base + body.size ctx.shape.enterCatchBody)
        (emitInstr (base :: ctx.handlers) .popHandler) := placed.left.left.right (by simp [bodySize])
    have jumpPlaced : Placed code (base + body.size ctx.shape.enterCatchBody + 1)
        (emitInstr ctx.handlers (.jump ctx.completion)) :=
      placed.left.right (by simp [bodySize, Instr.stride]; omega)
    have restPlaced : Placed code next (rest.emit ctx next) :=
      placed.right (by simp [bodySize, Instr.stride]; omega)
    obtain ⟨bodyLeads, soundBody⟩ :=
      (bodyIh bodyResolved (supported.enterCatchBody _) bodyPlaced).statement rfl popPlaced.leads
    have soundPop : Sound code (base + body.size ctx.shape.enterCatchBody)
        (emitInstr (base :: ctx.handlers) .popHandler) := Sound.instr ⟨base, ctx.handlers, rfl, jumpPlaced.leads⟩
    have soundJump : Sound code (base + body.size ctx.shape.enterCatchBody + 1)
        (emitInstr ctx.handlers (.jump ctx.completion)) := Sound.instr catching.completes
    have further : Catching code ctx next := { catching with
      end_le := Nat.le_trans catching.end_le (by omega)
      before := fun handler member => Nat.lt_of_lt_of_le (catching.before handler member) (by omega) }
    have soundRest := (restIh restResolved (supported.later (by omega)) restPlaced).handlers position further
    have soundBlock : Sound code base (.block {
        startPc := ctx.tryRange.1, endPc := ctx.tryRange.2, handlerPc := base, exceptionClassIdx, catchLocal
        outer := ctx.outer }) := Sound.block {
      start_le := catching.start_le
      end_le := catching.end_le
      outer_lt := by
        rw [catching.outer]
        exact catching.before
      leads := by
        show Leads code base (base :: ctx.outer)
        rw [catching.outer]
        exact bodyLeads }
    refine (((soundBlock.append ?_ soundBody).append ?_ soundPop).append ?_ soundJump).append ?_ soundRest
    all_goals simp [bodySize, Instr.stride]
    all_goals omega

theorem tryFinally_tracked {body handlers finallyBody : Flow} (bodyIh : body.Tracked code)
    (handlersIh : handlers.Tracked code) (finallyIh : finallyBody.Tracked code) :
    (tryFinally body handlers finallyBody).Tracked code := by
  intro env ctx base resolved supported placed
  simp only [accepted, Bool.and_eq_true] at resolved
  obtain ⟨⟨⟨isStatement, bodyResolved⟩, handlersResolved⟩, finallyResolved⟩ := resolved
  apply EmitsSound.of_statement isStatement
  intro leads
  rw [emit_tryFinally] at placed ⊢
  dsimp only at placed ⊢
  simp only [size] at leads
  have copySize : (finallyBody.finallyCopy ctx.finallyLocal).size = finallyBody.size {} := rfl
  have good : (finallyBody.finallyCopy ctx.finallyLocal).Good code := {
    sized := fun b handlers => finallyBody.emit_size b fun copy member => by cases member
    sound := fun b handlers copyPlaced copyLeads before => by
      have inFinally : Supported code { env with position := .statement, inFinallyBody := true }
          { handlers, finallyLocal := ctx.finallyLocal } b := {
        before
        inHandler := fun _ notFinally => by cases notFinally
        copies := fun copy member => by cases member
        loops := fun loop member => by cases member }
      exact (finallyIh finallyResolved inFinally copyPlaced).statement rfl copyLeads }
  rw [← copySize] at leads
  generalize finallyBody.finallyCopy ctx.finallyLocal = copy at placed leads copySize good ⊢
  have inner := supported.pushFinally good
  have bodySize : ∀ b, (body.emit (ctx.pushFinally copy) b).size = body.size (ctx.shape.pushFinally copy.size) :=
    fun b => body.emit_size b inner.sized
  have handlersSize : ∀ b startPc endPc completion,
      (handlers.emit ((ctx.pushFinally copy).catching startPc endPc completion) b).size =
        handlers.size (ctx.shape.pushFinally copy.size) :=
    fun b startPc endPc completion => handlers.emit_size b inner.sized
  simp only [EmitContext.shape_pushFinally] at placed ⊢
  generalize bodySize_eq : body.size (ctx.shape.pushFinally copy.size) = bodyBytes at placed leads bodySize ⊢
  generalize handlersSize_eq : handlers.size (ctx.shape.pushFinally copy.size) = handlerBytes
    at placed leads handlersSize ⊢
  generalize tryEnd_eq : base + bodyBytes + 3 = tryEnd at placed ⊢
  generalize rangeEnd_eq : tryEnd + handlerBytes = rangeEnd at placed ⊢
  generalize normal_eq : rangeEnd + copy.size + 1 = finallyNormal at placed ⊢
  have postLeads : Leads code (finallyNormal + copy.size + 3) ctx.handlers := by
    convert leads using 1
    omega
  have copySized := good.sized
  -- The pieces in the order of emission.
  have bodyJumpPlaced : Placed code (base + bodyBytes) (emitInstr ctx.handlers (.jump finallyNormal)) :=
    placed.left.left.left.left.left.left.right (by simp [bodySize])
  have handlersPlaced : Placed code tryEnd
      (handlers.emit ((ctx.pushFinally copy).catching base tryEnd finallyNormal) tryEnd) :=
    placed.left.left.left.left.left.right (by simp [bodySize, Instr.stride]; omega)
  have raisedPlaced : Placed code rangeEnd (copy.emit rangeEnd (rangeEnd :: ctx.handlers)) :=
    placed.left.left.left.right (by simp [bodySize, handlersSize, Instr.stride]; omega)
  have rethrowPlaced : Placed code (rangeEnd + copy.size) (emitInstr (rangeEnd :: ctx.handlers) .rethrow) :=
    placed.left.left.right (by simp [bodySize, handlersSize, copySized _ _, Instr.stride]; omega)
  have normalPlaced : Placed code finallyNormal (copy.emit finallyNormal ctx.handlers) :=
    placed.left.right (by simp [bodySize, handlersSize, copySized _ _, Instr.stride]; omega)
  have jumpPlaced : Placed code (finallyNormal + copy.size)
      (emitInstr ctx.handlers (.jump (finallyNormal + copy.size + 3))) :=
    placed.right (by simp [bodySize, handlersSize, copySized _ _, Instr.stride]; omega)
  have within : ∀ {next}, base ≤ next → ∀ handler ∈ ctx.handlers, handler ≤ next := by
    intro next le handler member
    exact Nat.le_trans (supported.before handler member) le
  obtain ⟨normalLeads, soundNormal⟩ :=
    good.sound _ _ normalPlaced jumpPlaced.leads (within (by omega))
  obtain ⟨raisedLeads, soundRaised⟩ := good.sound _ _ raisedPlaced rethrowPlaced.leads
    (List.forall_mem_cons.mpr ⟨Nat.le_refl _, within (by omega)⟩)
  have bodySound := bodyIh bodyResolved inner.statement placed.left.left.left.left.left.left.left
  obtain ⟨start, soundBody⟩ := bodySound.statement rfl (by
    show Leads code (base + body.size (ctx.shape.pushFinally copy.size)) ctx.handlers
    rw [bodySize_eq]
    exact bodyJumpPlaced.leads)
  have catching : Catching code ((ctx.pushFinally copy).catching base tryEnd finallyNormal) tryEnd := {
    start_le := by
      show base ≤ tryEnd
      omega
    end_le := Nat.le_refl _
    outer := rfl
    before := fun handler member => by
      have le := supported.before handler member
      omega
    completes := normalLeads }
  have soundHandlers := (handlersIh handlersResolved ((inner.later (by omega)).catching rfl rfl)
    handlersPlaced).handlers rfl catching
  have soundBodyJump : Sound code (base + bodyBytes) (emitInstr ctx.handlers (.jump finallyNormal)) :=
    Sound.instr normalLeads
  have soundBlock : Sound code rangeEnd (.block {
      startPc := base, endPc := rangeEnd, handlerPc := rangeEnd, exceptionClassIdx := none
      catchLocal := ctx.finallyLocal, outer := ctx.handlers }) := Sound.block {
    start_le := by
      show base ≤ rangeEnd
      omega
    end_le := Nat.le_refl _
    outer_lt := fun handler member => by
      have le := supported.before handler member
      show handler < rangeEnd
      omega
    leads := raisedLeads }
  have soundRethrow : Sound code (rangeEnd + copy.size) (emitInstr (rangeEnd :: ctx.handlers) .rethrow) :=
    Sound.instr (List.cons_ne_nil _ _)
  have soundJump : Sound code (finallyNormal + copy.size)
      (emitInstr ctx.handlers (.jump (finallyNormal + copy.size + 3))) := Sound.instr postLeads
  refine ⟨start, ((((((soundBody.append ?_ soundBodyJump).append ?_ soundHandlers).append ?_ soundBlock).append ?_
    soundRaised).append ?_ soundRethrow).append ?_ soundNormal).append ?_ soundJump⟩
  all_goals simp [bodySize, handlersSize, copySized _ _, Instr.stride]
  all_goals omega

theorem guarded_tracked {gate : Bool} {body : Flow} {done fail : List Op} {excLocal : Nat}
    (ih : body.Tracked code) : (guarded gate body done fail excLocal).Tracked code := by
  intro env ctx base resolved supported placed
  simp only [accepted, Bool.and_eq_true] at resolved
  obtain ⟨isStatement, bodyResolved⟩ := resolved
  apply EmitsSound.of_statement isStatement
  intro leads
  simp only [emit] at placed ⊢
  generalize next_eq : base + size ctx.shape (.guarded gate body done fail excLocal) = next at placed leads ⊢
  simp only [size] at next_eq
  have bodySize : ∀ b, (body.emit ctx b).size = body.size ctx.shape := fun b => body.emit_size b supported.sized
  generalize tryStart_eq : base + (if gate = true then 5 else 0) = tryStart at placed ⊢
  generalize tryEnd_eq : tryStart + body.size ctx.shape = tryEnd at placed ⊢
  generalize handlerPc_eq : tryEnd + opsSize done + 3 = handlerPc at placed ⊢
  have gateSize : base + (if gate = true then emitInstr ctx.handlers (.gate next) else ({} : Fragment)).size =
      tryStart := by
    rw [← tryStart_eq]
    cases gate <;> rfl
  have bodyPlaced : Placed code tryStart (body.emit ctx tryStart) :=
    placed.left.left.left.left.left.right gateSize.symm
  have donePlaced : Placed code tryEnd (emitOps ctx.handlers done) :=
    placed.left.left.left.left.right (by simp [bodySize]; omega)
  have jumpPlaced : Placed code (tryEnd + opsSize done) (emitInstr ctx.handlers (.jump next)) :=
    placed.left.left.left.right (by simp [bodySize]; omega)
  have failPlaced : Placed code handlerPc (emitOps (handlerPc :: ctx.handlers) fail) :=
    placed.left.right (by simp [bodySize, Instr.stride]; omega)
  have rethrowPlaced : Placed code (handlerPc + opsSize fail) (emitInstr (handlerPc :: ctx.handlers) .rethrow) :=
    placed.right (by simp [bodySize, Instr.stride]; omega)
  obtain ⟨doneLeads, soundDone⟩ := emitOps_sound donePlaced jumpPlaced.leads rfl
  obtain ⟨failLeads, soundFail⟩ := emitOps_sound failPlaced rethrowPlaced.leads rfl
  have inBody : Supported code { env with position := .statement, inFinallyBody := true } ctx tryStart := {
    supported.later (by omega) with
    inHandler := fun _ notFinally => by cases notFinally }
  rw [← tryEnd_eq] at doneLeads
  obtain ⟨bodyLeads, soundBody⟩ := (ih bodyResolved inBody bodyPlaced).statement rfl doneLeads
  have soundJump : Sound code (tryEnd + opsSize done) (emitInstr ctx.handlers (.jump next)) := Sound.instr leads
  have soundBlock : Sound code handlerPc (.block {
      startPc := tryStart, endPc := tryEnd, handlerPc, exceptionClassIdx := none, catchLocal := excLocal
      outer := ctx.handlers }) := Sound.block {
    start_le := by
      show tryStart ≤ tryEnd
      omega
    end_le := by
      show tryEnd ≤ handlerPc
      omega
    outer_lt := fun handler member => by
      have le := supported.before handler member
      show handler < handlerPc
      omega
    leads := failLeads }
  have soundRethrow : Sound code (handlerPc + opsSize fail) (emitInstr (handlerPc :: ctx.handlers) .rethrow) :=
    Sound.instr (List.cons_ne_nil _ _)
  obtain ⟨start, soundGate⟩ : Leads code base ctx.handlers ∧
      Sound code base (if gate = true then emitInstr ctx.handlers (.gate next) else {}) := by
    cases gate with
    | false =>
      rw [← tryStart_eq] at bodyLeads
      exact ⟨bodyLeads, Sound.empty⟩
    | true =>
      rw [← tryStart_eq] at bodyLeads
      exact ⟨placed.left.left.left.left.left.left.leads, Sound.instr ⟨leads, bodyLeads⟩⟩
  refine ⟨start, (((((soundGate.append gateSize.symm soundBody).append ?_ soundDone).append ?_
    soundJump).append ?_ soundBlock).append ?_ soundFail).append ?_ soundRethrow⟩
  all_goals simp [bodySize, Instr.stride]
  all_goals omega

theorem throwValue_tracked {value : List Op} : (throwValue value).Tracked code := by
  intro env ctx base resolved supported placed
  simp only [accepted, Bool.and_eq_true] at resolved
  apply EmitsSound.of_statement resolved.1
  intro leads
  simp only [emit] at placed ⊢
  have throwPlaced : Placed code (base + opsSize value) (emitInstr ctx.handlers .throwValue) :=
    placed.right (by simp)
  obtain ⟨start, soundValue⟩ := emitOps_sound placed.left throwPlaced.leads rfl
  have soundThrow : Sound code (base + opsSize value) (emitInstr ctx.handlers .throwValue) := Sound.instr trivial
  exact ⟨start, soundValue.append (by simp) soundThrow⟩

theorem rethrow_tracked : rethrow.Tracked code := by
  intro env ctx base resolved supported placed
  simp only [accepted, Bool.and_eq_true, Bool.not_eq_true'] at resolved
  obtain ⟨⟨isStatement, notFinally⟩, inCatch⟩ := resolved
  apply EmitsSound.of_statement isStatement
  intro leads
  exact ⟨placed.leads, Sound.instr (supported.inHandler inCatch notFinally)⟩

theorem result_tracked {value : List Op} {hasValue : Bool} : (result value hasValue).Tracked code := by
  intro env ctx base resolved supported placed
  simp only [accepted, Bool.and_eq_true] at resolved
  apply EmitsSound.of_statement resolved.1
  intro leads
  simp only [emit] at placed ⊢
  have copiesSize : (emitCopies ctx.handlers (base + opsSize value) ctx.finallyStack).size = _ :=
    emitCopies_size _ supported.sized
  generalize copies_eq : (ctx.finallyStack.map FinallyCopy.size).sum = copyBytes at copiesSize
  have copiesPlaced : Placed code (base + opsSize value)
      (emitCopies ctx.handlers (base + opsSize value) ctx.finallyStack) := placed.left.right (by simp)
  have returnPlaced : Placed code (base + opsSize value + copyBytes) (emitReturn ctx.handlers hasValue) :=
    placed.right (by simp [copiesSize]; omega)
  obtain ⟨returnLeads, soundReturn⟩ := emitReturn_sound returnPlaced
  obtain ⟨copiesLeads, soundCopies⟩ := emitCopies_sound supported.copies copiesPlaced returnLeads
    (by rw [copies_eq]) fun handler member => Nat.le_add_right_of_le (supported.before handler member)
  obtain ⟨start, soundValue⟩ := emitOps_sound placed.left.left copiesLeads rfl
  refine ⟨start, (soundValue.append ?_ soundCopies).append ?_ soundReturn⟩
  all_goals simp [copiesSize]
  all_goals omega

theorem breakLoop_tracked : breakLoop.Tracked code := by
  intro env ctx base resolved supported placed
  simp only [accepted, Bool.and_eq_true] at resolved
  apply EmitsSound.of_statement resolved.1.1
  intro leads
  have member : ∀ l, ctx.loopStack.head? = some l → l ∈ ctx.loopStack := fun l head => List.mem_of_head? head
  apply emitExit_sound supported member _ placed
  · convert leads using 2
    simp [size, EmitContext.shape]
  · intro l head
    exact (supported.loops l (member l head)).breaks

theorem continueLoop_tracked : continueLoop.Tracked code := by
  intro env ctx base resolved supported placed
  simp only [accepted, Bool.and_eq_true] at resolved
  apply EmitsSound.of_statement resolved.1.1
  intro leads
  have member : ∀ l, ctx.loopStack.find? (!·.isSwitch) = some l → l ∈ ctx.loopStack :=
    fun l found => List.mem_of_find?_eq_some found
  apply emitExit_sound supported member _ placed
  · convert leads using 2
    simp [size, EmitContext.shape, List.find?_map]
  · intro l found
    have isLoop := List.find?_some found
    exact (supported.loops l (member l found)).continues (by simpa using isLoop)

theorem tracked (f : Flow) : f.Tracked code := by
  induction f with
  | skip =>
    intro env ctx base _ _ _
    exact { statement := fun _ leads => ⟨leads, Sound.empty⟩, handlers := fun _ _ => Sound.empty }
  | seq first second firstIh secondIh => exact seq_tracked firstIh secondIh
  | straight ops =>
    intro env ctx base resolved _ placed
    apply EmitsSound.of_statement resolved
    intro leads
    exact emitOps_sound placed leads rfl
  | ifElse condition thenStmt elseStmt thenIh elseIh => exact ifElse_tracked thenIh elseIh
  | whileLoop condition body ih => exact whileLoop_tracked ih
  | doLoop body condition ih => exact doLoop_tracked ih
  | forLoop init condition body fini ih => exact forLoop_tracked ih
  | switch subject clauses ih => exact switch_tracked ih
  | clause labels body rest bodyIh restIh => exact clause_tracked bodyIh restIh
  | tryCatch body handlers bodyIh handlersIh => exact tryCatch_tracked bodyIh handlersIh
  | tryFinally body handlers finallyBody bodyIh handlersIh finallyIh =>
    exact tryFinally_tracked bodyIh handlersIh finallyIh
  | handler exceptionClassIdx catchLocal body rest bodyIh restIh => exact handler_tracked bodyIh restIh
  | guarded gate body done fail excLocal ih => exact guarded_tracked ih
  | throwValue value => exact throwValue_tracked
  | rethrow => exact rethrow_tracked
  | result value hasValue => exact result_tracked
  | breakLoop => exact breakLoop_tracked
  | continueLoop => exact continueLoop_tracked

end Flow

end Emission

section Functions
variable {finallyLocal : Nat} {body : Flow}

theorem compileFlow_eq : compileFlow finallyLocal body =
    body.emit { finallyLocal } 0 ++ ({} ++ {} ++ emitReturn [] false) := rfl

theorem compileFlow_sound (finallyLocal : Nat) (resolved : body.accepted {} = true) :
    Leads (compileFlow finallyLocal body).code 0 [] ∧
      Sound (compileFlow finallyLocal body).code 0 (compileFlow finallyLocal body) := by
  generalize code_eq : (compileFlow finallyLocal body).code = code
  have placed : Placed code 0 (compileFlow finallyLocal body) := by
    intro pc item found
    rw [Nat.zero_add, ← code_eq]
    exact found
  rw [compileFlow_eq] at placed ⊢
  have noCopies : ∀ copy ∈ ({ finallyLocal } : EmitContext).finallyStack, copy.Sized :=
    fun copy member => by cases member
  have retAt : body.size {} = 0 + (body.emit { finallyLocal } 0).size := by
    rw [body.emit_size 0 noCopies, Nat.zero_add]
    rfl
  have retPlaced : Placed code (body.size {}) (emitReturn [] false) := (placed.right retAt).right (by simp)
  obtain ⟨retStart, soundRet⟩ := emitReturn_sound retPlaced
  have supported : Supported code {} { finallyLocal } 0 := {
    before := fun handler member => by cases member
    inHandler := fun inCatch => by cases inCatch
    copies := fun copy member => by cases member
    loops := fun loop member => by cases member }
  have retLeads : Leads code (0 + body.size {}) [] := by
    rw [Nat.zero_add]
    exact retStart
  obtain ⟨start, soundBody⟩ := (body.tracked resolved supported placed.left).statement rfl retLeads
  refine ⟨start, soundBody.append retAt ?_⟩
  exact (Sound.empty.append rfl Sound.empty).append (by simp) soundRet

theorem Leads.lt {code : List Item} {pc : Nat} {handlers : List Nat} (leads : Leads code pc handlers) :
    pc < codeSize code := by
  obtain ⟨item, found, -⟩ := leads
  exact fetch_lt found

theorem fetch_of_mem {code : List Item} {item : Item} (member : item ∈ code) : ∃ pc, fetch code pc = some item := by
  obtain ⟨before, after, rfl⟩ := List.append_of_mem member
  refine ⟨codeSize before + 0, ?_⟩
  rw [fetch_append_right]
  rfl

theorem compileFlow_stored (resolved : body.accepted {} = true)
    (small : (compileFlow finallyLocal body).size < 2 ^ 16) :
    (compileFlow finallyLocal body).stored =
      { code := (compileFlow finallyLocal body).code, tryBlocks := (compileFlow finallyLocal body).tryBlocks } := by
  obtain ⟨-, sound⟩ := compileFlow_sound finallyLocal resolved
  generalize compileFlow finallyLocal body = whole at sound small
  have fits : ∀ {pc handlers}, Leads whole.code pc handlers → pc % 2 ^ 16 = pc :=
    fun leads => Nat.mod_eq_of_lt (Nat.lt_trans leads.lt small)
  have items : ∀ item ∈ whole.code, { item with instr := Instr.truncate item.instr } = item := by
    intro item member
    obtain ⟨pc, found⟩ := fetch_of_mem member
    have tracks := sound.items pc item found
    obtain ⟨instr, handlers⟩ := item
    cases instr with
    | jump target => simp only [Instr.truncate, fits tracks]
    | jumpIfNot target => simp only [Instr.truncate, fits tracks.1]
    | gate target => simp only [Instr.truncate, fits tracks.1]
    | _ => rfl
  have blocks : ∀ block ∈ whole.tryBlocks, TryBlock.truncate block = block := by
    intro block member
    have tracks := sound.blocks block member
    have bound := tracks.leads.lt
    have startFits : block.startPc % 2 ^ 16 = block.startPc := by
      have le := Nat.le_trans tracks.start_le tracks.end_le
      exact Nat.mod_eq_of_lt (Nat.lt_of_le_of_lt le (Nat.lt_trans bound small))
    have endFits : block.endPc % 2 ^ 16 = block.endPc :=
      Nat.mod_eq_of_lt (Nat.lt_of_le_of_lt tracks.end_le (Nat.lt_trans bound small))
    simp only [TryBlock.truncate, startFits, endFits, fits tracks.leads]
  rw [Fragment.stored, List.map_congr_left items, List.map_congr_left blocks]
  simp

end Functions

section Frames
variable (compiled : CompiledBody) (isInstanceOrSubclass : Int → Nat → Bool)

/-- An exception that a handler of the frame takes was raised in the handlers that the `try` itself is part of: no
catch body and no finally handler is left by it. -/
def keepsHandlers (frame : CallFrame) : Bool :=
  match frame.status with
  | .raising exc =>
    (compiled.tryBlocks.find? (·.handles isInstanceOrSubclass (frame.pc % 2 ^ 16) exc)).all fun block =>
      (fetch compiled.code frame.pc).all fun item => item.handlers = block.outer
  | _ => true

def Active (frame : CallFrame) : Prop :=
  frame.status = .running ∨ ∃ exc, frame.status = .raising exc

def Handling (frame : CallFrame) : Prop :=
  ∃ item, fetch compiled.code frame.pc = some item ∧ frame.handlerExcStack = item.handlers.map frame.entered

variable {compiled isInstanceOrSubclass} {frame frame' : CallFrame} {action : Action}

theorem step_cases (taken : frame.step compiled isInstanceOrSubclass action = some frame') :
    (∃ item, frame.status = .running ∧ fetch compiled.code frame.pc = some item ∧
      executeInstr frame item.instr action = some frame') ∨
    ∃ exc, frame.status = .raising exc ∧ frame' = tryEnterCatchHandler compiled isInstanceOrSubclass frame exc := by
  unfold CallFrame.step at taken
  cases status : frame.status with
  | running =>
    rw [status] at taken
    obtain ⟨item, found, executed⟩ := Option.bind_eq_some_iff.mp taken
    exact .inl ⟨item, rfl, found, executed⟩
  | raising exc =>
    rw [status] at taken
    simp only at taken
    split at taken
    · exact .inr ⟨exc, rfl, (Option.some.inj taken).symm⟩
    · cases taken
  | _ =>
    rw [status] at taken
    cases taken

theorem tryEnterCatchHandler_cases (compiled : CompiledBody) (isInstanceOrSubclass : Int → Nat → Bool)
    (frame : CallFrame) (exc : Int) :
    tryEnterCatchHandler compiled isInstanceOrSubclass frame exc = { frame with status := .unwound exc } ∨
    ∃ block, compiled.tryBlocks.find? (·.handles isInstanceOrSubclass (frame.pc % 2 ^ 16) exc) = some block ∧
      tryEnterCatchHandler compiled isInstanceOrSubclass frame exc = frame.enterHandler exc block := by
  unfold tryEnterCatchHandler
  cases compiled.tryBlocks.find? (·.handles isInstanceOrSubclass (frame.pc % 2 ^ 16) exc) with
  | none => exact .inl rfl
  | some block => exact .inr ⟨block, rfl, rfl⟩

theorem executeInstr_handling {item : Item} (tracks : Tracks compiled.code frame.pc item)
    (found : fetch compiled.code frame.pc = some item)
    (agrees : frame.handlerExcStack = item.handlers.map frame.entered)
    (executed : executeInstr frame item.instr action = some frame') (active : Active frame') :
    Handling compiled frame' := by
  obtain ⟨instr, handlers⟩ := item
  have goesTo : ∀ {pc}, Leads compiled.code pc handlers →
      ∃ item, fetch compiled.code pc = some item ∧ frame.handlerExcStack = item.handlers.map frame.entered := by
    intro pc ⟨next, there, same⟩
    exact ⟨next, there, by rw [same]; exact agrees⟩
  cases instr with
  | op o =>
    cases action with
    | finish value =>
      cases executed
      exact goesTo tracks
    | raise exc =>
      cases executed
      exact ⟨_, found, agrees⟩
    | _ => cases executed
  | varLocal =>
    cases action with
    | next =>
      cases executed
      exact goesTo tracks
    | _ => cases executed
  | jump target =>
    cases action with
    | next =>
      cases executed
      exact goesTo tracks
    | _ => cases executed
  | jumpIfNot target =>
    cases action with
    | branch taken =>
      cases executed
      cases taken with
      | false => exact goesTo tracks.2
      | true => exact goesTo tracks.1
    | _ => cases executed
  | gate target =>
    cases action with
    | branch taken =>
      cases executed
      cases taken with
      | false => exact goesTo tracks.2
      | true => exact goesTo tracks.1
    | raise exc =>
      cases executed
      exact ⟨_, found, agrees⟩
    | _ => cases executed
  | popHandler =>
    cases action with
    | next =>
      obtain ⟨handler, rest, inside, next, there, same⟩ := tracks
      simp only at inside agrees
      rw [inside, List.map_cons] at agrees
      simp only [executeInstr, agrees] at executed
      cases executed
      exact ⟨next, there, by rw [same]⟩
    | _ => cases executed
  | throwValue =>
    cases action with
    | raise exc =>
      cases executed
      exact ⟨_, found, agrees⟩
    | _ => cases executed
  | rethrow =>
    cases action with
    | next =>
      unfold executeInstr at executed
      cases stack : frame.handlerExcStack with
      | nil =>
        simp only [stack] at executed
        cases executed
        rcases active with running | ⟨exc, raising⟩
        · cases running
        · cases raising
      | cons exc rest =>
        simp only [stack] at executed
        cases executed
        exact ⟨_, found, agrees⟩
    | _ => cases executed
  | ret =>
    cases action with
    | next =>
      cases executed
      rcases active with running | ⟨exc, raising⟩
      · cases running
      · cases raising
    | _ => cases executed

theorem enterHandler_handling {exc : Int} {block : TryBlock} (tracks : BlockTracks compiled.code block)
    (agrees : frame.handlerExcStack = block.outer.map frame.entered) :
    Handling compiled (frame.enterHandler exc block) := by
  obtain ⟨item, found, inside⟩ := tracks.leads
  refine ⟨item, found, ?_⟩
  have others : block.outer.map (Function.update frame.entered block.handlerPc exc) =
      block.outer.map frame.entered := by
    apply List.map_congr_left
    intro handler member
    exact Function.update_of_ne (Nat.ne_of_lt (tracks.outer_lt handler member)) _ _
  simp only [CallFrame.enterHandler, inside, List.map_cons, Function.update_self, others, agrees]

theorem step_handling (items : ∀ pc item, fetch compiled.code pc = some item → Tracks compiled.code pc item)
    (blocks : ∀ block ∈ compiled.tryBlocks, BlockTracks compiled.code block)
    (handling : Active frame → Handling compiled frame)
    (keeps : keepsHandlers compiled isInstanceOrSubclass frame = true)
    (taken : frame.step compiled isInstanceOrSubclass action = some frame') (active : Active frame') :
    Handling compiled frame' := by
  rcases step_cases taken with ⟨item, running, found, executed⟩ | ⟨exc, raising, rfl⟩
  · obtain ⟨same, there, agrees⟩ := handling (.inl running)
    rw [found] at there
    cases there
    exact executeInstr_handling (items _ _ found) found agrees executed active
  · obtain ⟨item, found, agrees⟩ := handling (.inr ⟨exc, raising⟩)
    rcases tryEnterCatchHandler_cases compiled isInstanceOrSubclass frame exc with left | ⟨block, handler, entered⟩
    · rw [left] at active
      rcases active with running | ⟨other, stillRaising⟩
      · cases running
      · cases stillRaising
    · rw [entered]
      apply enterHandler_handling (blocks block (List.mem_of_find?_eq_some handler))
      have same : item.handlers = block.outer := by
        unfold keepsHandlers at keeps
        rw [raising] at keeps
        simp only [handler, found] at keeps
        exact of_decide_eq_true keeps
      rw [← same]
      exact agrees

end Frames

/-- In every run from the start of the function, a rethrow finds the exception that entered the innermost handler
whose code it is part of. -/
def RethrowsEntered (finallyLocal : Nat) (body : Flow) (isInstanceOrSubclass : Int → Nat → Bool)
    (allowed : CallFrame → Action → Prop) : Prop :=
  ∀ locals frame item,
    Run (CallFrame.step (compileFlow finallyLocal body).stored isInstanceOrSubclass) allowed { locals } frame →
      frame.status = .running → fetch (compileFlow finallyLocal body).stored.code frame.pc = some item →
        frame.handlerExcStack = item.handlers.map frame.entered ∧
          (item.instr = .rethrow → ∃ handler rest, item.handlers = handler :: rest ∧
            frame.step (compileFlow finallyLocal body).stored isInstanceOrSubclass .next =
              some (frame.raise (frame.entered handler)))

/-- As long as no catch body and no finally handler is left by an exception that the same frame handles, the stack
holds the exceptions of the handlers being executed. -/
theorem rethrow_raises_entered {body : Flow} (finallyLocal : Nat) (isInstanceOrSubclass : Int → Nat → Bool)
    (resolved : body.accepted {} = true) (small : (compileFlow finallyLocal body).size < 2 ^ 16) :
    RethrowsEntered finallyLocal body isInstanceOrSubclass
      (fun frame _ => keepsHandlers (compileFlow finallyLocal body).stored isInstanceOrSubclass frame = true) := by
  intro locals frame item run running found
  obtain ⟨starts, sound⟩ := compileFlow_sound finallyLocal resolved
  rw [compileFlow_stored resolved small] at run found ⊢
  have items : ∀ pc item, fetch (compileFlow finallyLocal body).code pc = some item →
      Tracks (compileFlow finallyLocal body).code pc item := by
    intro pc item there
    have tracks := sound.items pc item there
    rwa [Nat.zero_add] at tracks
  have handling := Run.invariant (fun frame => Active frame → Handling _ frame)
    (fun _ => by
      obtain ⟨first, there, outside⟩ := starts
      exact ⟨first, there, by rw [outside]; rfl⟩)
    (fun frame action frame' handling keeps taken active =>
      step_handling items sound.blocks handling keeps taken active) run
  obtain ⟨same, there, agrees⟩ := handling (.inl running)
  rw [found] at there
  cases there
  refine ⟨agrees, fun isRethrow => ?_⟩
  have nonempty : item.handlers ≠ [] := by
    have tracks := items _ _ found
    unfold Tracks at tracks
    rw [isRethrow] at tracks
    exact tracks
  obtain ⟨handler, rest, inside⟩ := List.exists_cons_of_ne_nil nonempty
  refine ⟨handler, rest, inside, ?_⟩
  rw [inside, List.map_cons] at agrees
  unfold CallFrame.step
  rw [running]
  show (fetch _ frame.pc).bind _ = _
  rw [found, Option.bind_some, isRethrow]
  unfold executeInstr
  rw [agrees]

def sameClass (exc : Int) (classIdx : Nat) : Bool := exc = classIdx

def caughtOnce : Flow := .tryCatch (.throwValue []) (.handler (some 1) 0 .rethrow .skip)

theorem rethrow_raises_entered_caughtOnce :
    ∃ frame, Run (CallFrame.step (compileFlow 9 caughtOnce).stored sameClass)
        (fun frame _ => keepsHandlers (compileFlow 9 caughtOnce).stored sameClass frame = true) {} frame ∧
      frame.step (compileFlow 9 caughtOnce).stored sameClass .next = some (frame.raise 1) := by
  generalize compiled_eq : (compileFlow 9 caughtOnce).stored = compiled
  have reached : (([.raise 1, .next] : List Action).foldlM (fun frame action =>
      if keepsHandlers compiled sameClass frame = true then CallFrame.step compiled sameClass frame action else none)
      {}).map (fun frame => (frame.status, frame.pc, frame.entered 6)) = some (.running, 6, 1) := by
    rw [← compiled_eq]
    decide +kernel
  obtain ⟨frame, taken, facts⟩ := Option.map_eq_some_iff.mp reached
  simp only [Prod.mk.injEq] at facts
  obtain ⟨running, atPc, raised⟩ := facts
  have run : Run (CallFrame.step compiled sameClass)
      (fun frame _ => keepsHandlers compiled sameClass frame = true) {} frame :=
    Run.checked (fun _ _ passed => passed) .refl taken
  have found : fetch compiled.code frame.pc = some { instr := .rethrow, handlers := [6] } := by
    rw [atPc, ← compiled_eq]
    decide +kernel
  subst compiled_eq
  obtain ⟨-, atRethrow⟩ := rethrow_raises_entered 9 sameClass (by decide) (by decide +kernel) _ _ _ run running found
  obtain ⟨handler, rest, inside, raises⟩ := atRethrow rfl
  cases inside
  rw [raised] at raises
  exact ⟨frame, run, raises⟩

/-- A catch body left by an exception that an outer `try` of the same catch body handles, and then `throw;`. -/
def leftCatch : Flow :=
  .tryCatch (.throwValue [])
    (.handler (some 1) 0
      (.seq
        (.tryCatch
          (.tryCatch (.throwValue []) (.handler (some 2) 1 (.throwValue []) .skip))
          (.handler (some 3) 2 .skip .skip))
        .rethrow)
      .skip)

def leftCatchActions : List Action := [.raise 1, .next, .raise 2, .next, .raise 3, .next, .next, .next]

theorem leftCatch_rethrows_inner : ¬ RethrowsEntered 9 leftCatch sameClass fun _ _ => True := by
  intro rethrows
  have reached : (leftCatchActions.foldlM (CallFrame.step (compileFlow 9 leftCatch).stored sameClass) {}).map
      (fun frame => (frame.status, frame.pc, frame.handlerExcStack, frame.entered 6)) =
      some (.running, 26, [2, 1], 1) := by
    decide +kernel
  obtain ⟨frame, taken, facts⟩ := Option.map_eq_some_iff.mp reached
  simp only [Prod.mk.injEq] at facts
  obtain ⟨running, atPc, stack, -⟩ := facts
  have run := Run.actions (.refl) (fun action _ frame => True.intro) taken
  have found : fetch (compileFlow 9 leftCatch).stored.code frame.pc = some { instr := .rethrow, handlers := [6] } := by
    rw [atPc]
    decide +kernel
  obtain ⟨agrees, -⟩ := rethrows _ frame _ run running found
  rw [stack] at agrees
  have lengths := congrArg List.length agrees
  rw [List.length_map] at lengths
  cases lengths

end NLang.Backend
