import NLang.Library.Queues

/-!
# The context scheduler

The registry of contexts, the run queue, the timer and io tables, and what each function of the scheduler does to
them in its critical section. A carrier is named by its id; frames are opaque.
-/

namespace NLang.Vm
open NLang.Library.Queues

inductive ContextState where
  | runnable
  | parkedTimer
  | parkedJoin
  | parkedMutex
  | parkedSemaphore
  | parkedClassInit
  | parkedChanRecv
  | parkedChanSend
  | parkedIo
  | parkedPromise
  | blockedNative
  | finished
  | failed
  deriving DecidableEq

abbrev Frame := Nat

structure ExecutionContext where
  state : ContextState := .runnable
  frames : List Frame := []
  framesParked : Bool := false
  ioParkArmed : Bool := false
  pinnedToken : Nat := 0
  failExcHeapIdx : Nat := 0
  failObserved : Bool := false
  parkHandle : Option Nat := none
  rethrowOnResume : Bool := false
  resultCell : Int := 0
  /-- Whether a destination is registered, and what the destination holds. -/
  joinResultDst : Bool := false
  joinResult : Option Int := none
  selectAnyTargets : List (Nat × Nat) := []
  lastCarrier : Option Nat := none

def ExecutionContext.joins (ctx : ExecutionContext) (targetId : Nat) : Bool :=
  ctx.state = .parkedJoin ∧ ctx.parkHandle = some targetId

def ExecutionContext.winIdx (ctx : ExecutionContext) (targetId : Nat) : Option Nat :=
  if ctx.state = .parkedJoin then (ctx.selectAnyTargets.find? (·.1 = targetId)).map (·.2) else none

def ExecutionContext.joinerWoken (ctx : ExecutionContext) (failed : Bool) : ExecutionContext :=
  { ctx with
    state := .runnable
    rethrowOnResume := ctx.rethrowOnResume || failed
    joinResultDst := ctx.joinResultDst && !failed }

def ExecutionContext.selectAnyWoken (ctx : ExecutionContext) (winIdx : Nat) : ExecutionContext :=
  { ctx with
    state := .runnable
    joinResult := if ctx.joinResultDst then some winIdx else ctx.joinResult
    joinResultDst := false
    selectAnyTargets := [] }

def ExecutionContext.wokenBy (ctx : ExecutionContext) (targetId : Nat) (failed : Bool) : Option ExecutionContext :=
  if ctx.joins targetId then some (ctx.joinerWoken failed)
  else (ctx.winIdx targetId).map ctx.selectAnyWoken

structure TimerEntry where
  contextId : Nat
  wakeAt : Nat
  deriving DecidableEq

/-- `none` is a negative descriptor, a wait for the deadline only. -/
structure IoWaitEntry where
  contextId : Nat
  fd : Option Nat
  events : Nat
  deadline : Option Nat

def ioEvHupErr : Nat := 12

def IoWaitEntry.reported (ready : Nat → Option Nat) (entry : IoWaitEntry) : Bool :=
  match entry.fd.bind ready with
  | none => false
  | some events => entry.events &&& events ≠ 0 ∨ events &&& ioEvHupErr ≠ 0

def IoWaitEntry.overdue (now : Nat) (entry : IoWaitEntry) : Bool := entry.deadline.any (· ≤ now)

structure Scheduler where
  contexts : Nat → ExecutionContext
  nextId : Nat
  runQueue : List Nat
  timers : List TimerEntry
  ioWaits : List IoWaitEntry
  held : Nat → Option Nat
  pumpToken : Nat → Nat
  debugFocusContext : Option Nat
  debugFreezeDepth : Nat

namespace Scheduler

def modify (s : Scheduler) (id : Nat) (change : ExecutionContext → ExecutionContext) : Scheduler :=
  { s with contexts := Function.update s.contexts id (change (s.contexts id)) }

def setState (s : Scheduler) (id : Nat) (state : ContextState) : Scheduler :=
  s.modify id fun ctx => { ctx with state }

def releaseHeldIfCurrent (s : Scheduler) (carrier id : Nat) : Scheduler :=
  if s.held carrier = some id then { s with held := Function.update s.held carrier none } else s

def parkFor (s : Scheduler) (carrier id : Nat) (reason : ContextState) : Scheduler :=
  (s.setState id reason).releaseHeldIfCurrent carrier id

/-- `WakeForMutex` and its siblings; the exception a closed channel arms is left out. -/
def wakeFor (s : Scheduler) (id : Nat) : Scheduler :=
  { s.setState id .runnable with
    runQueue := if (s.contexts id).framesParked then s.runQueue ++ [id] else s.runQueue }

def abortPark (s : Scheduler) (carrier id : Nat) : Scheduler :=
  { s.setState id .runnable with held := Function.update s.held carrier (some id) }

def parkForTimer (s : Scheduler) (carrier id wakeAt : Nat) : Scheduler :=
  let parked := s.setState id .parkedTimer
  { parked with timers := s.timers ++ [{ contextId := id, wakeAt }] : Scheduler }.releaseHeldIfCurrent carrier id

def expireDueTimers (s : Scheduler) (now : Nat) : Scheduler :=
  let sleeping := s.timers.filter fun entry => (s.contexts entry.contextId).state = .parkedTimer
  let due := (sleeping.filter (·.wakeAt ≤ now)).mergeSort fun entry later => entry.wakeAt ≤ later.wakeAt
  { due.foldl (fun s entry => s.wakeFor entry.contextId) s with
    timers := sleeping.filter fun entry => ¬ entry.wakeAt ≤ now }

def parkForIo (s : Scheduler) (carrier id : Nat) (fd : Option Nat) (events : Nat) (deadline : Option Nat) :
    Scheduler :=
  let parked := s.setState id .parkedIo
  { parked with ioWaits := s.ioWaits ++ [{ contextId := id, fd, events, deadline }] : Scheduler }
    |>.releaseHeldIfCurrent carrier id

def wakeForIo (s : Scheduler) (id : Nat) : Scheduler :=
  if (s.contexts id).state ≠ .parkedIo then s
  else (s.modify id fun ctx => { ctx with ioParkArmed := true }).wakeFor id

def takeIoWaitersForFd (s : Scheduler) (fd : Nat) : List Nat × Scheduler :=
  ((s.ioWaits.filter (·.fd = some fd)).map (·.contextId),
    { s with ioWaits := s.ioWaits.filter fun entry => ¬ entry.fd = some fd })

def harvest (s : Scheduler) (hit : IoWaitEntry → Bool) : Scheduler :=
  { (s.ioWaits.filter hit).foldl (fun s entry => s.wakeForIo entry.contextId) s with
    ioWaits := s.ioWaits.filter fun entry => ¬ hit entry = true }

def harvestIoEvents (s : Scheduler) (ready : Nat → Option Nat) (now : Nat) : Scheduler :=
  (s.harvest (IoWaitEntry.reported ready)).harvest (IoWaitEntry.overdue now)

def parkForJoin (s : Scheduler) (carrier id targetId : Nat) : Scheduler :=
  (s.modify id fun ctx => { ctx with state := .parkedJoin, parkHandle := some targetId }).releaseHeldIfCurrent
    carrier id

def decided (s : Scheduler) (id : Nat) : Bool :=
  id < s.nextId ∧ ((s.contexts id).state = .finished ∨ (s.contexts id).state = .failed)

def decidedIndex (s : Scheduler) (targets : List (Nat × Nat)) : Option Nat :=
  ((targets.filter fun (target, _) => s.decided target).map (·.2)).min?

def parkForJoinAny (s : Scheduler) (carrier id : Nat) (targets : List (Nat × Nat)) : Option Nat × Scheduler :=
  match s.decidedIndex targets with
  | some won => (some won, s)
  | none =>
    (none, (s.modify id fun ctx =>
      { ctx with state := .parkedJoin, parkHandle := none, selectAnyTargets := targets }).releaseHeldIfCurrent
        carrier id)

def joinersEnqueued (s : Scheduler) (targetId : Nat) : List Nat :=
  let parked := (List.range s.nextId).filter fun id => (s.contexts id).framesParked
  parked.filter (fun id => (s.contexts id).joins targetId) ++
    parked.filter fun id =>
      ¬ (s.contexts id).joins targetId = true ∧ ((s.contexts id).winIdx targetId).isSome = true

def wakeJoiners (s : Scheduler) (targetId : Nat) (failed : Bool) : Scheduler :=
  let woken : Scheduler := { s with
    contexts := fun id =>
      if id < s.nextId then ((s.contexts id).wokenBy targetId failed).getD (s.contexts id) else s.contexts id
    runQueue := s.runQueue ++ s.joinersEnqueued targetId }
  if failed ∧ (List.range s.nextId).any (fun id => (s.contexts id).joins targetId) then
    woken.modify targetId fun ctx => { ctx with failObserved := true }
  else woken

def deliverJoinResults (s : Scheduler) (targetId : Nat) (resultCell : Int) : Scheduler :=
  { s with
    contexts := fun id =>
      let ctx := s.contexts id
      if id < s.nextId ∧ ctx.joins targetId = true ∧ ctx.joinResultDst = true then
        { ctx with joinResult := some resultCell, joinResultDst := false }
      else ctx }

def landFrames (s : Scheduler) (carrier id : Nat) (frames : List Frame) (enqueueIfRunnable : Bool) : Scheduler :=
  let landed := s.modify id fun ctx => { ctx with frames := ctx.frames ++ frames }
  (if enqueueIfRunnable ∧ (s.contexts id).state = .runnable then { landed with runQueue := s.runQueue ++ [id] }
    else landed.modify id fun ctx => { ctx with framesParked := true }).releaseHeldIfCurrent carrier id

def parkContextFrames (s : Scheduler) (carrier id : Nat) (frames : List Frame) : Scheduler :=
  s.landFrames carrier id frames true

def parkContextFramesSlice (s : Scheduler) (carrier id : Nat) (stack : List Frame) (keepBelow : Nat)
    (enqueueIfRunnable : Bool) : Scheduler × List Frame :=
  (s.landFrames carrier id (stack.drop keepBelow) enqueueIfRunnable, stack.take keepBelow)

/-- `none` when the context has no frames to resume, which leaves its handshake flag as it is. -/
def spliceResumedFrames (s : Scheduler) (id : Nat) : Option (List Frame) × Scheduler :=
  match (s.contexts id).frames with
  | [] => (none, s)
  | frame :: rest => (some (frame :: rest), s.modify id fun ctx => { ctx with frames := [], framesParked := false })

def resumePinnedWindow (s : Scheduler) (id : Nat) : List Frame × Scheduler :=
  ((s.contexts id).frames, s.modify id fun ctx => { ctx with frames := [], framesParked := false })

def parkFramesForBlockingNative (s : Scheduler) (id : Nat) (stack : List Frame) : Scheduler :=
  s.modify id fun ctx => { ctx with frames := ctx.frames ++ stack, state := .blockedNative }

def restoreStolenFrames (s : Scheduler) (id stolenDepth : Nat) : List Frame × Scheduler :=
  let frames := (s.contexts id).frames
  (frames.drop (frames.length - stolenDepth),
    s.modify id fun ctx =>
      { ctx with frames := frames.take (frames.length - stolenDepth), state := .runnable })

def affinityScanWindow : Nat := 8

def dispatchedToCarrier (s : Scheduler) (carrier id : Nat) : Scheduler :=
  { s.modify id fun ctx => { ctx with lastCarrier := some carrier } with
    held := Function.update s.held carrier (some id) }

def pinnedAway (s : Scheduler) (carrier id : Nat) : Bool :=
  (s.contexts id).pinnedToken ≠ 0 ∧ (s.contexts id).pinnedToken ≠ s.pumpToken carrier

def prefers (s : Scheduler) (carrier id : Nat) : Bool :=
  !s.pinnedAway carrier id &&
    ((s.contexts id).lastCarrier = none || (s.contexts id).lastCarrier = some carrier)

def popAffinity (s : Scheduler) (carrier : Nat) : Option (Nat × List Nat) :=
  match takeFirst (s.prefers carrier) (fun _ => none) (s.runQueue.take affinityScanWindow) with
  | some (id, left) => some (id, left ++ s.runQueue.drop affinityScanWindow)
  | none => takeFirst (fun id => !s.pinnedAway carrier id) (fun _ => none) s.runQueue

def heldFocus (s : Scheduler) : Option Nat :=
  s.debugFocusContext.filter fun focus => focus < s.nextId ∧ (s.contexts focus).state = .runnable

/-- One pass of `PopNextRunnable` through its gates; `none` is a pass that waits. -/
def popNextRunnable (s : Scheduler) (carrier : Nat) : Option (Nat × Scheduler) :=
  if 0 < s.debugFreezeDepth then none
  else
    (match s.heldFocus with
      | some focus => takeFirst (· = focus) (fun _ => none) s.runQueue
      | none => s.popAffinity carrier).map fun (id, left) =>
        (id, { s with runQueue := left }.dispatchedToCarrier carrier id)

def registerContext (s : Scheduler) (frames : List Frame) : Scheduler :=
  { s.modify s.nextId fun _ => { frames } with nextId := s.nextId + 1, runQueue := s.runQueue ++ [s.nextId] }

def registerParkedPromiseContext (s : Scheduler) : Scheduler :=
  { s.modify s.nextId fun _ => { state := .parkedPromise } with nextId := s.nextId + 1 }

def markFinished (s : Scheduler) (carrier id : Nat) (result : Int) : Scheduler :=
  (s.modify id fun ctx => { ctx with state := .finished, resultCell := result }).releaseHeldIfCurrent carrier id

def markFailed (s : Scheduler) (carrier id failExcHeapIdx : Nat) : Scheduler :=
  (s.modify id fun ctx => { ctx with state := .failed, failExcHeapIdx }).releaseHeldIfCurrent carrier id

def pinContext (s : Scheduler) (id token : Nat) : Scheduler := s.modify id fun ctx => { ctx with pinnedToken := token }

section
variable (s : Scheduler) (carrier id other : Nat)

@[simp] theorem modify_self (change : ExecutionContext → ExecutionContext) :
    (s.modify id change).contexts id = change (s.contexts id) := Function.update_self _ _ _

@[simp] theorem modify_other {change : ExecutionContext → ExecutionContext} (apart : other ≠ id) :
    (s.modify id change).contexts other = s.contexts other := Function.update_of_ne apart _ _

@[simp] theorem releaseHeldIfCurrent_contexts : (s.releaseHeldIfCurrent carrier id).contexts = s.contexts := by
  unfold releaseHeldIfCurrent
  split <;> rfl

@[simp] theorem releaseHeldIfCurrent_runQueue : (s.releaseHeldIfCurrent carrier id).runQueue = s.runQueue := by
  unfold releaseHeldIfCurrent
  split <;> rfl

@[simp] theorem releaseHeldIfCurrent_timers : (s.releaseHeldIfCurrent carrier id).timers = s.timers := by
  unfold releaseHeldIfCurrent
  split <;> rfl

@[simp] theorem releaseHeldIfCurrent_ioWaits : (s.releaseHeldIfCurrent carrier id).ioWaits = s.ioWaits := by
  unfold releaseHeldIfCurrent
  split <;> rfl

@[simp] theorem releaseHeldIfCurrent_nextId : (s.releaseHeldIfCurrent carrier id).nextId = s.nextId := by
  unfold releaseHeldIfCurrent
  split <;> rfl

variable {s carrier id other}

theorem releaseHeldIfCurrent_held :
    (s.releaseHeldIfCurrent carrier id).held other =
      if other = carrier ∧ s.held carrier = some id then none else s.held other := by
  unfold releaseHeldIfCurrent
  by_cases current : s.held carrier = some id
  · by_cases same : other = carrier
    · simp [current, same]
    · simp [current, same]
  · simp [current]

theorem held_of_released {waiter : Nat} (held : (s.releaseHeldIfCurrent carrier id).held other = some waiter) :
    s.held other = some waiter ∧ ¬ (other = carrier ∧ waiter = id) := by
  rw [releaseHeldIfCurrent_held] at held
  by_cases released : other = carrier ∧ s.held carrier = some id
  · rw [if_pos released] at held
    cases held
  · rw [if_neg released] at held
    refine ⟨held, fun same => released ⟨same.1, ?_⟩⟩
    rw [← same.1, ← same.2]
    exact held

theorem held_of_landed {frames : List Frame} {enqueueIfRunnable : Bool} {waiter : Nat}
    (held : (s.landFrames carrier id frames enqueueIfRunnable).held other = some waiter) :
    s.held other = some waiter ∧ ¬ (other = carrier ∧ waiter = id) := by
  have same : (s.landFrames carrier id frames enqueueIfRunnable).held = (s.releaseHeldIfCurrent carrier id).held := by
    funext other
    unfold landFrames
    split <;> rw [releaseHeldIfCurrent_held, releaseHeldIfCurrent_held] <;> rfl
  exact held_of_released (same ▸ held)

end

theorem takeFirst_removed {wanted : Nat → Bool} {queue left : List Nat} {id : Nat}
    (found : takeFirst wanted (fun _ => none) queue = some (id, left)) :
    ∃ before after, queue = before ++ id :: after ∧ left = before ++ after := by
  obtain ⟨before, after, split, -, -, leaves⟩ := takeFirst_some found
  exact ⟨before, after, split, leaves⟩

theorem popAffinity_removed {s : Scheduler} {carrier id : Nat} {left : List Nat}
    (popped : s.popAffinity carrier = some (id, left)) :
    ∃ before after, s.runQueue = before ++ id :: after ∧ left = before ++ after := by
  unfold popAffinity at popped
  cases found : takeFirst (s.prefers carrier) (fun _ => none) (s.runQueue.take affinityScanWindow) with
  | none =>
    rw [found] at popped
    exact takeFirst_removed popped
  | some result =>
    obtain ⟨first, rest⟩ := result
    rw [found] at popped
    cases popped
    obtain ⟨before, after, split, leaves⟩ := takeFirst_removed found
    refine ⟨before, after ++ s.runQueue.drop affinityScanWindow, ?_, by rw [leaves, List.append_assoc]⟩
    rw [← List.cons_append, ← List.append_assoc, ← split, List.take_append_drop]

theorem popNextRunnable_removed {s s' : Scheduler} {carrier id : Nat}
    (popped : s.popNextRunnable carrier = some (id, s')) :
    ∃ before after, s.runQueue = before ++ id :: after ∧
      s' = { s with runQueue := before ++ after }.dispatchedToCarrier carrier id := by
  unfold popNextRunnable at popped
  by_cases frozen : 0 < s.debugFreezeDepth
  · rw [if_pos frozen] at popped
    cases popped
  · rw [if_neg frozen] at popped
    obtain ⟨⟨first, left⟩, found, equal⟩ := Option.map_eq_some_iff.mp popped
    cases equal
    have removed : ∃ before after, s.runQueue = before ++ id :: after ∧ left = before ++ after := by
      cases focus : s.heldFocus with
      | none =>
        rw [focus] at found
        exact popAffinity_removed found
      | some _ =>
        rw [focus] at found
        exact takeFirst_removed found
    obtain ⟨before, after, split, leaves⟩ := removed
    exact ⟨before, after, split, by rw [leaves]⟩

end Scheduler
end NLang.Vm
