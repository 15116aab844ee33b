import NLang.Vm.Scheduler

/-!
# The operations of the scheduler

The scheduler with its counters, each public operation on it and what the operation answers. A wait is two
operations, one that enters it and one that leaves it.
-/

namespace NLang.Vm
open NLang.Library.Queues

structure Threads where
  currentContextId : Nat → Option Nat
  pumpToken : Nat → Nat
  nextToken : Nat

structure VmScheduler extends Scheduler where
  stopRequested : Bool
  idleCarrierCount : Int
  blockedNativeCount : Int
  activeCarrierCount : Int
  activePumpCount : Int
  ioPollerRegistered : List (Nat × Nat)
  nextToken : Nat

inductive Pass where
  | dispatched (id : Nat)
  | stopped
  | deadlock
  | waitsFrozen
  | waitsForFocus
  | waitsForWork

namespace VmScheduler

def construct (threads : Threads) : VmScheduler where
  contexts _ := {}
  nextId := 0
  runQueue := []
  timers := []
  ioWaits := []
  held := threads.currentContextId
  pumpToken := threads.pumpToken
  debugFocusContext := none
  debugFreezeDepth := 0
  stopRequested := false
  idleCarrierCount := 0
  blockedNativeCount := 0
  activeCarrierCount := 0
  activePumpCount := 0
  ioPollerRegistered := []
  nextToken := threads.nextToken

def threads (s : VmScheduler) : Threads :=
  { currentContextId := s.held, pumpToken := s.pumpToken, nextToken := s.nextToken }

def reset (s : VmScheduler) : VmScheduler :=
  { s with
    contexts := fun _ => {}
    runQueue := []
    timers := []
    stopRequested := false
    idleCarrierCount := 0
    blockedNativeCount := 0
    nextId := 0
    debugFocusContext := none }

def onContext (s : VmScheduler) (id : Nat) (change : Scheduler → Scheduler) : VmScheduler :=
  if id < s.nextId then { s with toScheduler := change s.toScheduler } else s

def hasPopableEntry (s : VmScheduler) (thread : Nat) : Bool :=
  s.runQueue.any fun id => id < s.nextId ∧ s.pinnedAway thread id = false

def otherPumps (s : VmScheduler) (thread : Nat) : Int :=
  s.activePumpCount - if s.pumpToken thread ≠ 0 then 1 else 0

def deadlocked (s : VmScheduler) (thread : Nat) (amCarrier : Bool) : Bool :=
  s.otherPumps thread = 0 ∧ s.timers = [] ∧ s.ioWaits = [] ∧ s.blockedNativeCount = 0 ∧
    s.activeCarrierCount ≤ s.idleCarrierCount + if amCarrier then 1 else 0

def entersWait (s : VmScheduler) (amCarrier : Bool) : VmScheduler :=
  { s with idleCarrierCount := s.idleCarrierCount + if amCarrier then 1 else 0 }

def leavesWait (s : VmScheduler) (amCarrier : Bool) : VmScheduler :=
  { s with idleCarrierCount := s.idleCarrierCount - if amCarrier then 1 else 0 }

def waitForWorkOrStop (s : VmScheduler) (thread : Nat) (amCarrier : Bool) : Pass × VmScheduler :=
  if s.stopRequested then (.stopped, s)
  else if s.deadlocked thread amCarrier then (.deadlock, s)
  else (.waitsForWork, s.entersWait amCarrier)

def popNextRunnable (s : VmScheduler) (carrier : Nat) : Pass × VmScheduler :=
  if 0 < s.debugFreezeDepth ∧ s.stopRequested = false then (.waitsFrozen, s)
  else
    match s.heldFocus with
    | some focus =>
      match takeFirst (· = focus) (fun _ => none) s.runQueue with
      | some (id, left) =>
        (.dispatched id,
          { s with toScheduler := { s.toScheduler with runQueue := left }.dispatchedToCarrier carrier id })
      | none => if s.stopRequested then (.stopped, s) else (.waitsForFocus, s.entersWait true)
    | none =>
      match s.popAffinity carrier with
      | some (id, left) =>
        (.dispatched id,
          { s with toScheduler := { s.toScheduler with runQueue := left }.dispatchedToCarrier carrier id })
      | none => s.waitForWorkOrStop carrier true

def acquirePumpToken (s : VmScheduler) (thread : Nat) : VmScheduler :=
  { s with
    pumpToken := Function.update s.pumpToken thread s.nextToken
    activePumpCount := s.activePumpCount + 1
    nextToken := s.nextToken + 1 }

def releasePumpToken (s : VmScheduler) (thread : Nat) : VmScheduler :=
  { s with
    pumpToken := Function.update s.pumpToken thread 0
    activePumpCount := s.activePumpCount - 1 }

def parkForIo (s : VmScheduler) (carrier id : Nat) (fd : Option Nat) (events : Nat) (deadline : Option Nat) :
    VmScheduler :=
  if id < s.nextId then
    { s with
      toScheduler := s.toScheduler.parkForIo carrier id fd events deadline
      blockedNativeCount :=
        if (s.contexts id).state = .blockedNative then s.blockedNativeCount - 1 else s.blockedNativeCount }
  else s

def wakeIoWaitersForFd (s : VmScheduler) (fd : Nat) : VmScheduler :=
  let (ids, taken) := s.takeIoWaitersForFd fd
  let erased : VmScheduler :=
    { s with toScheduler := taken, ioPollerRegistered := s.ioPollerRegistered.filter (·.1 ≠ fd) }
  ids.foldl (fun s id => s.onContext id fun sched => sched.wakeForIo id) erased

def markBlockedNative (s : VmScheduler) (id : Nat) : VmScheduler :=
  if id < s.nextId then
    { s with
      toScheduler := s.setState id .blockedNative
      blockedNativeCount := s.blockedNativeCount + 1 }
  else s

def markRunnableHeld (s : VmScheduler) (id : Nat) : VmScheduler :=
  if id < s.nextId then
    { s with
      toScheduler := s.setState id .runnable
      blockedNativeCount := s.blockedNativeCount - 1 }
  else s

def kMainThreadId : Nat := 0

def stopAfterMain (s : VmScheduler) (id : Nat) : VmScheduler :=
  if id = kMainThreadId ∧ id < s.nextId then { s with stopRequested := true } else s

def wantedInterest (ioWaits : List IoWaitEntry) : List (Nat × Nat) :=
  ioWaits.foldl (fun wanted entry =>
    match entry.fd with
    | none => wanted
    | some fd =>
      if wanted.any (·.1 = fd) then
        wanted.map fun row => if row.1 = fd then (fd, row.2 ||| entry.events) else row
      else wanted ++ [(fd, entry.events)]) []

local instance lawfulRows : LawfulBEq (Nat × Nat) := inferInstance

def syncPollerInterest (s : VmScheduler) : (List (Nat × Nat) × List Nat) × VmScheduler :=
  let wanted := wantedInterest s.ioWaits
  ((wanted.filter (· ∉ s.ioPollerRegistered),
      (s.ioPollerRegistered.filter fun row => ¬ wanted.any (·.1 = row.1)).map (·.1)),
    { s with ioPollerRegistered := wanted })

def harvestIoEvents (s : VmScheduler) (ready : Nat → Option Nat) (now : Nat) : VmScheduler :=
  let harvested := s.toScheduler.harvestIoEvents ready now
  { s with
    toScheduler := harvested
    ioPollerRegistered := if harvested.ioWaits = [] then [] else s.ioPollerRegistered }

end VmScheduler

inductive Operation where
  | registerContext (frames : List Frame)
  | registerParkedPromiseContext
  | popNextRunnable (carrier : Nat)
  | waitForWorkOrStop (thread : Nat) (amCarrier : Bool)
  | leavesWait (amCarrier : Bool)
  | parkContextFrames (carrier id : Nat) (frames : List Frame)
  | parkContextFramesSlice (carrier id : Nat) (stack : List Frame) (keepBelow : Nat) (enqueueIfRunnable : Bool)
  | acquirePumpToken (thread : Nat)
  | releasePumpToken (thread : Nat)
  | pinContext (id token : Nat)
  | requeue (carrier id : Nat)
  | parkForJoin (carrier id targetId : Nat)
  | parkForJoinAny (carrier id : Nat) (targets : List (Nat × Nat))
  | parkForTimer (carrier id wakeAt : Nat)
  | parkFor (carrier id : Nat) (reason : ContextState)
  | wakeFor (id : Nat)
  | parkForIo (carrier id : Nat) (fd : Option Nat) (events : Nat) (deadline : Option Nat)
  | wakeForIo (id : Nat)
  | wakeIoWaitersForFd (fd : Nat)
  | abortPark (carrier id : Nat)
  | wakeJoiners (targetId : Nat) (failed : Bool)
  | deliverJoinResults (targetId : Nat) (resultCell : Int)
  | markBlockedNative (id : Nat)
  | markRunnableHeld (id : Nat)
  | markFinished (carrier id : Nat) (result : Int)
  | markFailed (carrier id failExcHeapIdx : Nat)
  | markFailureObserved (id : Nat)
  | setDebugFocusContext (id : Option Nat)
  | armDebugFreezeGate
  | disarmDebugFreezeGate
  | requestStop
  | expireDueTimers (now : Nat)
  | harvestIoEvents (ready : List (Nat × Nat)) (now : Nat)
  | syncPollerInterest
  | carrierEnters
  | carrierLeaves
  | installSelfCarrier (carrier : Nat)
  | storeContext (id : Nat) (ctx : ExecutionContext)

inductive Answer where
  | none
  | id (id : Nat)
  | pass (pass : Pass)
  | won (index : Option Nat)
  | polls (registered : List (Nat × Nat)) (deleted : List Nat)

namespace VmScheduler

def apply (s : VmScheduler) : Operation → Answer × VmScheduler
  | .registerContext frames => (.id s.nextId, { s with toScheduler := s.toScheduler.registerContext frames })
  | .registerParkedPromiseContext =>
    (.id s.nextId, { s with toScheduler := s.toScheduler.registerParkedPromiseContext })
  | .popNextRunnable carrier => ((.pass (s.popNextRunnable carrier).1), (s.popNextRunnable carrier).2)
  | .waitForWorkOrStop thread amCarrier =>
    ((.pass (s.waitForWorkOrStop thread amCarrier).1), (s.waitForWorkOrStop thread amCarrier).2)
  | .leavesWait amCarrier => (.none, s.leavesWait amCarrier)
  | .parkContextFrames carrier id frames =>
    (.none, s.onContext id fun sched => sched.parkContextFrames carrier id frames)
  | .parkContextFramesSlice carrier id stack keepBelow enqueueIfRunnable =>
    (.none, s.onContext id fun sched =>
      (sched.parkContextFramesSlice carrier id stack keepBelow enqueueIfRunnable).1)
  | .acquirePumpToken thread => (.id s.nextToken, s.acquirePumpToken thread)
  | .releasePumpToken thread => (.none, s.releasePumpToken thread)
  | .pinContext id token => (.none, s.onContext id fun sched => sched.pinContext id token)
  | .requeue carrier id =>
    (.none, { s with
      toScheduler := { s.toScheduler with runQueue := s.runQueue ++ [id] }.releaseHeldIfCurrent carrier id })
  | .parkForJoin carrier id targetId =>
    (.none, s.onContext id fun sched => sched.parkForJoin carrier id targetId)
  | .parkForJoinAny carrier id targets =>
    (.won (s.decidedIndex targets), s.onContext id fun sched => (sched.parkForJoinAny carrier id targets).2)
  | .parkForTimer carrier id wakeAt =>
    (.none, s.onContext id fun sched => sched.parkForTimer carrier id wakeAt)
  | .parkFor carrier id reason => (.none, s.onContext id fun sched => sched.parkFor carrier id reason)
  | .wakeFor id => (.none, s.onContext id fun sched => sched.wakeFor id)
  | .parkForIo carrier id fd events deadline => (.none, s.parkForIo carrier id fd events deadline)
  | .wakeForIo id => (.none, s.onContext id fun sched => sched.wakeForIo id)
  | .wakeIoWaitersForFd fd => (.none, s.wakeIoWaitersForFd fd)
  | .abortPark carrier id => (.none, s.onContext id fun sched => sched.abortPark carrier id)
  | .wakeJoiners targetId failed => (.none, { s with toScheduler := s.toScheduler.wakeJoiners targetId failed })
  | .deliverJoinResults targetId resultCell =>
    (.none, { s with toScheduler := s.toScheduler.deliverJoinResults targetId resultCell })
  | .markBlockedNative id => (.none, s.markBlockedNative id)
  | .markRunnableHeld id => (.none, s.markRunnableHeld id)
  | .markFinished carrier id result =>
    (.none, (s.onContext id fun sched => sched.markFinished carrier id result).stopAfterMain id)
  | .markFailed carrier id failExcHeapIdx =>
    (.none, (s.onContext id fun sched => sched.markFailed carrier id failExcHeapIdx).stopAfterMain id)
  | .markFailureObserved id =>
    (.none, s.onContext id fun sched => sched.modify id fun ctx => { ctx with failObserved := true })
  | .setDebugFocusContext id => (.none, { s with debugFocusContext := id })
  | .armDebugFreezeGate => (.none, { s with debugFreezeDepth := s.debugFreezeDepth + 1 })
  | .disarmDebugFreezeGate => (.none, { s with debugFreezeDepth := s.debugFreezeDepth - 1 })
  | .requestStop => (.none, { s with stopRequested := true })
  | .expireDueTimers now => (.none, { s with toScheduler := s.toScheduler.expireDueTimers now })
  | .harvestIoEvents ready now => (.none, s.harvestIoEvents (fun fd => (ready.find? (·.1 = fd)).map (·.2)) now)
  | .syncPollerInterest =>
    (.polls s.syncPollerInterest.1.1 s.syncPollerInterest.1.2, s.syncPollerInterest.2)
  | .carrierEnters => (.none, { s with activeCarrierCount := s.activeCarrierCount + 1 })
  | .carrierLeaves => (.none, { s with activeCarrierCount := s.activeCarrierCount - 1 })
  | .installSelfCarrier carrier =>
    (.none, { s with
      held := Function.update s.held carrier none
      pumpToken := Function.update s.pumpToken carrier 0 })
  | .storeContext id ctx => (.none, s.onContext id fun sched => sched.modify id fun _ => ctx)

def woken (s s' : VmScheduler) : List Nat :=
  (List.range s.nextId).filter fun id => (s.contexts id).state ≠ .runnable ∧ (s'.contexts id).state = .runnable

def observe (s : VmScheduler) : List Operation → List (Answer × List Nat)
  | [] => []
  | operation :: later =>
    ((s.apply operation).1, s.woken (s.apply operation).2) :: observe (s.apply operation).2 later

def after (s : VmScheduler) (history : List Operation) : VmScheduler :=
  history.foldl (fun s operation => (s.apply operation).2) s

end VmScheduler
end NLang.Vm
