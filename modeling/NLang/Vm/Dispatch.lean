import NLang.Vm.ChannelSlots
import NLang.Vm.Scheduler

/-!
# Contexts, carriers and the parking calls

Carriers run contexts whose calls park them: a call on a sync primitive registers an entry under the Sync domain,
migrates its state with the scheduler, rechecks the entry and then either unwinds to park or aborts the park. The
other parking calls park at once. A wake that is issued after a section is in flight until its scheduler call; a
wake in flight may be overtaken by every other step, those of the context that issued it included.
-/

namespace NLang.Vm.Dispatch
open NLang.Vm.Sync

inductive Table where
  | mutex (handle : Nat)
  | rmutex (handle : Nat)
  | semaphore (handle : Nat)
  | chanRecv (handle : Nat)
  | chanSend (handle : Nat)
  | classInit (owner : Nat)
  | timer
  | io
  | join
  deriving DecidableEq

def Table.reason : Table → ContextState
  | .mutex _ => .parkedMutex
  | .rmutex _ => .parkedMutex
  | .semaphore _ => .parkedSemaphore
  | .chanRecv _ => .parkedChanRecv
  | .chanSend _ => .parkedChanSend
  | .classInit _ => .parkedClassInit
  | .timer => .parkedTimer
  | .io => .parkedIo
  | .join => .parkedJoin

/-- Where the call of a context on a carrier stands: popped before its frames are spliced, registered before and
migrated after its `ParkFor…`, aborting before its `AbortPark`, unwinding before its frames land. -/
inductive Stage where
  | popped
  | running
  | registered (table : Table)
  | migrated (table : Table)
  | aborting
  | unwinding
  deriving DecidableEq

inductive Control where
  | unborn
  | landed
  | on (carrier : Nat) (stage : Stage)
  | ended
  deriving DecidableEq

inductive Post where
  | free
  | registered (table : Table)
  | committed (table : Table)
  | granted (table : Table)
  deriving DecidableEq

structure Wake where
  table : Table
  id : Nat
  park : Nat

/-- `park` counts the parks each context has begun, `entryPark` is the park an entry was registered for, `awaited`
the contexts the last join waits for, `holds` counts the lock calls that returned and were not undone by an unlock;
`astray` is set by a wake that does not answer the park its context is in. -/
structure State where
  sched : Scheduler
  mutexes : Nat → MutexSlot
  rmutexes : Nat → RMutexSlot
  semaphores : Nat → SemaphoreSlot
  channels : Nat → ChannelSlot Nat
  classWaiters : Nat → List Nat
  control : Nat → Control
  window : Nat → Option Nat
  post : Nat → Post
  park : Nat → Nat
  entryPark : Table → Nat → Nat
  awaited : Nat → List Nat
  holds : Table → Nat → Nat
  flying : List Wake
  deciding : List (Nat × Bool)
  astray : Bool

namespace State

def running (s : State) (carrier : Nat) : Option Nat :=
  (s.window carrier).filter fun id => s.control id = .on carrier .running

def goTo (s : State) (carrier id : Nat) (stage : Stage) : State :=
  { s with control := Function.update s.control id (.on carrier stage) }

def enter (s : State) (id : Nat) (table : Table) (post : Post) : State :=
  { s with
    post := Function.update s.post id post
    park := Function.update s.park id (s.park id + 1)
    entryPark := Function.update s.entryPark table (Function.update (s.entryPark table) id (s.park id + 1)) }

def register (s : State) (carrier id : Nat) (table : Table) : State :=
  (s.enter id table (.registered table)).goTo carrier id (.registered table)

def parkAtOnce (s : State) (carrier id : Nat) (table : Table) : State :=
  (s.enter id table (.committed table)).goTo carrier id .unwinding

def serve (s : State) (table : Table) (woken : List Nat) : State :=
  { s with
    post := fun id => if id ∈ woken then .granted table else s.post id
    flying := s.flying ++ woken.map fun id => { table, id, park := s.entryPark table id } }

def answer (s : State) (table : Table) (woken : List Nat) : State :=
  { s with
    post := fun id => if id ∈ woken then .granted table else s.post id
    astray := s.astray || woken.any fun id => s.entryPark table id ≠ s.park id }

def setHolds (s : State) (table : Table) (id count : Nat) : State :=
  { s with holds := Function.update s.holds table (Function.update (s.holds table) id count) }

def locked (s : State) (table : Table) (id : Nat) : State := s.setHolds table id (s.holds table id + 1)

def unlocked (s : State) (table : Table) (id : Nat) : State := s.setHolds table id (s.holds table id - 1)

def parkedCallReturns (s : State) (id : Nat) : State :=
  let after := { s with post := Function.update s.post id .free }
  match s.post id with
  | .granted (.mutex handle) => after.locked (.mutex handle) id
  | .granted (.rmutex handle) => after.locked (.rmutex handle) id
  | _ => after

def setMutex (s : State) (handle : Nat) (slot : MutexSlot) : State :=
  { s with mutexes := Function.update s.mutexes handle slot }

def setRMutex (s : State) (handle : Nat) (slot : RMutexSlot) : State :=
  { s with rmutexes := Function.update s.rmutexes handle slot }

def setSemaphore (s : State) (handle : Nat) (slot : SemaphoreSlot) : State :=
  { s with semaphores := Function.update s.semaphores handle slot }

def setChannel (s : State) (handle : Nat) (slot : ChannelSlot Nat) : State :=
  { s with channels := Function.update s.channels handle slot }

def mutexLock (s : State) (carrier id handle : Nat) (suspensionAllowed : Bool) : State :=
  match (s.mutexes handle).lock id suspensionAllowed with
  | .error _ => s
  | .ok (false, slot) => (s.setMutex handle slot).locked (.mutex handle) id
  | .ok (true, slot) => (s.setMutex handle slot).register carrier id (.mutex handle)

def mutexTryLock (s : State) (id handle : Nat) : State :=
  match (s.mutexes handle).tryLock id with
  | (true, slot) => (s.setMutex handle slot).locked (.mutex handle) id
  | (false, slot) => s.setMutex handle slot

def mutexUnlock (s : State) (id handle : Nat) : State :=
  match (s.mutexes handle).unlock id with
  | .error _ => s
  | .ok (wakes, slot) =>
    ((s.setMutex handle slot).unlocked (.mutex handle) id).serve (.mutex handle) wakes.toList

def rmutexLock (s : State) (carrier id handle : Nat) (suspensionAllowed : Bool) : State :=
  match (s.rmutexes handle).lock id suspensionAllowed with
  | .error _ => s
  | .ok (false, slot) => (s.setRMutex handle slot).locked (.rmutex handle) id
  | .ok (true, slot) => (s.setRMutex handle slot).register carrier id (.rmutex handle)

def rmutexTryLock (s : State) (id handle : Nat) : State :=
  match (s.rmutexes handle).tryLock id with
  | (true, slot) => (s.setRMutex handle slot).locked (.rmutex handle) id
  | (false, slot) => s.setRMutex handle slot

def rmutexUnlock (s : State) (id handle : Nat) : State :=
  match (s.rmutexes handle).unlock id with
  | .error _ => s
  | .ok (wakes, slot) =>
    ((s.setRMutex handle slot).unlocked (.rmutex handle) id).serve (.rmutex handle) wakes.toList

def semaphoreAcquire (s : State) (carrier id handle : Nat) (suspensionAllowed : Bool) : State :=
  match (s.semaphores handle).acquire id suspensionAllowed with
  | .error _ => s
  | .ok (false, slot) => s.setSemaphore handle slot
  | .ok (true, slot) => (s.setSemaphore handle slot).register carrier id (.semaphore handle)

def semaphoreRelease (s : State) (handle : Nat) : State :=
  let (wakes, slot) := (s.semaphores handle).release
  (s.setSemaphore handle slot).serve (.semaphore handle) wakes.toList

def channelSend (s : State) (carrier id handle value : Nat) (suspensionAllowed : Bool) : State :=
  match (s.channels handle).send id value suspensionAllowed with
  | .error _ => s
  | .ok (.handed receiver, slot) => (s.setChannel handle slot).serve (.chanRecv handle) receiver.wakes.toList
  | .ok (.buffered, slot) => s.setChannel handle slot
  | .ok (.mustPark, slot) => (s.setChannel handle slot).register carrier id (.chanSend handle)

def channelRecv (s : State) (carrier id handle : Nat) (suspensionAllowed : Bool) : State :=
  match (s.channels handle).recv id suspensionAllowed with
  | .error _ => s
  | .ok (.value _ staged, slot) =>
    (s.setChannel handle slot).serve (.chanSend handle) (staged.bind PendingSend.wakes).toList
  | .ok (.mustPark, slot) => (s.setChannel handle slot).register carrier id (.chanRecv handle)

def channelClose (s : State) (handle : Nat) : State :=
  let (slot, _, receivers, senders) := (s.channels handle).close
  ((s.setChannel handle slot).serve (.chanRecv handle) receivers).serve (.chanSend handle) senders

def recheckEntry (s : State) (id : Nat) : Table → Except String (Bool × State)
  | .mutex handle =>
    (consumeSyncWaiterStamp (s.mutexes handle).waiters id).map fun (result, waiters) =>
      (result = .requestPark, s.setMutex handle { s.mutexes handle with waiters })
  | .rmutex handle =>
    (consumeSyncWaiterStamp (s.rmutexes handle).waiters id).map fun (result, waiters) =>
      (result = .requestPark, s.setRMutex handle { s.rmutexes handle with waiters })
  | .semaphore handle =>
    (consumeSyncWaiterStamp (s.semaphores handle).waiters id).map fun (result, waiters) =>
      (result = .requestPark, s.setSemaphore handle { s.semaphores handle with waiters })
  | .chanRecv handle =>
    ((s.channels handle).commitOrAbortChanRecv id).map fun (outcome, slot) =>
      (outcome = none, s.setChannel handle slot)
  | .chanSend handle =>
    ((s.channels handle).commitOrAbortChanSend id).map fun (outcome, slot) =>
      (outcome = none, s.setChannel handle slot)
  | _ => .error ""

def recheck (s : State) (carrier id : Nat) (table : Table) : State :=
  match s.recheckEntry id table with
  | .error _ => { s with astray := true }
  | .ok (true, s) => { s with post := Function.update s.post id (.committed table) }.goTo carrier id .unwinding
  | .ok (false, s) => { s with post := Function.update s.post id (.granted table) }.goTo carrier id .aborting

def joinersOf (s : State) (targetId : Nat) (failed : Bool) : List Nat :=
  (List.range s.sched.nextId).filter fun id => ((s.sched.contexts id).wokenBy targetId failed).isSome

def wakeJoiners (s : State) (targetId : Nat) (failed : Bool) : State :=
  let woken := s.joinersOf targetId failed
  { s with
    sched := s.sched.wakeJoiners targetId failed
    post := fun id => if id ∈ woken then .granted .join else s.post id
    astray := s.astray || woken.any fun id => targetId ∉ s.awaited id || !s.sched.decided targetId }

def joinPark (s : State) (carrier id : Nat) (targets : List Nat) (sched : Scheduler) : State :=
  { s with sched, awaited := Function.update s.awaited id targets }.parkAtOnce carrier id .join

def join (s : State) (carrier id targetId : Nat) (destination suspensionAllowed : Bool) : State :=
  if ¬ targetId < s.sched.nextId ∨ targetId = id then s
  else
    match (s.sched.contexts targetId).state with
    | .finished => s
    | .failed => { s with sched := s.sched.modify targetId fun ctx => { ctx with failObserved := true } }
    | _ =>
      if suspensionAllowed then
        s.joinPark carrier id [targetId]
          ((s.sched.modify id fun ctx => { ctx with joinResultDst := destination || ctx.joinResultDst }).parkForJoin
            carrier id targetId)
      else s

def selectAny (s : State) (carrier id : Nat) (targets : List (Nat × Nat)) (suspensionAllowed : Bool) : State :=
  if (∃ entry ∈ targets, ¬ entry.1 < s.sched.nextId ∨ entry.1 = id) ∨ (s.sched.decidedIndex targets).isSome then s
  else if suspensionAllowed then
    match (s.sched.modify id fun ctx => { ctx with joinResultDst := true }).parkForJoinAny carrier id targets with
    | (some _, _) => s
    | (none, sched) => s.joinPark carrier id (targets.map (·.1)) sched
  else s

def completePromise (s : State) (carrier promise : Nat) (outcome : Int ⊕ Nat) : State :=
  if (s.sched.contexts promise).state ≠ .parkedPromise then s
  else
    match outcome with
    | .inl result =>
      { s with
        sched := (s.sched.markFinished carrier promise result).deliverJoinResults promise result }.wakeJoiners
          promise false
    | .inr exc => { s with sched := s.sched.markFailed carrier promise exc }.wakeJoiners promise true

/-- `NativeParkForIo`: an armed context retries, a wait for nothing answers at once. -/
def nativeParkForIo (s : State) (carrier id : Nat) (fd : Option Nat) (events : Nat) (deadline : Option Nat)
    (suspensionAllowed : Bool) : State :=
  if (s.sched.contexts id).ioParkArmed then
    { s with sched := s.sched.modify id fun ctx => { ctx with ioParkArmed := false } }
  else if ¬ suspensionAllowed ∨ fd = none ∧ deadline = none then s
  else { s with sched := s.sched.parkForIo carrier id fd events deadline }.parkAtOnce carrier id .io

def harvest (s : State) (hit : IoWaitEntry → Bool) : State :=
  { s with sched := s.sched.harvest hit }.answer .io ((s.sched.ioWaits.filter hit).map IoWaitEntry.contextId)

def timersDue (s : State) (now : Nat) : List Nat :=
  ((s.sched.timers.filter fun entry => (s.sched.contexts entry.contextId).state = .parkedTimer).filter
    (·.wakeAt ≤ now)).map (·.contextId)

def wakeIn (sched : Scheduler) (table : Table) (id : Nat) : Scheduler :=
  if table = .io then sched.wakeForIo id else sched.wakeFor id

def deliver (s : State) (wake : Wake) : State :=
  { s with
    sched := wakeIn s.sched wake.table wake.id
    astray := s.astray ||
      (s.sched.contexts wake.id).state ≠ wake.table.reason || wake.park ≠ s.park wake.id }

end State

inductive Action where
  | mutexLock (carrier handle : Nat) (suspensionAllowed : Bool)
  | mutexTryLock (carrier handle : Nat)
  | mutexUnlock (carrier handle : Nat)
  | rmutexLock (carrier handle : Nat) (suspensionAllowed : Bool)
  | rmutexTryLock (carrier handle : Nat)
  | rmutexUnlock (carrier handle : Nat)
  | semaphoreAcquire (carrier handle : Nat) (suspensionAllowed : Bool)
  | semaphoreTryAcquire (carrier handle : Nat)
  | semaphoreRelease (carrier handle : Nat)
  | channelSend (carrier handle value : Nat) (suspensionAllowed : Bool)
  | channelRecv (carrier handle : Nat) (suspensionAllowed : Bool)
  | channelClose (carrier handle : Nat)
  | migrate (carrier : Nat)
  | recheck (carrier : Nat)
  | abort (carrier : Nat)
  | sleep (carrier wakeAt : Nat) (suspensionAllowed : Bool)
  | join (carrier targetId : Nat) (destination suspensionAllowed : Bool)
  | selectAny (carrier : Nat) (targets : List (Nat × Nat)) (suspensionAllowed : Bool)
  | completePromise (carrier promise : Nat) (outcome : Int ⊕ Nat)
  | newPromise (carrier : Nat)
  | spawn (carrier : Nat) (root : Frame)
  | parkOnClassInit (carrier owner : Nat) (initializing : Bool)
  | enterNative (carrier : Nat) (stack : List Frame)
  | nativeParkForIo (carrier : Nat) (fd : Option Nat) (events : Nat) (deadline : Option Nat) (suspensionAllowed : Bool)
  | leaveNative (carrier stolenDepth : Nat)
  | preempt (carrier : Nat)
  | finish (carrier : Nat) (result : Int)
  | fail (carrier exc : Nat)
  | park (carrier : Nat) (frames : List Frame)
  | parkSlice (carrier : Nat) (stack : List Frame) (keepBelow : Nat)
  | pop (carrier : Nat)
  | resume (carrier : Nat)
  | resumePinned (carrier : Nat)
  | setPumpToken (carrier token : Nat)
  | pinContext (id token : Nat)
  | setFocus (focus : Option Nat)
  | setFreeze (depth : Nat)
  | wake (index : Nat)
  | wakeClassInit (owner : Nat)
  | deliverResults (index : Nat)
  | wakeJoiners (index : Nat)
  | expireTimers (now : Nat)
  | harvestIo (ready : Nat → Option Nat) (now : Nat)
  | closeFd (fd : Nat)

def State.act (s : State) (carrier : Nat) (step : Nat → State) : Option State := (s.running carrier).map step

def State.at (s : State) (carrier : Nat) (step : Nat → Stage → Option State) : Option State :=
  match s.window carrier with
  | none => none
  | some id =>
    match s.control id with
    | .on _ stage => step id stage
    | _ => none

def State.step (s : State) : Action → Option State
  | .mutexLock carrier handle suspensionAllowed =>
    s.act carrier fun id => s.mutexLock carrier id handle suspensionAllowed
  | .mutexTryLock carrier handle => s.act carrier fun id => s.mutexTryLock id handle
  | .mutexUnlock carrier handle => s.act carrier fun id => s.mutexUnlock id handle
  | .rmutexLock carrier handle suspensionAllowed =>
    s.act carrier fun id => s.rmutexLock carrier id handle suspensionAllowed
  | .rmutexTryLock carrier handle => s.act carrier fun id => s.rmutexTryLock id handle
  | .rmutexUnlock carrier handle => s.act carrier fun id => s.rmutexUnlock id handle
  | .semaphoreAcquire carrier handle suspensionAllowed =>
    s.act carrier fun id => s.semaphoreAcquire carrier id handle suspensionAllowed
  | .semaphoreTryAcquire carrier handle =>
    s.act carrier fun _ => s.setSemaphore handle (s.semaphores handle).tryAcquire.2
  | .semaphoreRelease carrier handle => s.act carrier fun _ => s.semaphoreRelease handle
  | .channelSend carrier handle value suspensionAllowed =>
    s.act carrier fun id => s.channelSend carrier id handle value suspensionAllowed
  | .channelRecv carrier handle suspensionAllowed =>
    s.act carrier fun id => s.channelRecv carrier id handle suspensionAllowed
  | .channelClose carrier handle => s.act carrier fun _ => s.channelClose handle
  | .migrate carrier =>
    s.at carrier fun id stage =>
      match stage with
      | .registered table =>
        some ({ s with sched := s.sched.parkFor carrier id table.reason }.goTo carrier id (.migrated table))
      | _ => none
  | .recheck carrier =>
    s.at carrier fun id stage =>
      match stage with
      | .migrated table => some (s.recheck carrier id table)
      | _ => none
  | .abort carrier =>
    s.at carrier fun id stage =>
      match stage with
      | .aborting =>
        some (({ s with sched := s.sched.abortPark carrier id }.parkedCallReturns id).goTo carrier id .running)
      | _ => none
  | .sleep carrier wakeAt suspensionAllowed =>
    s.act carrier fun id =>
      if suspensionAllowed then
        { s with sched := s.sched.parkForTimer carrier id wakeAt }.parkAtOnce carrier id .timer
      else s
  | .join carrier targetId destination suspensionAllowed =>
    s.act carrier fun id => s.join carrier id targetId destination suspensionAllowed
  | .selectAny carrier targets suspensionAllowed =>
    s.act carrier fun id => s.selectAny carrier id targets suspensionAllowed
  | .completePromise carrier promise outcome =>
    s.act carrier fun _ => s.completePromise carrier promise outcome
  | .newPromise carrier =>
    s.act carrier fun _ =>
      { s with
        sched := s.sched.registerParkedPromiseContext
        control := Function.update s.control s.sched.nextId .ended }
  | .spawn carrier root =>
    s.act carrier fun _ =>
      { s with
        sched := s.sched.registerContext [root]
        control := Function.update s.control s.sched.nextId .landed }
  | .parkOnClassInit carrier owner initializing =>
    s.act carrier fun id =>
      if initializing then
        { s with
          sched := s.sched.parkFor carrier id .parkedClassInit
          classWaiters := Function.update s.classWaiters owner (s.classWaiters owner ++ [id]) }.parkAtOnce
            carrier id (.classInit owner)
      else s
  | .enterNative carrier stack =>
    s.act carrier fun id => { s with sched := s.sched.parkFramesForBlockingNative id stack }
  | .nativeParkForIo carrier fd events deadline suspensionAllowed =>
    s.act carrier fun id => s.nativeParkForIo carrier id fd events deadline suspensionAllowed
  | .leaveNative carrier stolenDepth =>
    s.act carrier fun id => { s with sched := (s.sched.restoreStolenFrames id stolenDepth).2 }
  | .preempt carrier => s.act carrier fun id => s.goTo carrier id .unwinding
  | .finish carrier result =>
    s.act carrier fun id =>
      { s with
        sched := s.sched.markFinished carrier id result
        control := Function.update s.control id .ended
        window := Function.update s.window carrier none
        deciding := s.deciding ++ [(id, false)] }
  | .fail carrier exc =>
    s.act carrier fun id =>
      { s with
        sched := s.sched.markFailed carrier id exc
        control := Function.update s.control id .ended
        window := Function.update s.window carrier none
        deciding := s.deciding ++ [(id, true)] }
  | .park carrier frames =>
    s.at carrier fun id stage =>
      match stage with
      | .unwinding =>
        some { s with
          sched := s.sched.parkContextFrames carrier id frames
          control := Function.update s.control id .landed
          window := Function.update s.window carrier none }
      | _ => none
  | .parkSlice carrier stack keepBelow =>
    s.at carrier fun id stage =>
      match stage with
      | .unwinding =>
        some { s with
          sched := (s.sched.parkContextFramesSlice carrier id stack keepBelow true).1
          control := Function.update s.control id .landed
          window := Function.update s.window carrier none }
      | _ => none
  | .pop carrier =>
    if (s.window carrier).isSome then none
    else
      (s.sched.popNextRunnable carrier).map fun (id, sched) =>
        { s with
          sched
          control := Function.update s.control id (.on carrier .popped)
          window := Function.update s.window carrier (some id) }
  | .resume carrier =>
    s.at carrier fun id stage =>
      match stage with
      | .popped =>
        some (({ s with sched := (s.sched.spliceResumedFrames id).2 }.parkedCallReturns id).goTo carrier id
          .running)
      | _ => none
  | .resumePinned carrier =>
    s.at carrier fun id stage =>
      match stage with
      | .popped =>
        some (({ s with sched := (s.sched.resumePinnedWindow id).2 }.parkedCallReturns id).goTo carrier id
          .running)
      | _ => none
  | .setPumpToken carrier token =>
    some { s with sched := { s.sched with pumpToken := Function.update s.sched.pumpToken carrier token } }
  | .pinContext id token => some { s with sched := s.sched.pinContext id token }
  | .setFocus focus => some { s with sched := { s.sched with debugFocusContext := focus } }
  | .setFreeze depth => some { s with sched := { s.sched with debugFreezeDepth := depth } }
  | .wake index =>
    match s.flying[index]? with
    | none => none
    | some wake => some { s.deliver wake with flying := s.flying.eraseIdx index }
  | .wakeClassInit owner =>
    some ({ s with classWaiters := Function.update s.classWaiters owner [] }.serve (.classInit owner)
      (s.classWaiters owner))
  | .deliverResults index =>
    match s.deciding[index]? with
    | some (targetId, false) =>
      some { s with sched := s.sched.deliverJoinResults targetId (s.sched.contexts targetId).resultCell }
    | _ => none
  | .wakeJoiners index =>
    match s.deciding[index]? with
    | none => none
    | some (targetId, failed) => some { s.wakeJoiners targetId failed with deciding := s.deciding.eraseIdx index }
  | .expireTimers now =>
    some ({ s with sched := s.sched.expireDueTimers now }.answer .timer (s.timersDue now))
  | .harvestIo ready now => some ((s.harvest (IoWaitEntry.reported ready)).harvest (IoWaitEntry.overdue now))
  | .closeFd fd =>
    let (woken, sched) := s.sched.takeIoWaitersForFd fd
    some ({ s with sched }.serve .io woken)

/-- `main` is registered and queued without frames, nothing else has happened. -/
def State.start : State where
  sched :=
    { contexts := fun _ => {}, nextId := 0, runQueue := [], timers := [], ioWaits := [], held := fun _ => none,
      pumpToken := fun _ => 0, debugFocusContext := none, debugFreezeDepth := 0 : Scheduler }.registerContext []
  mutexes := fun _ => {}
  rmutexes := fun _ => {}
  semaphores := fun _ => {}
  channels := fun _ => {}
  classWaiters := fun _ => []
  control := Function.update (fun _ => .unborn) 0 .landed
  window := fun _ => none
  post := fun _ => .free
  park := fun _ => 0
  entryPark := fun _ _ => 0
  awaited := fun _ => []
  holds := fun _ _ => 0
  flying := []
  deciding := []
  astray := false

end NLang.Vm.Dispatch
