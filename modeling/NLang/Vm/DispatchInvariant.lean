import NLang.Library.ParkTables
import NLang.Vm.Dispatch

/-!
# The invariant of dispatch

Where a context stands fixes its state, its place in the queue, its entries in the tables and the wakes in flight
for it.
-/

namespace NLang.Vm.Dispatch
open NLang.Library.Queues NLang.Library.ParkTables NLang.Vm.Sync

def Table.rechecks : Table → Bool
  | .mutex _ => true
  | .rmutex _ => true
  | .semaphore _ => true
  | .chanRecv _ => true
  | .chanSend _ => true
  | _ => false

structure View where
  control : Control
  post : Post
  state : ContextState
  framesParked : Bool
  frames : List Frame
  lastCarrier : Option Nat
  queued : Nat
  inFlight : Nat

def State.view (s : State) (id : Nat) : View where
  control := s.control id
  post := s.post id
  state := (s.sched.contexts id).state
  framesParked := (s.sched.contexts id).framesParked
  frames := (s.sched.contexts id).frames
  lastCarrier := (s.sched.contexts id).lastCarrier
  queued := s.sched.runQueue.count id
  inFlight := s.flying.countP (·.id = id)

namespace View

structure Idle (v : View) : Prop where
  unqueued : v.queued = 0
  unanswered : v.inFlight = 0

structure Asleep (v : View) (table : Table) : Prop where
  state : v.state = table.reason
  entry : v.post = .committed table ∧ v.inFlight = 0 ∨ v.post = .granted table ∧ v.inFlight = 1

def Returned (v : View) : Prop := v.post = .free ∨ ∃ table, v.post = .granted table

def HasFrames (v : View) : Prop := v.framesParked = true → v.frames ≠ []

structure Executing (v : View) : Prop where
  idle : v.Idle
  free : v.post = .free
  state : v.state = .runnable ∨ v.state = .blockedNative
  unparked : v.framesParked = false

structure Registered (v : View) (table : Table) : Prop where
  idle : v.Idle
  post : v.post = .registered table
  rechecks : table.rechecks = true
  unparked : v.framesParked = false

structure Aborting (v : View) (table : Table) : Prop where
  idle : v.Idle
  post : v.post = .granted table
  rechecks : table.rechecks = true
  state : v.state = table.reason
  unparked : v.framesParked = false

structure Popped (v : View) : Prop where
  idle : v.Idle
  returned : v.Returned
  state : v.state = .runnable
  frames : v.HasFrames

structure Queued (v : View) : Prop where
  once : v.queued = 1
  unanswered : v.inFlight = 0
  returned : v.Returned
  state : v.state = .runnable
  frames : v.HasFrames
  landed : v.frames ≠ [] ∨ v.lastCarrier = none

structure Stuck (v : View) : Prop where
  idle : v.Idle
  free : v.post = .free
  state : v.state = .blockedNative
  frames : v.HasFrames

structure Parked (v : View) (table : Table) : Prop where
  unqueued : v.queued = 0
  asleep : v.Asleep table
  parked : v.framesParked = true
  frames : v.HasFrames

structure Unwinding (v : View) : Prop where
  unqueued : v.queued = 0
  unparked : v.framesParked = false
  stands : (v.inFlight = 0 ∧ v.state = .runnable ∧ v.Returned) ∨
    (v.inFlight = 0 ∧ v.state = .blockedNative ∧ v.post = .free) ∨ ∃ table, v.Asleep table

structure Over (v : View) : Prop where
  idle : v.Idle
  free : v.post = .free
  state : v.state = .finished ∨ v.state = .failed ∨ v.state = .parkedPromise

structure Unborn (v : View) : Prop where
  idle : v.Idle
  free : v.post = .free
  state : v.state = .runnable

def Ok (v : View) : Prop :=
  match v.control with
  | .unborn => v.Unborn
  | .landed => v.Queued ∨ v.Stuck ∨ ∃ table, v.Parked table
  | .on _ .popped => v.Popped
  | .on _ .running => v.Executing
  | .on _ (.registered table) =>
    v.Registered table ∧ (v.state = .runnable ∨ v.state = .blockedNative)
  | .on _ (.migrated table) => v.Registered table ∧ v.state = table.reason
  | .on _ .aborting => ∃ table, v.Aborting table
  | .on _ .unwinding => v.Unwinding
  | .ended => v.Over

end View

theorem View.Ok.taken {v : View} {table : Table} (ok : v.Ok) (post : v.post = .committed table) :
    v.inFlight = 0 ∧ ({ v with post := .granted table, inFlight := 1 } : View).Ok := by
  obtain ⟨control, _, state, framesParked, frames, lastCarrier, queued, inFlight⟩ := v
  cases post
  cases control with
  | unborn => cases ok.free
  | ended => cases ok.free
  | landed =>
    obtain ok | ok | ⟨own, ok⟩ := ok
    · obtain free | ⟨_, granted⟩ := ok.returned
      · cases free
      · cases granted
    · cases ok.free
    · obtain ⟨here, unanswered⟩ | ⟨elsewhere, -⟩ := ok.asleep.entry
      · cases here
        exact ⟨unanswered, .inr (.inr ⟨table, ok.unqueued, ⟨ok.asleep.state, .inr ⟨rfl, rfl⟩⟩, ok.parked, ok.frames⟩)⟩
      · cases elsewhere
  | on carrier stage =>
    cases stage with
    | popped =>
      obtain free | ⟨_, granted⟩ := ok.returned
      · cases free
      · cases granted
    | running => cases ok.free
    | registered own => cases ok.1.post
    | migrated own => cases ok.1.post
    | aborting =>
      obtain ⟨own, ok⟩ := ok
      cases ok.post
    | unwinding =>
      obtain ⟨-, -, free | ⟨_, granted⟩⟩ | ⟨-, -, free⟩ | ⟨own, asleep⟩ := ok.stands
      · cases free
      · cases granted
      · cases free
      · obtain ⟨here, unanswered⟩ | ⟨elsewhere, -⟩ := asleep.entry
        · cases here
          exact ⟨unanswered, ok.unqueued, ok.unparked, .inr (.inr ⟨table, asleep.state, .inr ⟨rfl, rfl⟩⟩)⟩
        · cases elsewhere

theorem View.Ok.woken {v : View} {table : Table} (ok : v.Ok) (post : v.post = .granted table)
    (inFlight : v.inFlight ≠ 0) :
    v.state = table.reason ∧ v.inFlight = 1 ∧
      ({ v with state := .runnable, inFlight := 0, queued := v.queued + if v.framesParked then 1 else 0 } : View).Ok := by
  obtain ⟨control, _, state, framesParked, frames, lastCarrier, queued, inFlight⟩ := v
  cases post
  cases control with
  | unborn => exact absurd ok.idle.unanswered inFlight
  | ended => exact absurd ok.idle.unanswered inFlight
  | landed =>
    obtain ok | ok | ⟨own, ok⟩ := ok
    · exact absurd ok.unanswered inFlight
    · exact absurd ok.idle.unanswered inFlight
    · obtain ⟨elsewhere, -⟩ | ⟨here, once⟩ := ok.asleep.entry
      · cases elsewhere
      · cases here
        have parked : framesParked = true := ok.parked
        have unqueued : queued = 0 := ok.unqueued
        refine ⟨ok.asleep.state, once, .inl ⟨?_, rfl, .inr ⟨table, rfl⟩, rfl, ok.frames, .inl (ok.frames parked)⟩⟩
        change queued + (if framesParked = true then 1 else 0) = 1
        rw [if_pos parked, unqueued]
  | on carrier stage =>
    cases stage with
    | popped => exact absurd ok.idle.unanswered inFlight
    | running => exact absurd ok.idle.unanswered inFlight
    | registered own => exact absurd ok.1.idle.unanswered inFlight
    | migrated own => exact absurd ok.1.idle.unanswered inFlight
    | aborting =>
      obtain ⟨own, ok⟩ := ok
      exact absurd ok.idle.unanswered inFlight
    | unwinding =>
      obtain ⟨unanswered, -⟩ | ⟨unanswered, -⟩ | ⟨own, asleep⟩ := ok.stands
      · exact absurd unanswered inFlight
      · exact absurd unanswered inFlight
      · obtain ⟨elsewhere, -⟩ | ⟨here, once⟩ := asleep.entry
        · cases elsewhere
        · cases here
          have unparked : framesParked = false := ok.unparked
          have unqueued : queued = 0 := ok.unqueued
          refine ⟨asleep.state, once, ?_, unparked, .inl ⟨rfl, rfl, .inr ⟨table, rfl⟩⟩⟩
          change queued + (if framesParked = true then 1 else 0) = 0
          rw [unparked, unqueued]
          rfl

theorem View.Ok.answered {v : View} {table : Table} (ok : v.Ok) (post : v.post = .committed table) :
    v.state = table.reason ∧
      ({ v with
        post := .granted table, state := .runnable
        queued := v.queued + if v.framesParked then 1 else 0 } : View).Ok := by
  obtain ⟨unanswered, taken⟩ := ok.taken post
  obtain ⟨state, -, woken⟩ := taken.woken rfl Nat.one_ne_zero
  obtain ⟨_, _, _, _, _, _, _, inFlight⟩ := v
  cases unanswered
  exact ⟨state, woken⟩

def Post.status (table : Table) : Post → Status
  | .registered own => if own = table then .registered else .absent
  | .committed own => if own = table then .parked else .absent
  | _ => .absent

theorem Post.status_parked {table : Table} {post : Post} (parked : post.status table = .parked) :
    post = .committed table := by
  cases post with
  | committed own =>
    by_cases same : own = table
    · rw [same]
    · simp [Post.status, same] at parked
  | registered own =>
    by_cases same : own = table
    · simp [Post.status, same] at parked
    · simp [Post.status, same] at parked
  | free => cases parked
  | granted own => cases parked

def State.status (s : State) (table : Table) (id : Nat) : Status := (s.post id).status table

abbrev SyncTable (waiters : List SyncWaiter) (status : Nat → Status) : Prop :=
  Matches SyncWaiter.contextId SyncWaiter.phase .committed waiters status

def State.RowsMatch (s : State) (status : Nat → Status) : Table → Prop
  | .mutex handle => SyncTable (s.mutexes handle).waiters status
  | .rmutex handle => SyncTable (s.rmutexes handle).waiters status
  | .semaphore handle => SyncTable (s.semaphores handle).waiters status
  | .chanRecv handle =>
    Matches ChannelWaiter.contextId ChannelWaiter.phase .committed (s.channels handle).waiters status
  | .chanSend handle =>
    Matches PendingSend.senderId PendingSend.phase .committed (s.channels handle).pending status
  | .classInit owner => Matches id (fun _ => true) true (s.classWaiters owner) status
  | .timer => Matches TimerEntry.contextId (fun _ => true) true s.sched.timers status
  | .io => Matches IoWaitEntry.contextId (fun _ => true) true s.sched.ioWaits status
  | .join => True

structure Entries (s : State) : Prop where
  tables : ∀ table, s.RowsMatch (s.status table) table
  parks : ∀ id table, s.post id = .registered table ∨ s.post id = .committed table →
    s.entryPark table id = s.park id
  flying : ∀ wake ∈ s.flying, s.post wake.id = .granted wake.table ∧ wake.park = s.park wake.id ∧ wake.table ≠ .join

structure Places (s : State) : Prop where
  windows : ∀ carrier id, s.window carrier = some id ↔ ∃ stage, s.control id = .on carrier stage
  held : ∀ carrier id, s.sched.held carrier = some id → s.window carrier = some id
  registry : ∀ id, s.control id = .unborn ↔ s.sched.nextId ≤ id

structure Joins (s : State) : Prop where
  targets : ∀ id target, (s.sched.contexts id).state = .parkedJoin →
    (s.sched.contexts id).parkHandle = some target ∨
      target ∈ (s.sched.contexts id).selectAnyTargets.map (·.1) → target ∈ s.awaited id
  noTargets : ∀ id, ¬ ((s.sched.contexts id).state = .parkedJoin ∧ (s.sched.contexts id).parkHandle = none) →
    (s.sched.contexts id).selectAnyTargets = []
  deciding : ∀ entry ∈ s.deciding, s.sched.decided entry.1 = true

structure Inv (s : State) : Prop where
  views : ∀ id, (s.view id).Ok
  entries : Entries s
  places : Places s
  joins : Joins s
  answered : s.astray = false

variable {s s' : State} {carrier id : Nat} {table : Table}

theorem running_eq (runs : s.running carrier = some id) :
    s.window carrier = some id ∧ s.control id = .on carrier .running := by
  obtain ⟨window, control⟩ := Option.filter_eq_some_iff.mp runs
  exact ⟨window, by simpa using control⟩

theorem act_eq {step : Nat → State} (taken : s.act carrier step = some s') :
    ∃ id, s.window carrier = some id ∧ s.control id = .on carrier .running ∧ s' = step id := by
  obtain ⟨id, runs, equal⟩ := Option.map_eq_some_iff.mp taken
  exact ⟨id, (running_eq runs).1, (running_eq runs).2, equal.symm⟩

theorem at_eq {step : Nat → Stage → Option State} (places : Places s) (taken : s.at carrier step = some s') :
    ∃ id stage, s.window carrier = some id ∧ s.control id = .on carrier stage ∧ step id stage = some s' := by
  unfold State.at at taken
  cases window : s.window carrier with
  | none =>
    rw [window] at taken
    cases taken
  | some id =>
    obtain ⟨stage, control⟩ := (places.windows carrier id).mp window
    simp only [window, control] at taken
    exact ⟨id, stage, rfl, control, taken⟩

theorem Entries.keep (entries : Entries s) (mutexes : s'.mutexes = s.mutexes) (rmutexes : s'.rmutexes = s.rmutexes)
    (semaphores : s'.semaphores = s.semaphores) (channels : s'.channels = s.channels)
    (classWaiters : s'.classWaiters = s.classWaiters) (timers : s'.sched.timers = s.sched.timers)
    (ioWaits : s'.sched.ioWaits = s.sched.ioWaits) (post : s'.post = s.post) (park : s'.park = s.park)
    (entryPark : s'.entryPark = s.entryPark) (flying : ∀ wake ∈ s'.flying, wake ∈ s.flying) : Entries s' where
  tables := by
    intro table
    have holds := entries.tables table
    have status : s'.status table = s.status table := by
      unfold State.status
      rw [post]
    cases table <;> simp only [State.RowsMatch, mutexes, rmutexes, semaphores, channels, classWaiters, timers,
      ioWaits, status] at holds ⊢ <;> exact holds
  parks := by
    rw [post, park, entryPark]
    exact entries.parks
  flying := by
    rw [post, park]
    exact fun wake member => entries.flying wake (flying wake member)

theorem Places.move {stage stage' : Stage} (places : Places s) (stands : s.control id = .on carrier stage)
    (control : s'.control = Function.update s.control id (.on carrier stage')) (window : s'.window = s.window)
    (held : ∀ carrier id, s'.sched.held carrier = some id → s.window carrier = some id)
    (nextId : s'.sched.nextId = s.sched.nextId) : Places s' where
  windows := by
    intro other waiter
    rw [window, control, places.windows other waiter]
    by_cases same : waiter = id
    · subst same
      rw [Function.update_self, stands]
      exact ⟨fun ⟨_, equal⟩ => by cases equal; exact ⟨_, rfl⟩, fun ⟨_, equal⟩ => by cases equal; exact ⟨_, rfl⟩⟩
    · rw [Function.update_of_ne same]
  held := by
    rw [window]
    exact held
  registry := by
    intro other
    rw [control, nextId, ← places.registry other]
    by_cases same : other = id
    · subst same
      rw [Function.update_self, stands]
      exact ⟨fun equal => (Control.noConfusion equal), fun equal => (Control.noConfusion equal)⟩
    · rw [Function.update_of_ne same]

theorem Places.keep (places : Places s) (control : s'.control = s.control) (window : s'.window = s.window)
    (held : ∀ carrier id, s'.sched.held carrier = some id → s.window carrier = some id)
    (nextId : s'.sched.nextId = s.sched.nextId) : Places s' where
  windows := by
    rw [window, control]
    exact places.windows
  held := by
    rw [window]
    exact held
  registry := by
    rw [control, nextId]
    exact places.registry

theorem Joins.keep (joins : Joins s) (deciding : ∀ entry ∈ s'.deciding, entry ∈ s.deciding)
    (awaited : s'.awaited = s.awaited) (nextId : s.sched.nextId ≤ s'.sched.nextId)
    (contexts : ∀ id, ((s'.sched.contexts id).state = (s.sched.contexts id).state ∧
        (s'.sched.contexts id).parkHandle = (s.sched.contexts id).parkHandle ∧
        (s'.sched.contexts id).selectAnyTargets = (s.sched.contexts id).selectAnyTargets) ∨
      ((s'.sched.contexts id).state ≠ .parkedJoin ∧ (s'.sched.contexts id).selectAnyTargets = [] ∧
        s.sched.decided id = false)) : Joins s' where
  targets := by
    intro id target joined waits
    rw [awaited]
    obtain ⟨state, handle, targets⟩ | ⟨elsewhere, -, -⟩ := contexts id
    · rw [state] at joined
      rw [handle, targets] at waits
      exact joins.targets id target joined waits
    · exact absurd joined elsewhere
  noTargets := by
    intro id elsewhere
    obtain ⟨state, handle, targets⟩ | ⟨-, none, -⟩ := contexts id
    · rw [state, handle] at elsewhere
      rw [targets]
      exact joins.noTargets id elsewhere
    · exact none
  deciding := by
    intro entry member
    have decided := joins.deciding entry (deciding entry member)
    obtain ⟨state, -, -⟩ | ⟨-, -, undecided⟩ := contexts entry.1
    · simp only [Scheduler.decided, state, decide_eq_true_eq] at decided ⊢
      exact ⟨Nat.lt_of_lt_of_le decided.1 nextId, decided.2⟩
    · rw [undecided] at decided
      cases decided

theorem views_of {s s' : State} (id : Nat) (others : ∀ other, other ≠ id → s'.view other = s.view other)
    (views : ∀ id, (s.view id).Ok) (own : (s'.view id).Ok) (other : Nat) : (s'.view other).Ok := by
  by_cases same : other = id
  · rw [same]
    exact own
  · rw [others other same]
    exact views other

structure Touches (s s' : State) (table : Table) : Prop where
  same : s' = { s with
    mutexes := s'.mutexes, rmutexes := s'.rmutexes, semaphores := s'.semaphores, channels := s'.channels
    classWaiters := s'.classWaiters, holds := s'.holds
    sched := { s.sched with timers := s'.sched.timers, ioWaits := s'.sched.ioWaits } }
  rows : ∀ other, other ≠ table → ∀ status, s.RowsMatch status other → s'.RowsMatch status other

namespace Touches
variable (touches : Touches s s' table)
include touches

theorem contexts : s'.sched.contexts = s.sched.contexts := congrArg (·.sched.contexts) touches.same

theorem runQueue : s'.sched.runQueue = s.sched.runQueue := congrArg (·.sched.runQueue) touches.same

theorem held : s'.sched.held = s.sched.held := congrArg (·.sched.held) touches.same

theorem nextId : s'.sched.nextId = s.sched.nextId := congrArg (·.sched.nextId) touches.same

theorem control : s'.control = s.control := congrArg (·.control) touches.same

theorem window : s'.window = s.window := congrArg (·.window) touches.same

theorem post : s'.post = s.post := congrArg (·.post) touches.same

theorem park : s'.park = s.park := congrArg (·.park) touches.same

theorem entryPark : s'.entryPark = s.entryPark := congrArg (·.entryPark) touches.same

theorem awaited : s'.awaited = s.awaited := congrArg (·.awaited) touches.same

theorem flying : s'.flying = s.flying := congrArg (·.flying) touches.same

theorem deciding : s'.deciding = s.deciding := congrArg (·.deciding) touches.same

theorem astray : s'.astray = s.astray := congrArg (·.astray) touches.same

theorem view (id : Nat) : s'.view id = s.view id := by
  simp only [State.view, touches.control, touches.post, touches.contexts, touches.runQueue, touches.flying]

theorem status : s'.status = s.status := by
  unfold State.status
  rw [touches.post]

end Touches

theorem Touches.setMutex (s : State) (handle : Nat) (slot : MutexSlot) :
    Touches s (s.setMutex handle slot) (.mutex handle) where
  same := rfl
  rows := by
    intro other apart status rows
    cases other with
    | mutex own =>
      have elsewhere : own ≠ handle := fun same => apart (congrArg Table.mutex same)
      simpa [State.RowsMatch, State.setMutex, Function.update_of_ne elsewhere] using rows
    | _ => exact rows

theorem Touches.setRMutex (s : State) (handle : Nat) (slot : RMutexSlot) :
    Touches s (s.setRMutex handle slot) (.rmutex handle) where
  same := rfl
  rows := by
    intro other apart status rows
    cases other with
    | rmutex own =>
      have elsewhere : own ≠ handle := fun same => apart (congrArg Table.rmutex same)
      simpa [State.RowsMatch, State.setRMutex, Function.update_of_ne elsewhere] using rows
    | _ => exact rows

theorem Touches.setSemaphore (s : State) (handle : Nat) (slot : SemaphoreSlot) :
    Touches s (s.setSemaphore handle slot) (.semaphore handle) where
  same := rfl
  rows := by
    intro other apart status rows
    cases other with
    | semaphore own =>
      have elsewhere : own ≠ handle := fun same => apart (congrArg Table.semaphore same)
      simpa [State.RowsMatch, State.setSemaphore, Function.update_of_ne elsewhere] using rows
    | _ => exact rows

theorem Touches.setReceivers {s : State} {handle : Nat} (slot : ChannelSlot Nat)
    (pending : slot.pending = (s.channels handle).pending) :
    Touches s (s.setChannel handle slot) (.chanRecv handle) where
  same := rfl
  rows := by
    intro other apart status rows
    cases other with
    | chanRecv own =>
      have elsewhere : own ≠ handle := fun same => apart (congrArg Table.chanRecv same)
      simpa [State.RowsMatch, State.setChannel, Function.update_of_ne elsewhere] using rows
    | chanSend own =>
      by_cases same : own = handle
      · subst same
        simpa [State.RowsMatch, State.setChannel, pending] using rows
      · simpa [State.RowsMatch, State.setChannel, Function.update_of_ne same] using rows
    | _ => exact rows

theorem Touches.setSenders {s : State} {handle : Nat} (slot : ChannelSlot Nat)
    (waiters : slot.waiters = (s.channels handle).waiters) :
    Touches s (s.setChannel handle slot) (.chanSend handle) where
  same := rfl
  rows := by
    intro other apart status rows
    cases other with
    | chanSend own =>
      have elsewhere : own ≠ handle := fun same => apart (congrArg Table.chanSend same)
      simpa [State.RowsMatch, State.setChannel, Function.update_of_ne elsewhere] using rows
    | chanRecv own =>
      by_cases same : own = handle
      · subst same
        simpa [State.RowsMatch, State.setChannel, waiters] using rows
      · simpa [State.RowsMatch, State.setChannel, Function.update_of_ne same] using rows
    | _ => exact rows

theorem Inv.executing (inv : Inv s) (runs : s.control id = .on carrier .running) : (s.view id).Executing := by
  have ok := inv.views id
  unfold View.Ok at ok
  rw [show (s.view id).control = _ from runs] at ok
  exact ok

theorem Touches.joins (touches : Touches s s' table) (joins : Joins s) : Joins s' :=
  joins.keep (touches.deciding ▸ fun _ => id) touches.awaited touches.nextId.ge fun id => by
    rw [touches.contexts]
    exact .inl ⟨rfl, rfl, rfl⟩

theorem Inv.touch (inv : Inv s) (touches : Touches s s' table) (own : s'.RowsMatch (s.status table) table) :
    Inv s' where
  views := fun id => by
    rw [touches.view]
    exact inv.views id
  entries :=
    { tables := fun other => by
        rw [touches.status]
        by_cases same : other = table
        · rw [same]
          exact own
        · exact touches.rows other same _ (inv.entries.tables other)
      parks := by
        rw [touches.post, touches.park, touches.entryPark]
        exact inv.entries.parks
      flying := by
        rw [touches.post, touches.park, touches.flying]
        exact inv.entries.flying }
  places := inv.places.keep touches.control touches.window (touches.held ▸ inv.places.held) touches.nextId
  joins := touches.joins inv.joins
  answered := touches.astray.trans inv.answered

theorem status_update {now : Post} (post : s'.post = Function.update s.post id now) (table : Table) :
    s'.status table = Function.update (s.status table) id (now.status table) := by
  funext waiter
  unfold State.status
  rw [post]
  by_cases same : waiter = id
  · subst same
    rw [Function.update_self, Function.update_self]
  · rw [Function.update_of_ne same, Function.update_of_ne same]

theorem status_unchanged {now : Post} (post : s'.post = Function.update s.post id now) {table : Table}
    (same : now.status table = (s.post id).status table) : s'.status table = s.status table := by
  rw [status_update post, same]
  exact Function.update_eq_self id (s.status table)

theorem wake_of_other (unanswered : s.flying.countP (·.id = id) = 0) {wake : Wake} (member : wake ∈ s.flying) :
    wake.id ≠ id := by
  have none := List.countP_eq_zero.mp unanswered wake member
  simpa using none

theorem Entries.enter {now : Post} (entries : Entries s) (free : s.post id = .free)
    (unanswered : s.flying.countP (·.id = id) = 0)
    (now_here : now = .registered table ∨ now = .committed table)
    (untouched : ∀ other, other ≠ table → ∀ status, s.RowsMatch status other → s'.RowsMatch status other)
    (own : s'.RowsMatch (Function.update (s.status table) id (now.status table)) table)
    (post : s'.post = Function.update s.post id now) (park : s'.park = Function.update s.park id (s.park id + 1))
    (entryPark : s'.entryPark =
      Function.update s.entryPark table (Function.update (s.entryPark table) id (s.park id + 1)))
    (flying : s'.flying = s.flying) : Entries s' where
  tables := by
    intro other
    by_cases same : other = table
    · rw [same, status_update post]
      exact own
    · have elsewhere : now.status other = (s.post id).status other := by
        rw [free]
        obtain rfl | rfl := now_here <;> exact if_neg fun equal => same equal.symm
      rw [status_unchanged post elsewhere]
      exact untouched other same _ (entries.tables other)
  parks := by
    intro waiter other waits
    rw [post] at waits
    rw [park, entryPark]
    by_cases same : waiter = id
    · subst same
      rw [Function.update_self] at waits ⊢
      have here : other = table := by
        obtain rfl | rfl := now_here <;> obtain equal | equal := waits <;> cases equal <;> rfl
      rw [here, Function.update_self, Function.update_self]
    · rw [Function.update_of_ne same] at waits ⊢
      rw [← entries.parks waiter other waits]
      by_cases here : other = table
      · rw [here, Function.update_self, Function.update_of_ne same]
      · rw [Function.update_of_ne here]
  flying := by
    intro wake member
    rw [flying] at member
    have apart := wake_of_other unanswered member
    rw [post, park, Function.update_of_ne apart, Function.update_of_ne apart]
    exact entries.flying wake member

theorem Entries.change {now : Post} (entries : Entries s) (unanswered : s.flying.countP (·.id = id) = 0)
    (untouched : ∀ other, other ≠ table → ∀ status, s.RowsMatch status other → s'.RowsMatch status other)
    (own : s'.RowsMatch (Function.update (s.status table) id (now.status table)) table)
    (unseen : ∀ other, other ≠ table → now.status other = (s.post id).status other)
    (waits : ∀ other, now = .registered other ∨ now = .committed other →
      s.post id = .registered other ∨ s.post id = .committed other)
    (post : s'.post = Function.update s.post id now) (park : s'.park = s.park) (entryPark : s'.entryPark = s.entryPark)
    (flying : s'.flying = s.flying) : Entries s' where
  tables := by
    intro other
    by_cases same : other = table
    · rw [same, status_update post]
      exact own
    · rw [status_unchanged post (unseen other same)]
      exact untouched other same _ (entries.tables other)
  parks := by
    intro waiter other stands
    rw [post] at stands
    rw [park, entryPark]
    by_cases same : waiter = id
    · subst same
      rw [Function.update_self] at stands
      exact entries.parks waiter other (waits other stands)
    · rw [Function.update_of_ne same] at stands
      exact entries.parks waiter other stands
  flying := by
    intro wake member
    rw [flying] at member
    rw [post, park, Function.update_of_ne (wake_of_other unanswered member)]
    exact entries.flying wake member

theorem status_take {woken : List Nat} (parked : ∀ id ∈ woken, s.post id = .committed table)
    (post : s'.post = fun id => if id ∈ woken then .granted table else s.post id) {other : Table}
    (apart : other ≠ table) : s'.status other = s.status other := by
  funext waiter
  unfold State.status
  rw [post]
  by_cases member : waiter ∈ woken
  · simp only [if_pos member, Post.status, parked waiter member]
    rw [if_neg fun equal => apart equal.symm]
  · simp only [if_neg member]

theorem Entries.take {woken : List Nat} (entries : Entries s)
    (parked : ∀ id ∈ woken, s.post id = .committed table)
    (untouched : ∀ other, other ≠ table → ∀ status, s.RowsMatch status other → s'.RowsMatch status other)
    (own : s'.RowsMatch (fun id => if id ∈ woken then .absent else s.status table id) table)
    (post : s'.post = fun id => if id ∈ woken then .granted table else s.post id) (park : s'.park = s.park)
    (entryPark : s'.entryPark = s.entryPark)
    (flying : ∀ wake ∈ s'.flying, wake ∈ s.flying ∨
      (wake.id ∈ woken ∧ wake.table = table ∧ wake.park = s.entryPark table wake.id ∧ table ≠ .join)) :
    Entries s' where
  tables := by
    intro other
    by_cases same : other = table
    · have status : s'.status other = fun id => if id ∈ woken then .absent else s.status table id := by
        funext waiter
        unfold State.status
        rw [post, same]
        by_cases member : waiter ∈ woken
        · simp only [if_pos member, Post.status]
        · simp only [if_neg member]
      rw [status, same]
      exact own
    · rw [status_take parked post same]
      exact untouched other same _ (entries.tables other)
  parks := by
    intro waiter other stands
    rw [post] at stands
    rw [park, entryPark]
    by_cases member : waiter ∈ woken
    · simp only [if_pos member] at stands
      obtain equal | equal := stands <;> cases equal
    · simp only [if_neg member] at stands
      exact entries.parks waiter other stands
  flying := by
    intro wake member
    rw [post, park]
    obtain old | ⟨taken, here, parkOf, apart⟩ := flying wake member
    · obtain ⟨granted, same, apart⟩ := entries.flying wake old
      have kept : wake.id ∉ woken := fun taken => by
        rw [parked wake.id taken] at granted
        cases granted
      exact ⟨(if_neg kept).trans granted, same, apart⟩
    · refine ⟨(if_pos taken).trans (by rw [here]), ?_, here ▸ apart⟩
      rw [parkOf]
      exact entries.parks wake.id table (.inr (parked wake.id taken))

end NLang.Vm.Dispatch
