import NLang.Vm.DispatchInvariant

/-!
# Steps of dispatch

What each kind of step does to the invariant; the calls that share a kind share the lemma.
-/

namespace NLang.Vm.Dispatch
open NLang.Library.Queues NLang.Library.ParkTables NLang.Vm.Sync

variable {s s' : State} {carrier id : Nat} {table : Table}

structure Moves (s s' : State) (id : Nat) (table : Table) : Prop where
  same : s' = { s with
    mutexes := s'.mutexes, rmutexes := s'.rmutexes, semaphores := s'.semaphores, channels := s'.channels
    classWaiters := s'.classWaiters, holds := s'.holds, awaited := s'.awaited, sched := s'.sched }
  contexts : ∀ other, other ≠ id → s'.sched.contexts other = s.sched.contexts other
  runQueue : s'.sched.runQueue = s.sched.runQueue
  nextId : s'.sched.nextId = s.sched.nextId
  rows : ∀ other, other ≠ table → ∀ status, s.RowsMatch status other → s'.RowsMatch status other

theorem Touches.moves (touches : Touches s s' table) (id : Nat) : Moves s s' id table where
  same := by
    rw [touches.same]
  contexts := fun other _ => congrFun touches.contexts other
  runQueue := touches.runQueue
  nextId := touches.nextId
  rows := touches.rows

namespace Moves
variable (moves : Moves s s' id table)
include moves

theorem control : s'.control = s.control := congrArg (·.control) moves.same

theorem window : s'.window = s.window := congrArg (·.window) moves.same

theorem post : s'.post = s.post := congrArg (·.post) moves.same

theorem park : s'.park = s.park := congrArg (·.park) moves.same

theorem entryPark : s'.entryPark = s.entryPark := congrArg (·.entryPark) moves.same

theorem flying : s'.flying = s.flying := congrArg (·.flying) moves.same

theorem astray : s'.astray = s.astray := congrArg (·.astray) moves.same

end Moves

variable {stage stage' : Stage} {now : Post}

structure Outcome (s s' : State) (carrier id : Nat) (stage : Stage) (now : Post) : Prop where
  ok : ({ s'.view id with control := .on carrier stage, post := now } : View).Ok
  held : ∀ carrier id, s'.sched.held carrier = some id → s.window carrier = some id
  joins : Joins s'

theorem Inv.moved (inv : Inv s) (stands : s.control id = .on carrier stage) (moves : Moves s s' id table)
    (outcome : Outcome s s' carrier id stage' now) (final : State) (entries : Entries final)
    (same : final = { s' with
      control := Function.update s.control id (.on carrier stage'), post := Function.update s.post id now
      park := final.park, entryPark := final.entryPark, holds := final.holds }) : Inv final where
  views := by
    refine views_of id (fun other apart => ?_) inv.views ?_
    · rw [same]
      simp only [State.view, Function.update_of_ne apart, moves.contexts other apart, moves.runQueue, moves.flying]
    · have ok := outcome.ok
      rw [same]
      simp only [State.view, Function.update_self] at ok ⊢
      exact ok
  entries
  places := by
    refine inv.places.move stands (congrArg State.control same) ((congrArg State.window same).trans moves.window)
      (fun other waiter held => outcome.held other waiter ?_) ((congrArg (·.sched.nextId) same).trans moves.nextId)
    rw [same] at held
    exact held
  joins := by
    have joins := outcome.joins
    rw [same]
    exact ⟨joins.targets, joins.noTargets, joins.deciding⟩
  answered := ((congrArg State.astray same).trans moves.astray).trans inv.answered

theorem Inv.enter (inv : Inv s) (runs : s.control id = .on carrier .running) (moves : Moves s s' id table)
    (outcome : Outcome s s' carrier id stage' now) (now_here : now = .registered table ∨ now = .committed table)
    (own : s'.RowsMatch (Function.update (s.status table) id (now.status table)) table) :
    Inv ((s'.enter id table now).goTo carrier id stage') := by
  have executing := inv.executing runs
  refine inv.moved runs moves outcome _ ?_ ?_
  · refine @Entries.enter s _ id table now inv.entries executing.free executing.idle.unanswered now_here
      moves.rows own ?_ ?_ ?_ moves.flying
    · change Function.update s'.post id now = _
      rw [moves.post]
    · change Function.update s'.park id (s'.park id + 1) = _
      rw [moves.park]
    · change Function.update s'.entryPark table (Function.update (s'.entryPark table) id (s'.park id + 1)) = _
      rw [moves.entryPark, moves.park]
  · rw [← moves.control, ← moves.post]
    rfl

theorem Inv.register (inv : Inv s) (runs : s.control id = .on carrier .running) (rechecks : table.rechecks = true)
    (touches : Touches s s' table)
    (own : s'.RowsMatch (Function.update (s.status table) id .registered) table) :
    Inv (s'.register carrier id table) := by
  have executing := inv.executing runs
  refine inv.enter runs (touches.moves id) ⟨?_, touches.held ▸ inv.places.held, touches.joins inv.joins⟩ (.inl rfl) ?_
  · rw [touches.view]
    exact ⟨⟨⟨executing.idle.unqueued, executing.idle.unanswered⟩, rfl, rechecks, executing.unparked⟩, executing.state⟩
  · simpa [Post.status] using own

theorem Moves.ofSched {sched : Scheduler}
    (contexts : ∀ other, other ≠ id → sched.contexts other = s.sched.contexts other)
    (runQueue : sched.runQueue = s.sched.runQueue) (nextId : sched.nextId = s.sched.nextId)
    (timers : sched.timers = s.sched.timers) (ioWaits : sched.ioWaits = s.sched.ioWaits) (table : Table) :
    Moves s { s with sched } id table where
  same := rfl
  contexts
  runQueue
  nextId
  rows := by
    intro other _ status rows
    cases other with
    | timer => simpa only [State.RowsMatch, timers] using rows
    | io => simpa only [State.RowsMatch, ioWaits] using rows
    | _ => exact rows

def Away (state : ContextState) : Prop := state ≠ .parkedJoin ∧ state ≠ .finished ∧ state ≠ .failed

theorem Away.undecided {sched : Scheduler} (away : Away (sched.contexts id).state) : sched.decided id = false := by
  simp [Scheduler.decided, away.2.1, away.2.2]

theorem Away.of_awake {state : ContextState} (awake : state = .runnable ∨ state = .blockedNative) : Away state := by
  obtain rfl | rfl := awake <;> exact ⟨ContextState.noConfusion, ContextState.noConfusion, ContextState.noConfusion⟩

theorem Away.of_rechecks (rechecks : table.rechecks = true) : Away table.reason := by
  cases table <;> first
    | exact ⟨ContextState.noConfusion, ContextState.noConfusion, ContextState.noConfusion⟩
    | cases rechecks

theorem Joins.move (joins : Joins s) (deciding : s'.deciding = s.deciding) (awaited : s'.awaited = s.awaited)
    (nextId : s'.sched.nextId = s.sched.nextId)
    (others : ∀ other, other ≠ id → s'.sched.contexts other = s.sched.contexts other)
    (before : Away (s.sched.contexts id).state) (now : (s'.sched.contexts id).state ≠ .parkedJoin)
    (targets : (s'.sched.contexts id).selectAnyTargets = (s.sched.contexts id).selectAnyTargets) : Joins s' := by
  refine joins.keep (fun _ member => deciding ▸ member) awaited nextId.ge fun other => ?_
  by_cases same : other = id
  · subst same
    exact .inr ⟨now, targets.trans (joins.noTargets other fun ⟨joined, _⟩ => before.1 joined), before.undecided⟩
  · rw [others other same]
    exact .inl ⟨rfl, rfl, rfl⟩

theorem Inv.stays (inv : Inv s) (stands : s.control id = .on carrier stage) {sched : Scheduler}
    (contexts : ∀ other, other ≠ id → sched.contexts other = s.sched.contexts other)
    (runQueue : sched.runQueue = s.sched.runQueue) (nextId : sched.nextId = s.sched.nextId)
    (timers : sched.timers = s.sched.timers) (ioWaits : sched.ioWaits = s.sched.ioWaits)
    (outcome : Outcome s { s with sched } carrier id stage' (s.post id)) :
    Inv ({ s with sched }.goTo carrier id stage') := by
  refine inv.moved stands (Moves.ofSched contexts runQueue nextId timers ioWaits .join) outcome _ ?_ ?_
  · exact inv.entries.keep rfl rfl rfl rfl rfl timers ioWaits rfl rfl rfl fun _ member => member
  · rw [Function.update_eq_self]
    rfl

theorem parkedCallReturns_eq (s : State) (id : Nat) :
    s.parkedCallReturns id =
      { s with post := Function.update s.post id .free, holds := (s.parkedCallReturns id).holds } := by
  unfold State.parkedCallReturns
  split <;> rfl

theorem Inv.returns (inv : Inv s) (stands : s.control id = .on carrier stage) {sched : Scheduler}
    (contexts : ∀ other, other ≠ id → sched.contexts other = s.sched.contexts other)
    (runQueue : sched.runQueue = s.sched.runQueue) (nextId : sched.nextId = s.sched.nextId)
    (timers : sched.timers = s.sched.timers) (ioWaits : sched.ioWaits = s.sched.ioWaits)
    (idle : (s.view id).Idle) (returned : (s.view id).Returned) (before : Away (s.sched.contexts id).state)
    (state : (sched.contexts id).state = .runnable) (unparked : (sched.contexts id).framesParked = false)
    (targets : (sched.contexts id).selectAnyTargets = (s.sched.contexts id).selectAnyTargets)
    (held : ∀ carrier id, sched.held carrier = some id → s.window carrier = some id) :
    Inv (({ s with sched }.parkedCallReturns id).goTo carrier id .running) := by
  have absent : ∀ table, (s.post id).status table = .absent := by
    intro table
    obtain free | ⟨own, granted⟩ := returned
    · rw [show s.post id = .free from free]
      rfl
    · rw [show s.post id = .granted own from granted]
      rfl
  have away : (sched.contexts id).state ≠ .parkedJoin := by simp [state]
  rw [parkedCallReturns_eq]
  refine inv.moved stands (Moves.ofSched contexts runQueue nextId timers ioWaits .join)
    ⟨?_, held, inv.joins.move rfl rfl nextId contexts before away targets⟩ _ ?_ rfl
  · refine ⟨⟨?_, idle.unanswered⟩, rfl, .inl state, unparked⟩
    rw [show (State.view { s with sched } id).queued = _ from congrArg (List.count id) runQueue]
    exact idle.unqueued
  · refine @Entries.change s _ id .join .free inv.entries idle.unanswered
      (Moves.ofSched contexts runQueue nextId timers ioWaits .join).rows trivial (fun other _ => ?_) ?_ rfl rfl rfl rfl
    · exact (absent other).symm
    · intro other waits
      obtain waits | waits := waits <;> cases waits

theorem Inv.ok_at (inv : Inv s) (stands : s.control id = .on carrier stage) :
    ({ s.view id with control := .on carrier stage } : View).Ok := by
  rw [← stands]
  exact inv.views id

theorem parkFor_held {sched : Scheduler} {reason : ContextState} {other waiter : Nat}
    (held : (sched.parkFor carrier id reason).held other = some waiter) : sched.held other = some waiter :=
  (Scheduler.held_of_released held).1

theorem Inv.migrate (inv : Inv s) (stands : s.control id = .on carrier (.registered table)) :
    Inv ({ s with sched := s.sched.parkFor carrier id table.reason }.goTo carrier id (.migrated table)) := by
  obtain ⟨registered, awake⟩ := inv.ok_at stands
  have contexts : ∀ other, other ≠ id →
      (s.sched.parkFor carrier id table.reason).contexts other = s.sched.contexts other := fun other apart => by
    simp [Scheduler.parkFor, Scheduler.setState, Scheduler.modify_other _ _ _ apart]
  have own : (s.sched.parkFor carrier id table.reason).contexts id =
      { s.sched.contexts id with state := table.reason } := by
    simp [Scheduler.parkFor, Scheduler.setState]
  have runQueue : (s.sched.parkFor carrier id table.reason).runQueue = s.sched.runQueue := by
    simp [Scheduler.parkFor, Scheduler.setState, Scheduler.modify]
  have nextId : (s.sched.parkFor carrier id table.reason).nextId = s.sched.nextId := by
    simp [Scheduler.parkFor, Scheduler.setState, Scheduler.modify]
  refine inv.stays stands contexts runQueue nextId (by simp [Scheduler.parkFor, Scheduler.setState, Scheduler.modify])
    (by simp [Scheduler.parkFor, Scheduler.setState, Scheduler.modify]) ⟨?_, ?_, ?_⟩
  · simp only [State.view, own, runQueue]
    exact ⟨⟨⟨registered.idle.unqueued, registered.idle.unanswered⟩, registered.post, registered.rechecks,
      registered.unparked⟩, rfl⟩
  · exact fun other waiter held => inv.places.held other waiter (parkFor_held held)
  · refine inv.joins.move rfl rfl nextId contexts (.of_awake awake) ?_ (by rw [own])
    rw [own]
    exact (Away.of_rechecks registered.rechecks).1

theorem Inv.abort (inv : Inv s) (window : s.window carrier = some id)
    (stands : s.control id = .on carrier .aborting) :
    Inv (({ s with sched := s.sched.abortPark carrier id }.parkedCallReturns id).goTo carrier id .running) := by
  obtain ⟨table, aborting⟩ := inv.ok_at stands
  refine inv.returns stands (fun other apart => Function.update_of_ne apart _ _) rfl rfl rfl rfl
    ⟨aborting.idle.unqueued, aborting.idle.unanswered⟩ (.inr ⟨table, aborting.post⟩) ?_ ?_ ?_ ?_ ?_
  · rw [show (s.sched.contexts id).state = table.reason from aborting.state]
    exact Away.of_rechecks aborting.rechecks
  · simp [Scheduler.abortPark, Scheduler.setState, Scheduler.modify]
  · have unparked : (s.sched.contexts id).framesParked = false := aborting.unparked
    simpa [Scheduler.abortPark, Scheduler.setState, Scheduler.modify] using unparked
  · simp [Scheduler.abortPark, Scheduler.setState, Scheduler.modify]
  · intro other waiter held
    have holds : Function.update s.sched.held carrier (some id) other = some waiter := held
    by_cases same : other = carrier
    · rw [same, Function.update_self] at holds
      rw [same, window, holds]
    · rw [Function.update_of_ne same] at holds
      exact inv.places.held other waiter holds

theorem Inv.resume (inv : Inv s) (stands : s.control id = .on carrier .popped) {sched : Scheduler}
    (resumed : sched = (s.sched.spliceResumedFrames id).2 ∨ sched = (s.sched.resumePinnedWindow id).2) :
    Inv (({ s with sched }.parkedCallReturns id).goTo carrier id .running) := by
  have popped : View.Popped { s.view id with control := .on carrier .popped } := inv.ok_at stands
  have state : (s.sched.contexts id).state = .runnable := popped.state
  -- without frames `SpliceResumedFrames` returns before it clears the flag, which is then clear already
  have taken : sched = s.sched ∧ (s.sched.contexts id).framesParked = false ∨
      sched = s.sched.modify id fun ctx => { ctx with frames := [], framesParked := false } := by
    obtain rfl | rfl := resumed
    · unfold Scheduler.spliceResumedFrames
      cases frames : (s.sched.contexts id).frames with
      | nil =>
        refine .inl ⟨rfl, ?_⟩
        by_contra parked
        exact popped.frames ((Bool.not_eq_false _).mp parked) frames
      | cons frame rest => exact .inr rfl
    · exact .inr rfl
  have idle : (s.view id).Idle := ⟨popped.idle.unqueued, popped.idle.unanswered⟩
  obtain ⟨rfl, unparked⟩ | rfl := taken
  · exact inv.returns stands (fun _ _ => rfl) rfl rfl rfl rfl idle popped.returned (.of_awake (.inl state)) state
      unparked rfl inv.places.held
  · exact inv.returns stands (fun other apart => Scheduler.modify_other _ _ _ apart) rfl rfl rfl rfl idle
      popped.returned (.of_awake (.inl state)) (by simp [state]) (by simp) (by simp) inv.places.held

end NLang.Vm.Dispatch
