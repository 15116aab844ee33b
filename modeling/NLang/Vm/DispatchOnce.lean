import NLang.Library.Runs
import NLang.Vm.DispatchJoins

/-!
# Exactly-once dispatch

In every run in which frames land, a queued context stands in the queue once, is runnable and on no carrier, and a
parked one is woken only by a wake for its park.
-/

namespace NLang.Vm.Dispatch
open NLang.Library.Queues NLang.Library.ParkTables NLang.Library.Runs NLang.Vm.Sync

variable {s s' : State} {carrier id : Nat} {table : Table}

def State.Lands (s : State) : Action → Prop
  | .park carrier frames => ∀ id, s.window carrier = some id → (s.sched.contexts id).frames ++ frames ≠ []
  | .parkSlice carrier stack keepBelow =>
    keepBelow ≤ stack.length ∧
      ∀ id, s.window carrier = some id → (s.sched.contexts id).frames ++ stack.drop keepBelow ≠ []
  | .leaveNative carrier stolenDepth =>
    ∀ id, s.window carrier = some id → stolenDepth ≤ (s.sched.contexts id).frames.length
  | _ => True

theorem Inv.start : Inv State.start where
  views := by
    intro id
    by_cases first : id = 0
    · subst first
      exact .inl ⟨rfl, rfl, .inl rfl, rfl, fun equal => (by cases equal), .inr rfl⟩
    · have unqueued : [0].count id = 0 := List.count_eq_zero_of_not_mem (by simpa using first)
      simp only [State.view, State.start, Scheduler.registerContext, Scheduler.modify, Function.update_of_ne first]
      exact ⟨⟨unqueued, rfl⟩, rfl, rfl⟩
  entries :=
    { tables := fun table => by cases table <;> first | exact .start | trivial
      parks := fun _ _ waits => by obtain waits | waits := waits <;> cases waits
      flying := fun _ member => by cases member }
  places :=
    { windows := by
        intro carrier id
        refine ⟨fun equal => (by cases equal), ?_⟩
        rintro ⟨stage, there⟩
        by_cases first : id = 0
        · subst first
          cases there
        · simp [State.start, Function.update_of_ne first] at there
      held := fun _ _ held => by cases held
      registry := by
        intro id
        by_cases first : id = 0
        · subst first
          exact ⟨fun equal => (by cases equal), fun equal => (by cases equal)⟩
        · simp only [State.start, Function.update_of_ne first, true_iff]
          exact Nat.pos_of_ne_zero first }
  joins :=
    { targets := by
        intro id target joined
        simp [State.start, Scheduler.registerContext, Scheduler.modify] at joined
      noTargets := by
        intro id _
        simp [State.start, Scheduler.registerContext, Scheduler.modify]
      deciding := fun _ member => by cases member }
  answered := rfl

theorem Inv.step {action : Action} (inv : Inv s) (lands : s.Lands action) (taken : s.step action = some s') :
    Inv s' := by
  cases action with
  | mutexLock carrier handle suspensionAllowed =>
    obtain ⟨id, -, runs, rfl⟩ := act_eq taken
    exact inv.section runs (inv.mutexLock runs handle suspensionAllowed)
  | mutexTryLock carrier handle =>
    obtain ⟨id, -, runs, rfl⟩ := act_eq taken
    exact inv.section runs (inv.mutexTryLock carrier id handle)
  | mutexUnlock carrier handle =>
    obtain ⟨id, -, runs, rfl⟩ := act_eq taken
    exact inv.section runs (inv.mutexUnlock carrier id handle)
  | rmutexLock carrier handle suspensionAllowed =>
    obtain ⟨id, -, runs, rfl⟩ := act_eq taken
    exact inv.section runs (inv.rmutexLock runs handle suspensionAllowed)
  | rmutexTryLock carrier handle =>
    obtain ⟨id, -, runs, rfl⟩ := act_eq taken
    exact inv.section runs (inv.rmutexTryLock carrier id handle)
  | rmutexUnlock carrier handle =>
    obtain ⟨id, -, runs, rfl⟩ := act_eq taken
    exact inv.section runs (inv.rmutexUnlock carrier id handle)
  | semaphoreAcquire carrier handle suspensionAllowed =>
    obtain ⟨id, -, runs, rfl⟩ := act_eq taken
    exact inv.section runs (inv.semaphoreAcquire runs handle suspensionAllowed)
  | semaphoreTryAcquire carrier handle =>
    obtain ⟨id, -, runs, rfl⟩ := act_eq taken
    exact inv.section runs (inv.semaphoreTryAcquire carrier id handle)
  | semaphoreRelease carrier handle =>
    obtain ⟨id, -, runs, rfl⟩ := act_eq taken
    exact inv.section runs (inv.semaphoreRelease carrier id handle)
  | channelSend carrier handle value suspensionAllowed =>
    obtain ⟨id, -, runs, rfl⟩ := act_eq taken
    obtain ⟨table, -, effect⟩ := inv.channelSend runs handle value suspensionAllowed
    exact inv.section runs effect
  | channelRecv carrier handle suspensionAllowed =>
    obtain ⟨id, -, runs, rfl⟩ := act_eq taken
    obtain ⟨table, -, effect⟩ := inv.channelRecv runs handle suspensionAllowed
    exact inv.section runs effect
  | channelClose carrier handle =>
    obtain ⟨id, -, runs, rfl⟩ := act_eq taken
    obtain ⟨mid, first, control, second⟩ := inv.channelClose carrier id handle
    exact (inv.section runs first).section (control ▸ runs) second
  | migrate carrier =>
    obtain ⟨id, stage, -, stands, taken⟩ := at_eq inv.places taken
    cases stage <;> cases taken
    exact inv.migrate stands
  | recheck carrier =>
    obtain ⟨id, stage, -, stands, taken⟩ := at_eq inv.places taken
    cases stage <;> cases taken
    exact inv.recheck stands
  | abort carrier =>
    obtain ⟨id, stage, window, stands, taken⟩ := at_eq inv.places taken
    cases stage <;> cases taken
    exact inv.abort window stands
  | sleep carrier wakeAt suspensionAllowed =>
    obtain ⟨id, -, runs, rfl⟩ := act_eq taken
    cases suspensionAllowed with
    | false => exact inv
    | true => exact inv.sleep runs (inv.absent runs .timer) wakeAt
  | join carrier targetId destination suspensionAllowed =>
    obtain ⟨id, -, runs, rfl⟩ := act_eq taken
    exact inv.join runs targetId destination suspensionAllowed
  | selectAny carrier targets suspensionAllowed =>
    obtain ⟨id, -, runs, rfl⟩ := act_eq taken
    exact inv.selectAny runs targets suspensionAllowed
  | completePromise carrier promise outcome =>
    obtain ⟨id, -, -, rfl⟩ := act_eq taken
    exact inv.completePromise carrier promise outcome
  | newPromise carrier =>
    obtain ⟨id, -, -, rfl⟩ := act_eq taken
    exact inv.newPromise
  | spawn carrier root =>
    obtain ⟨id, -, -, rfl⟩ := act_eq taken
    exact inv.spawn root
  | parkOnClassInit carrier owner initializing =>
    obtain ⟨id, -, runs, rfl⟩ := act_eq taken
    cases initializing with
    | false => exact inv
    | true => exact inv.parkOnClassInit runs (inv.absent runs (.classInit owner))
  | enterNative carrier stack =>
    obtain ⟨id, -, runs, rfl⟩ := act_eq taken
    exact inv.native runs rfl (.inr rfl) rfl rfl
  | nativeParkForIo carrier fd events deadline suspensionAllowed =>
    obtain ⟨id, -, runs, rfl⟩ := act_eq taken
    exact inv.nativeParkForIo runs fd events deadline suspensionAllowed
  | leaveNative carrier stolenDepth =>
    obtain ⟨id, -, runs, rfl⟩ := act_eq taken
    exact @Inv.native s carrier id inv runs (fun ctx => { ctx with
      frames := (s.sched.contexts id).frames.take ((s.sched.contexts id).frames.length - stolenDepth)
      state := .runnable }) _ rfl (.inl rfl) rfl rfl
  | preempt carrier =>
    obtain ⟨id, -, runs, rfl⟩ := act_eq taken
    exact inv.preempt runs
  | finish carrier result =>
    obtain ⟨id, window, runs, rfl⟩ := act_eq taken
    exact inv.ends window runs (.inl rfl) rfl false
  | fail carrier exc =>
    obtain ⟨id, window, runs, rfl⟩ := act_eq taken
    exact inv.ends window runs (.inr rfl) rfl true
  | park carrier frames =>
    obtain ⟨id, stage, window, stands, taken⟩ := at_eq inv.places taken
    cases stage <;> cases taken
    exact inv.land window stands (lands id window)
  | parkSlice carrier stack keepBelow =>
    obtain ⟨id, stage, window, stands, taken⟩ := at_eq inv.places taken
    cases stage <;> cases taken
    exact inv.land window stands (lands.2 id window)
  | pop carrier =>
    by_cases busy : (s.window carrier).isSome = true
    · simp only [State.step, if_pos busy] at taken
      cases taken
    · simp only [State.step, if_neg busy] at taken
      obtain ⟨⟨id, sched⟩, popped, rfl⟩ := Option.map_eq_some_iff.mp taken
      exact inv.pop (by simpa using busy) popped
  | resume carrier =>
    obtain ⟨id, stage, -, stands, taken⟩ := at_eq inv.places taken
    cases stage <;> cases taken
    exact inv.resume stands (.inl rfl)
  | resumePinned carrier =>
    obtain ⟨id, stage, -, stands, taken⟩ := at_eq inv.places taken
    cases stage <;> cases taken
    exact inv.resume stands (.inr rfl)
  | setPumpToken carrier token =>
    cases taken
    exact inv.quiet (fun id => .refl _) rfl rfl rfl rfl rfl
  | pinContext id token =>
    cases taken
    exact inv.quietOne ⟨rfl, rfl, rfl, rfl, rfl, rfl⟩
  | setFocus focus =>
    cases taken
    exact inv.quiet (fun id => .refl _) rfl rfl rfl rfl rfl
  | setFreeze depth =>
    cases taken
    exact inv.quiet (fun id => .refl _) rfl rfl rfl rfl rfl
  | wake index =>
    cases flies : s.flying[index]? with
    | none =>
      simp only [State.step, flies] at taken
      cases taken
    | some wake =>
      simp only [State.step, flies] at taken
      cases taken
      exact inv.deliver flies
  | wakeClassInit owner =>
    cases taken
    exact inv.wakeClassInit owner
  | deliverResults index =>
    cases decides : s.deciding[index]? with
    | none =>
      simp only [State.step, decides] at taken
      cases taken
    | some entry =>
      obtain ⟨targetId, failed⟩ := entry
      simp only [State.step, decides] at taken
      cases failed <;> cases taken
      exact inv.deliverResults targetId _
  | wakeJoiners index =>
    cases decides : s.deciding[index]? with
    | none =>
      simp only [State.step, decides] at taken
      cases taken
    | some entry =>
      simp only [State.step, decides] at taken
      cases taken
      have woken := inv.wakeJoiners (inv.joins.deciding entry (List.mem_of_getElem? decides)) entry.2
      refine ⟨woken.views, ⟨woken.entries.tables, woken.entries.parks, woken.entries.flying⟩,
        ⟨woken.places.windows, woken.places.held, woken.places.registry⟩,
        ⟨woken.joins.targets, woken.joins.noTargets, fun other member => ?_⟩, woken.answered⟩
      exact woken.joins.deciding other (List.mem_of_mem_eraseIdx member)
  | expireTimers now =>
    cases taken
    exact inv.expireTimers now
  | harvestIo ready now =>
    cases taken
    exact (inv.harvest _).harvest _
  | closeFd fd =>
    cases taken
    exact inv.closeFd fd

def parkedFor : ContextState → Bool
  | .runnable => false
  | .blockedNative => false
  | .parkedPromise => false
  | .finished => false
  | .failed => false
  | _ => true

/-- The steps that end the park a context is in: the wake issued for it, the context's own abort after its entry
was stamped, the end of its sleep, an event or a deadline for its io entry, the decision of what it awaits. -/
def State.Answers (s : State) (id : Nat) : Action → Prop
  | .wake index => ∃ wake, s.flying[index]? = some wake ∧ wake.id = id ∧ wake.park = s.park id ∧
      (s.sched.contexts id).state = wake.table.reason
  | .abort carrier => s.window carrier = some id ∧
      ∃ table, s.post id = .granted table ∧ (s.sched.contexts id).state = table.reason
  | .expireTimers now => (s.sched.contexts id).state = .parkedTimer ∧ s.entryPark .timer id = s.park id ∧
      ∃ entry ∈ s.sched.timers, entry.contextId = id ∧ entry.wakeAt ≤ now
  | .harvestIo ready now => (s.sched.contexts id).state = .parkedIo ∧ s.entryPark .io id = s.park id ∧
      ∃ entry ∈ s.sched.ioWaits, entry.contextId = id ∧ (entry.reported ready = true ∨ entry.overdue now = true)
  | .wakeJoiners index => (s.sched.contexts id).state = .parkedJoin ∧
      ∃ targetId failed, s.deciding[index]? = some (targetId, failed) ∧ targetId ∈ s.awaited id
  | .completePromise _ promise _ => (s.sched.contexts id).state = .parkedJoin ∧ promise ∈ s.awaited id
  | _ => False

def Leaves (s s' : State) (id : Nat) : Prop := (s'.sched.contexts id).state = (s.sched.contexts id).state

theorem Leaves.asleep (leaves : Leaves s s' id) (parked : parkedFor (s.sched.contexts id).state = true)
    (awake : (s'.sched.contexts id).state = .runnable) : False := by
  rw [← show (s'.sched.contexts id).state = _ from leaves, awake] at parked
  cases parked

theorem Inv.elsewhere {own : Nat} (inv : Inv s) (runs : s.control own = .on carrier .running)
    (parked : parkedFor (s.sched.contexts id).state = true) : id ≠ own := by
  rintro rfl
  obtain awake | awake := (inv.executing runs).state
  · rw [show (s.sched.contexts id).state = _ from awake] at parked
    cases parked
  · rw [show (s.sched.contexts id).state = _ from awake] at parked
    cases parked

theorem parkFor_other {sched : Scheduler} {own : Nat} {reason : ContextState} (apart : id ≠ own) :
    (sched.parkFor carrier own reason).contexts id = sched.contexts id := by
  simp [Scheduler.parkFor, Scheduler.setState, Scheduler.modify_other _ _ _ apart]

theorem wakeIn_foldl_other {woken : List Nat} {sched : Scheduler} (asleep : id ∉ woken) :
    (woken.foldl (fun sched id => State.wakeIn sched table id) sched).contexts id = sched.contexts id := by
  induction woken generalizing sched with
  | nil => rfl
  | cons first rest ih =>
    have apart : id ≠ first := fun same => asleep (same ▸ List.mem_cons_self ..)
    rw [List.foldl_cons, ih fun later => asleep (List.mem_cons_of_mem _ later)]
    unfold State.wakeIn Scheduler.wakeForIo
    split
    · split
      · rfl
      · simp [Scheduler.wakeFor, Scheduler.setState, Scheduler.modify, Function.update_of_ne apart]
    · simp [Scheduler.wakeFor, Scheduler.setState, Scheduler.modify, Function.update_of_ne apart]

theorem wakeJoiners_answers (inv : Inv s) {targetId : Nat} {failed : Bool}
    (parked : parkedFor (s.sched.contexts id).state = true)
    (awake : ((s.sched.wakeJoiners targetId failed).contexts id).state = .runnable) :
    (s.sched.contexts id).state = .parkedJoin ∧ targetId ∈ s.awaited id := by
  have state : ((s.sched.wakeJoiners targetId failed).contexts id).state =
      (if id < s.sched.nextId then ((s.sched.contexts id).wokenBy targetId failed).getD (s.sched.contexts id)
        else s.sched.contexts id).state := by
    unfold Scheduler.wakeJoiners
    split
    · by_cases same : id = targetId
      · subst same
        rw [Scheduler.modify_self]
      · rw [Scheduler.modify_other _ _ _ same]
    · rfl
  rw [state] at awake
  by_cases registered : id < s.sched.nextId
  · rw [if_pos registered] at awake
    cases woken : (s.sched.contexts id).wokenBy targetId failed with
    | none =>
      rw [woken, Option.getD_none] at awake
      rw [awake] at parked
      cases parked
    | some after =>
      have joiner := wokenBy_some woken
      exact ⟨joiner.joined, inv.joins.targets id targetId joiner.joined joiner.waits⟩
  · rw [if_neg registered] at awake
    rw [awake] at parked
    cases parked

theorem completePromise_answers (inv : Inv s) {promise : Nat} {outcome : Int ⊕ Nat}
    (parked : parkedFor (s.sched.contexts id).state = true)
    (awake : ((s.completePromise carrier promise outcome).sched.contexts id).state = .runnable) :
    (s.sched.contexts id).state = .parkedJoin ∧ promise ∈ s.awaited id := by
  unfold State.completePromise at awake
  by_cases pending : (s.sched.contexts promise).state = .parkedPromise
  · rw [if_neg (not_not_intro pending)] at awake
    have apart : id ≠ promise := by
      rintro rfl
      rw [pending] at parked
      cases parked
    cases outcome with
    | inl result =>
      obtain ⟨-, settled⟩ := @Inv.settle s carrier inv promise pending
        (fun ctx => { ctx with state := .finished, resultCell := result }) _ rfl (.inl rfl) rfl
      have same : (((s.sched.markFinished carrier promise result).deliverJoinResults promise result).contexts
          id).state = (s.sched.contexts id).state := by
        rw [(deliverJoinResults_alike _ _ _ _).state]
        simp [Scheduler.markFinished, Scheduler.modify_other _ _ _ apart]
      rw [← same] at parked ⊢
      exact @wakeJoiners_answers _ id (settled.deliverResults promise result) promise false parked awake
    | inr exc =>
      obtain ⟨-, settled⟩ := @Inv.settle s carrier inv promise pending
        (fun ctx => { ctx with state := .failed, failExcHeapIdx := exc }) _ rfl (.inr rfl) rfl
      have same : ((s.sched.markFailed carrier promise exc).contexts id).state = (s.sched.contexts id).state := by
        simp [Scheduler.markFailed, Scheduler.modify_other _ _ _ apart]
      rw [← same] at parked ⊢
      exact @wakeJoiners_answers _ id settled promise true parked awake
  · rw [if_pos pending] at awake
    exact (Leaves.asleep rfl parked awake).elim

theorem expireTimers_answers (inv : Inv s) {now : Nat} (parked : parkedFor (s.sched.contexts id).state = true)
    (awake : ((s.sched.expireDueTimers now).contexts id).state = .runnable) : s.Answers id (.expireTimers now) := by
  have rows : Matches TimerEntry.contextId (fun _ => true) true s.sched.timers (s.status .timer) :=
    inv.entries.tables .timer
  by_contra unanswered
  refine @Leaves.asleep s { s with sched := s.sched.expireDueTimers now } _ ?_ parked awake
  have named := @wakeIn_foldl_other id .timer
    ((((s.sched.timers.filter fun entry => (s.sched.contexts entry.contextId).state = .parkedTimer).filter
      (·.wakeAt ≤ now)).mergeSort fun entry later => entry.wakeAt ≤ later.wakeAt).map (·.contextId)) s.sched ?_
  · rw [List.foldl_map] at named
    exact congrArg ExecutionContext.state named
  · intro member
    obtain ⟨entry, due, rfl⟩ := List.mem_map.mp member
    obtain ⟨sleeping, past⟩ := List.mem_filter.mp ((List.mergeSort_perm _ _).mem_iff.mp due)
    obtain ⟨present, state⟩ := List.mem_filter.mp sleeping
    have committed := Post.status_parked ((rows.status_of_mem present).2.1 rfl)
    exact unanswered ⟨by simpa using state, inv.entries.parks _ _ (.inr committed), entry, present, rfl,
      by simpa using past⟩

theorem Inv.ioEntry {entry : IoWaitEntry} (inv : Inv s) (present : entry ∈ s.sched.ioWaits) :
    (s.sched.contexts entry.contextId).state = .parkedIo ∧
      s.entryPark .io entry.contextId = s.park entry.contextId := by
  have rows : Matches IoWaitEntry.contextId (fun _ => true) true s.sched.ioWaits (s.status .io) :=
    inv.entries.tables .io
  have committed := Post.status_parked ((rows.status_of_mem present).2.1 rfl)
  exact ⟨((inv.views entry.contextId).answered committed).1, inv.entries.parks _ _ (.inr committed)⟩

theorem harvest_leaves {hit : IoWaitEntry → Bool} (missed : ∀ entry ∈ s.sched.ioWaits, hit entry = true →
    entry.contextId ≠ id) : Leaves s (s.harvest hit) id := by
  have named := @wakeIn_foldl_other id .io ((s.sched.ioWaits.filter hit).map (·.contextId)) s.sched ?_
  · rw [List.foldl_map] at named
    exact congrArg ExecutionContext.state named
  · intro member
    obtain ⟨entry, struck, named⟩ := List.mem_map.mp member
    obtain ⟨present, hits⟩ := List.mem_filter.mp struck
    exact missed entry present hits named

theorem harvestIo_answers (inv : Inv s) {ready : Nat → Option Nat} {now : Nat}
    (parked : parkedFor (s.sched.contexts id).state = true)
    (awake : (((s.harvest (IoWaitEntry.reported ready)).harvest (IoWaitEntry.overdue now)).sched.contexts id).state =
      .runnable) : s.Answers id (.harvestIo ready now) := by
  by_contra unanswered
  have missed : ∀ entry ∈ s.sched.ioWaits, entry.reported ready = true ∨ entry.overdue now = true →
      entry.contextId ≠ id := by
    rintro entry present hits rfl
    obtain ⟨state, park⟩ := inv.ioEntry present
    exact unanswered ⟨state, park, entry, present, rfl, hits⟩
  have first : Leaves s (s.harvest (IoWaitEntry.reported ready)) id :=
    harvest_leaves fun entry present hits => missed entry present (.inl hits)
  have second : Leaves (s.harvest (IoWaitEntry.reported ready)) _ id :=
    harvest_leaves fun entry present hits => missed entry (List.mem_filter.mp present).1 (.inr hits)
  exact Leaves.asleep (second.trans first) parked awake

theorem update_state {contexts : Nat → ExecutionContext} {own : Nat} {ctx : ExecutionContext}
    (same : ctx.state = (contexts own).state) : (Function.update contexts own ctx id).state = (contexts id).state := by
  by_cases here : id = own
  · subst here
    rw [Function.update_self, same]
  · rw [Function.update_of_ne here]

theorem landFrames_state (sched : Scheduler) (carrier own : Nat) (frames : List Frame) (id : Nat) :
    ((sched.landFrames carrier own frames true).contexts id).state = (sched.contexts id).state := by
  unfold Scheduler.landFrames
  split
  · rw [Scheduler.releaseHeldIfCurrent_contexts]
    exact update_state (by rfl)
  · rw [Scheduler.releaseHeldIfCurrent_contexts]
    exact (update_state (by rfl)).trans (update_state (by rfl))

theorem recheck_contexts (inv : Inv s) (stands : s.control id = .on carrier (.migrated table)) :
    (s.recheck carrier id table).sched.contexts = s.sched.contexts := by
  obtain ⟨registered, -⟩ := inv.ok_at stands
  have status : s.status table id = .registered := by
    unfold State.status Post.status
    rw [show s.post id = .registered table from registered.post]
    exact if_pos rfl
  obtain ⟨parks, after, found, touches, -⟩ := recheckEntry_found inv status registered.rechecks
  unfold State.recheck
  rw [found]
  cases parks <;> exact touches.contexts

theorem join_leaves {own targetId : Nat} {destination suspensionAllowed : Bool} (apart : id ≠ own) :
    Leaves s (s.join carrier own targetId destination suspensionAllowed) id := by
  unfold State.join
  split
  · rfl
  · split
    · rfl
    · exact update_state (by rfl)
    · split
      · simp [Leaves, State.joinPark, State.parkAtOnce, State.enter, State.goTo, Scheduler.parkForJoin,
          Scheduler.modify_other _ _ _ apart]
      · rfl

theorem selectAny_leaves {own : Nat} {targets : List (Nat × Nat)} {suspensionAllowed : Bool} (apart : id ≠ own) :
    Leaves s (s.selectAny carrier own targets suspensionAllowed) id := by
  unfold State.selectAny Scheduler.parkForJoinAny
  split
  · rfl
  · split
    · cases (s.sched.modify own fun ctx => { ctx with joinResultDst := true }).decidedIndex targets with
      | some won => rfl
      | none =>
        simp [Leaves, State.joinPark, State.parkAtOnce, State.enter, State.goTo, Scheduler.modify_other _ _ _ apart]
    · rfl

theorem nativeParkForIo_leaves {own events : Nat} {fd deadline : Option Nat} {suspensionAllowed : Bool}
    (apart : id ≠ own) : Leaves s (s.nativeParkForIo carrier own fd events deadline suspensionAllowed) id := by
  unfold State.nativeParkForIo
  split
  · exact update_state (by rfl)
  · split
    · rfl
    · simp [Leaves, State.parkAtOnce, State.enter, State.goTo, Scheduler.parkForIo, Scheduler.setState,
        Scheduler.modify_other _ _ _ apart]

theorem Inv.old (inv : Inv s) (parked : parkedFor (s.sched.contexts id).state = true) : id ≠ s.sched.nextId := by
  rintro rfl
  have ok := inv.views s.sched.nextId
  unfold View.Ok at ok
  rw [show (s.view s.sched.nextId).control = .unborn from (inv.places.registry _).mpr (Nat.le_refl _)] at ok
  rw [show (s.sched.contexts s.sched.nextId).state = .runnable from ok.state] at parked
  cases parked

theorem Inv.wakes {action : Action} (inv : Inv s) (taken : s.step action = some s')
    (parked : parkedFor (s.sched.contexts id).state = true) (awake : (s'.sched.contexts id).state = .runnable) :
    s.Answers id action := by
  have still : Leaves s s' id → s.Answers id action := fun leaves => (leaves.asleep parked awake).elim
  cases action with
  | mutexLock carrier handle suspensionAllowed =>
    obtain ⟨own, -, runs, rfl⟩ := act_eq taken
    exact still (congrArg ExecutionContext.state (congrFun (inv.mutexLock runs handle suspensionAllowed).contexts id))
  | mutexTryLock carrier handle =>
    obtain ⟨own, -, -, rfl⟩ := act_eq taken
    exact still (congrArg ExecutionContext.state (congrFun (inv.mutexTryLock carrier own handle).contexts id))
  | mutexUnlock carrier handle =>
    obtain ⟨own, -, -, rfl⟩ := act_eq taken
    exact still (congrArg ExecutionContext.state (congrFun (inv.mutexUnlock carrier own handle).contexts id))
  | rmutexLock carrier handle suspensionAllowed =>
    obtain ⟨own, -, runs, rfl⟩ := act_eq taken
    exact still (congrArg ExecutionContext.state (congrFun (inv.rmutexLock runs handle suspensionAllowed).contexts id))
  | rmutexTryLock carrier handle =>
    obtain ⟨own, -, -, rfl⟩ := act_eq taken
    exact still (congrArg ExecutionContext.state (congrFun (inv.rmutexTryLock carrier own handle).contexts id))
  | rmutexUnlock carrier handle =>
    obtain ⟨own, -, -, rfl⟩ := act_eq taken
    exact still (congrArg ExecutionContext.state (congrFun (inv.rmutexUnlock carrier own handle).contexts id))
  | semaphoreAcquire carrier handle suspensionAllowed =>
    obtain ⟨own, -, runs, rfl⟩ := act_eq taken
    exact still (congrArg ExecutionContext.state (congrFun (inv.semaphoreAcquire runs handle suspensionAllowed).contexts id))
  | semaphoreTryAcquire carrier handle =>
    obtain ⟨own, -, -, rfl⟩ := act_eq taken
    exact still rfl
  | semaphoreRelease carrier handle =>
    obtain ⟨own, -, -, rfl⟩ := act_eq taken
    exact still rfl
  | channelSend carrier handle value suspensionAllowed =>
    obtain ⟨own, -, runs, rfl⟩ := act_eq taken
    obtain ⟨table, -, effect⟩ := inv.channelSend runs handle value suspensionAllowed
    exact still (congrArg ExecutionContext.state (congrFun effect.contexts id))
  | channelRecv carrier handle suspensionAllowed =>
    obtain ⟨own, -, runs, rfl⟩ := act_eq taken
    obtain ⟨table, -, effect⟩ := inv.channelRecv runs handle suspensionAllowed
    exact still (congrArg ExecutionContext.state (congrFun effect.contexts id))
  | channelClose carrier handle =>
    obtain ⟨own, -, -, rfl⟩ := act_eq taken
    exact still rfl
  | migrate carrier =>
    obtain ⟨own, stage, -, stands, taken⟩ := at_eq inv.places taken
    cases stage <;> cases taken
    obtain ⟨-, awakeBefore⟩ := inv.ok_at stands
    by_cases same : id = own
    · subst same
      have state : (s.sched.contexts id).state = .runnable ∨ (s.sched.contexts id).state = .blockedNative :=
        awakeBefore
      obtain state | state := state <;> rw [state] at parked <;> cases parked
    · exact still (congrArg ExecutionContext.state (parkFor_other same))
  | recheck carrier =>
    obtain ⟨own, stage, -, stands, taken⟩ := at_eq inv.places taken
    cases stage <;> cases taken
    exact still (congrArg ExecutionContext.state (congrFun (recheck_contexts inv stands) id))
  | abort carrier =>
    obtain ⟨own, stage, window, stands, taken⟩ := at_eq inv.places taken
    cases stage <;> cases taken
    obtain ⟨table, aborting⟩ := inv.ok_at stands
    by_cases same : id = own
    · subst same
      exact ⟨window, table, aborting.post, aborting.state⟩
    · refine still ?_
      rw [Leaves, parkedCallReturns_eq]
      exact congrArg ExecutionContext.state (Function.update_of_ne same _ _)
  | sleep carrier wakeAt suspensionAllowed =>
    obtain ⟨own, -, runs, rfl⟩ := act_eq taken
    cases suspensionAllowed with
    | false => exact still rfl
    | true =>
      exact still (by simp [Leaves, State.parkAtOnce, State.enter, State.goTo, Scheduler.parkForTimer,
        Scheduler.setState, Scheduler.modify_other _ _ _ (inv.elsewhere runs parked)])
  | join carrier targetId destination suspensionAllowed =>
    obtain ⟨own, -, runs, rfl⟩ := act_eq taken
    exact still (join_leaves (inv.elsewhere runs parked))
  | selectAny carrier targets suspensionAllowed =>
    obtain ⟨own, -, runs, rfl⟩ := act_eq taken
    exact still (selectAny_leaves (inv.elsewhere runs parked))
  | completePromise carrier promise outcome =>
    obtain ⟨own, -, -, rfl⟩ := act_eq taken
    exact completePromise_answers inv parked awake
  | newPromise carrier =>
    obtain ⟨own, -, -, rfl⟩ := act_eq taken
    exact still (congrArg ExecutionContext.state (Function.update_of_ne (inv.old parked) _ _))
  | spawn carrier root =>
    obtain ⟨own, -, -, rfl⟩ := act_eq taken
    exact still (congrArg ExecutionContext.state (Function.update_of_ne (inv.old parked) _ _))
  | parkOnClassInit carrier owner initializing =>
    obtain ⟨own, -, runs, rfl⟩ := act_eq taken
    cases initializing with
    | false => exact still rfl
    | true => exact still (congrArg ExecutionContext.state (parkFor_other (inv.elsewhere runs parked)))
  | enterNative carrier stack =>
    obtain ⟨own, -, runs, rfl⟩ := act_eq taken
    exact still (congrArg ExecutionContext.state (Function.update_of_ne (inv.elsewhere runs parked) _ _))
  | nativeParkForIo carrier fd events deadline suspensionAllowed =>
    obtain ⟨own, -, runs, rfl⟩ := act_eq taken
    exact still (nativeParkForIo_leaves (inv.elsewhere runs parked))
  | leaveNative carrier stolenDepth =>
    obtain ⟨own, -, runs, rfl⟩ := act_eq taken
    exact still (congrArg ExecutionContext.state (Function.update_of_ne (inv.elsewhere runs parked) _ _))
  | preempt carrier =>
    obtain ⟨own, -, -, rfl⟩ := act_eq taken
    exact still rfl
  | finish carrier result =>
    obtain ⟨own, -, runs, rfl⟩ := act_eq taken
    exact still (by simp [Leaves, Scheduler.markFinished, Scheduler.modify_other _ _ _ (inv.elsewhere runs parked)])
  | fail carrier exc =>
    obtain ⟨own, -, runs, rfl⟩ := act_eq taken
    exact still (by simp [Leaves, Scheduler.markFailed, Scheduler.modify_other _ _ _ (inv.elsewhere runs parked)])
  | park carrier frames =>
    obtain ⟨own, stage, -, -, taken⟩ := at_eq inv.places taken
    cases stage <;> cases taken
    exact still (landFrames_state s.sched carrier own frames id)
  | parkSlice carrier stack keepBelow =>
    obtain ⟨own, stage, -, -, taken⟩ := at_eq inv.places taken
    cases stage <;> cases taken
    exact still (landFrames_state s.sched carrier own (stack.drop keepBelow) id)
  | pop carrier =>
    by_cases busy : (s.window carrier).isSome = true
    · simp only [State.step, if_pos busy] at taken
      cases taken
    · simp only [State.step, if_neg busy] at taken
      obtain ⟨⟨own, sched⟩, popped, rfl⟩ := Option.map_eq_some_iff.mp taken
      obtain ⟨before, after, -, rfl⟩ := Scheduler.popNextRunnable_removed popped
      exact still (update_state (by rfl))
  | resume carrier =>
    obtain ⟨own, stage, -, -, taken⟩ := at_eq inv.places taken
    cases stage <;> cases taken
    refine still ?_
    rw [Leaves, parkedCallReturns_eq]
    change ((s.sched.spliceResumedFrames own).2.contexts id).state = _
    unfold Scheduler.spliceResumedFrames
    split
    · rfl
    · exact update_state (by rfl)
  | resumePinned carrier =>
    obtain ⟨own, stage, -, -, taken⟩ := at_eq inv.places taken
    cases stage <;> cases taken
    refine still ?_
    rw [Leaves, parkedCallReturns_eq]
    exact update_state (by rfl)
  | setPumpToken carrier token =>
    cases taken
    exact still rfl
  | pinContext own token =>
    cases taken
    exact still (update_state (by rfl))
  | setFocus focus =>
    cases taken
    exact still rfl
  | setFreeze depth =>
    cases taken
    exact still rfl
  | wake index =>
    cases flies : s.flying[index]? with
    | none =>
      simp only [State.step, flies] at taken
      cases taken
    | some wake =>
      simp only [State.step, flies] at taken
      cases taken
      obtain ⟨post, park, -⟩ := inv.entries.flying wake (List.mem_of_getElem? flies)
      by_cases same : wake.id = id
      · subst same
        have flying : s.flying.countP (·.id = wake.id) ≠ 0 :=
          (List.countP_pos_iff.mpr ⟨wake, List.mem_of_getElem? flies, by simp⟩).ne'
        exact ⟨wake, flies, rfl, park, ((inv.views wake.id).woken post flying).1⟩
      · have others := @wakeIn_foldl_other id wake.table [wake.id] s.sched (by simpa using Ne.symm same)
        exact still (congrArg ExecutionContext.state others)
  | wakeClassInit owner =>
    cases taken
    exact still rfl
  | deliverResults index =>
    cases decides : s.deciding[index]? with
    | none =>
      simp only [State.step, decides] at taken
      cases taken
    | some entry =>
      obtain ⟨targetId, failed⟩ := entry
      simp only [State.step, decides] at taken
      cases failed <;> cases taken
      exact still (deliverJoinResults_alike _ _ _ _).state
  | wakeJoiners index =>
    cases decides : s.deciding[index]? with
    | none =>
      simp only [State.step, decides] at taken
      cases taken
    | some entry =>
      simp only [State.step, decides] at taken
      cases taken
      obtain ⟨joined, awaits⟩ := @wakeJoiners_answers s id inv entry.1 entry.2 parked awake
      exact ⟨joined, entry.1, entry.2, decides, awaits⟩
  | expireTimers now =>
    cases taken
    exact expireTimers_answers inv parked awake
  | harvestIo ready now =>
    cases taken
    exact harvestIo_answers inv parked awake
  | closeFd fd =>
    cases taken
    exact still rfl

structure Dispatches (s : State) : Prop where
  once : s.sched.runQueue.Nodup
  landed : ∀ id ∈ s.sched.runQueue, (s.sched.contexts id).state = .runnable ∧ s.control id = .landed ∧
    ((s.sched.contexts id).frames ≠ [] ∨ (s.sched.contexts id).lastCarrier = none) ∧
    ∀ carrier, s.window carrier ≠ some id ∧ s.sched.held carrier ≠ some id
  wakes : ∀ action s' id, s.step action = some s' → parkedFor (s.sched.contexts id).state = true →
    (s'.sched.contexts id).state = .runnable → s.Answers id action
  answered : s.astray = false

theorem Inv.dispatches (inv : Inv s) : Dispatches s where
  once := by
    refine List.nodup_iff_count_le_one.mpr fun id => ?_
    by_cases queued : s.sched.runQueue.count id = 0
    · omega
    · obtain ⟨-, ok⟩ := (inv.views id).queued queued
      exact ok.once.le
  landed := by
    intro id member
    obtain ⟨landed, ok⟩ := (inv.views id).queued (List.count_pos_iff.mpr member).ne'
    have away : ∀ carrier, s.window carrier ≠ some id := by
      intro carrier window
      obtain ⟨stage, there⟩ := (inv.places.windows carrier id).mp window
      rw [show s.control id = .landed from landed] at there
      cases there
    exact ⟨ok.state, landed, ok.landed, fun carrier =>
      ⟨away carrier, fun held => away carrier (inv.places.held carrier id held)⟩⟩
  wakes := fun _ _ _ => inv.wakes
  answered := inv.answered

/-- While frames land with every park, dispatch is exactly once and wakes are never astray. -/
theorem dispatches_once (run : Run State.step State.Lands State.start s) : Dispatches s :=
  Inv.dispatches (run.invariant Inv Inv.start fun _ _ _ inv lands taken => inv.step lands taken)

theorem dispatches_once_overtaken :
    ∃ s, Run State.step State.Lands State.start s ∧ s.sched.runQueue = [1] ∧ (s.mutexes 5).ownerId = some 1 ∧
      Dispatches s := by
  have run : Run State.step State.Lands State.start _ :=
    Run.refl.actions (by simp [State.Lands]) (show [Action.pop 0, .resume 0, .spawn 0 7, .mutexLock 0 5 true, .pop 1,
      .resume 1, .mutexLock 1 5 true, .migrate 1, .recheck 1, .mutexUnlock 0 5, .wake 0,
      .park 1 [7]].foldlM State.step State.start = some _ from rfl)
  exact ⟨_, run, rfl, rfl, dispatches_once run⟩

theorem native_main_queued_twice :
    ¬ ∀ s, Run State.step (fun _ _ => True) State.start s → Dispatches s := by
  intro claim
  have run : Run State.step (fun _ _ => True) State.start _ :=
    Run.refl.actions (fun _ _ _ => trivial)
      (show [Action.pop 0, .resume 0, .enterNative 0 [], .nativeParkForIo 0 none 0 (some 1) true, .park 0 [],
        .harvestIo (fun _ => none) 1, .pop 0, .resume 0, .enterNative 0 [],
        .nativeParkForIo 0 none 0 (some 1) true, .nativeParkForIo 0 none 0 (some 2) true,
        .harvestIo (fun _ => none) 2, .park 0 []].foldlM State.step State.start = some _ from rfl)
  exact absurd (claim _ run).once (by decide)

end NLang.Vm.Dispatch
