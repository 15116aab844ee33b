import NLang.Vm.DispatchWakes

/-!
# Joins and natives in dispatch

The wake of everything that waits for a decided context, the completion of a promise, and the steps of natives.
-/

namespace NLang.Vm.Dispatch
open NLang.Library.Queues NLang.Library.ParkTables NLang.Vm.Sync

variable {s s' : State} {carrier id : Nat} {table : Table}

structure JoinerWakes (ctx after : ExecutionContext) (targetId : Nat) : Prop where
  joined : ctx.state = .parkedJoin
  waits : ctx.parkHandle = some targetId ∨ targetId ∈ ctx.selectAnyTargets.map (·.1)
  state : after.state = .runnable
  framesParked : after.framesParked = ctx.framesParked
  frames : after.frames = ctx.frames
  lastCarrier : after.lastCarrier = ctx.lastCarrier
  selectAnyTargets : ctx.parkHandle ≠ none ∧ after.selectAnyTargets = ctx.selectAnyTargets ∨ after.selectAnyTargets = []

theorem wokenBy_some {ctx after : ExecutionContext} {targetId : Nat} {failed : Bool}
    (woken : ctx.wokenBy targetId failed = some after) : JoinerWakes ctx after targetId := by
  unfold ExecutionContext.wokenBy at woken
  by_cases joins : ctx.joins targetId = true
  · rw [if_pos joins] at woken
    cases woken
    have parked : ctx.state = .parkedJoin ∧ ctx.parkHandle = some targetId := by
      simpa [ExecutionContext.joins] using joins
    exact ⟨parked.1, .inl parked.2, rfl, rfl, rfl, rfl, .inl ⟨by simp [parked.2], rfl⟩⟩
  · rw [if_neg joins] at woken
    obtain ⟨winIdx, found, rfl⟩ := Option.map_eq_some_iff.mp woken
    unfold ExecutionContext.winIdx at found
    by_cases joined : ctx.state = .parkedJoin
    · rw [if_pos joined] at found
      obtain ⟨entry, first, -⟩ := Option.map_eq_some_iff.mp found
      have named : entry.1 = targetId := by simpa using List.find?_some first
      exact ⟨joined, .inr (List.mem_map.mpr ⟨entry, List.mem_of_find?_eq_some first, named⟩), rfl, rfl, rfl, rfl,
        .inr rfl⟩
    · rw [if_neg joined] at found
      cases found

theorem Inv.joining (inv : Inv s) (joined : (s.sched.contexts id).state = .parkedJoin) :
    s.post id = .committed .join := by
  have asleep : ∀ table, (s.view id).Asleep table → s.post id = .committed .join := by
    intro table asleep
    have reason : (s.sched.contexts id).state = table.reason := asleep.state
    rw [joined] at reason
    cases table <;> cases reason
    obtain ⟨committed, -⟩ | ⟨granted, once⟩ := asleep.entry
    · exact committed
    · have flies : 0 < s.flying.countP (·.id = id) := by
        change s.flying.countP (·.id = id) = 1 at once
        omega
      obtain ⟨wake, member, here⟩ := List.countP_pos_iff.mp flies
      obtain ⟨post, -, apart⟩ := inv.entries.flying wake member
      simp only [decide_eq_true_eq] at here
      rw [here, show s.post id = .granted .join from granted] at post
      exact absurd (Post.granted.inj post).symm apart
  have rechecked : ∀ table : Table, table.rechecks = true → (s.sched.contexts id).state ≠ table.reason := by
    intro table rechecks reason
    exact (Away.of_rechecks rechecks).1 (reason.symm.trans joined)
  have ok := inv.views id
  unfold View.Ok at ok
  cases control : (s.view id).control with
  | unborn =>
    rw [control] at ok
    cases joined.symm.trans ok.state
  | ended =>
    rw [control] at ok
    obtain ends | ends | ends := ok.state <;> cases joined.symm.trans ends
  | landed =>
    rw [control] at ok
    obtain ok | ok | ⟨table, ok⟩ := ok
    · cases joined.symm.trans ok.state
    · cases joined.symm.trans ok.state
    · exact asleep table ok.asleep
  | on carrier stage =>
    rw [control] at ok
    cases stage with
    | popped => cases joined.symm.trans ok.state
    | running => obtain awake | awake := ok.state <;> cases joined.symm.trans awake
    | registered own => obtain ⟨-, awake | awake⟩ := ok <;> cases joined.symm.trans awake
    | migrated own => exact absurd ok.2 (rechecked own ok.1.rechecks)
    | aborting =>
      obtain ⟨own, ok⟩ := ok
      exact absurd ok.state (rechecked own ok.rechecks)
    | unwinding =>
      obtain ⟨-, awake, -⟩ | ⟨-, awake, -⟩ | ⟨own, stands⟩ := ok.stands
      · cases joined.symm.trans awake
      · cases joined.symm.trans awake
      · exact asleep own stands

theorem count_joinersEnqueued (s : State) (targetId : Nat) (failed : Bool) (id : Nat) :
    (s.sched.joinersEnqueued targetId).count id =
      if id ∈ s.joinersOf targetId failed ∧ (s.sched.contexts id).framesParked = true then 1 else 0 := by
  unfold Scheduler.joinersEnqueued
  have nodup : ((List.range s.sched.nextId).filter fun id => (s.sched.contexts id).framesParked).Nodup :=
    List.nodup_range.filter _
  have woken : ∀ id, ((s.sched.contexts id).wokenBy targetId failed).isSome = true ↔
      (s.sched.contexts id).joins targetId = true ∨ ((s.sched.contexts id).winIdx targetId).isSome = true := by
    intro id
    unfold ExecutionContext.wokenBy
    by_cases joins : (s.sched.contexts id).joins targetId = true
    · simp [joins]
    · simp [joins]
  rw [List.count_append, (nodup.filter _).count, (nodup.filter _).count]
  simp only [State.joinersOf, List.mem_filter, woken]
  by_cases joins : (s.sched.contexts id).joins targetId = true
  · simp [joins, and_comm]
  · simp [joins, and_assoc, and_comm, and_left_comm]

theorem Inv.wakeJoiners (inv : Inv s) {targetId : Nat} (decided : s.sched.decided targetId = true) (failed : Bool) :
    Inv (s.wakeJoiners targetId failed) := by
  have woken_iff : ∀ id, id ∈ s.joinersOf targetId failed ↔
      id < s.sched.nextId ∧ ∃ after, (s.sched.contexts id).wokenBy targetId failed = some after := by
    intro id
    simp [State.joinersOf, Option.isSome_iff_exists]
  have wakes : ∀ id ∈ s.joinersOf targetId failed, ∃ after,
      (s.sched.contexts id).wokenBy targetId failed = some after ∧ JoinerWakes (s.sched.contexts id) after targetId :=
    fun id member => by
      obtain ⟨-, after, woken⟩ := (woken_iff id).mp member
      exact ⟨after, woken, wokenBy_some woken⟩
  have astray : (s.astray || (s.joinersOf targetId failed).any fun id =>
      targetId ∉ s.awaited id || !s.sched.decided targetId) = false := by
    rw [inv.answered, decided]
    simp only [Bool.false_or, List.any_eq_false, Bool.or_eq_true, Bool.not_true, Bool.false_eq_true, or_false,
      decide_eq_true_eq, not_not]
    intro id member
    obtain ⟨after, -, joiner⟩ := wakes id member
    exact inv.joins.targets id targetId joiner.joined joiner.waits
  have parked : ∀ id ∈ s.joinersOf targetId failed, s.post id = .committed .join := fun id member => by
    obtain ⟨after, -, joiner⟩ := wakes id member
    exact inv.joining joiner.joined
  -- the contexts after the two loops, before the failure is marked as observed
  have contexts : ∀ id, id ∉ s.joinersOf targetId failed →
      (if id < s.sched.nextId then ((s.sched.contexts id).wokenBy targetId failed).getD (s.sched.contexts id)
        else s.sched.contexts id) = s.sched.contexts id := by
    intro id asleep
    by_cases registered : id < s.sched.nextId
    · rw [if_pos registered]
      cases woken : (s.sched.contexts id).wokenBy targetId failed with
      | none => rfl
      | some after => exact absurd ((woken_iff id).mpr ⟨registered, after, woken⟩) asleep
    · rw [if_neg registered]
  have own : ∀ id ∈ s.joinersOf targetId failed, JoinerWakes (s.sched.contexts id)
      (if id < s.sched.nextId then ((s.sched.contexts id).wokenBy targetId failed).getD (s.sched.contexts id)
        else s.sched.contexts id) targetId := by
    intro id member
    obtain ⟨after, woken, joiner⟩ := wakes id member
    rw [if_pos ((woken_iff id).mp member).1, woken]
    exact joiner
  have woke : Inv { s with
      sched := { s.sched with
        contexts := fun id =>
          if id < s.sched.nextId then ((s.sched.contexts id).wokenBy targetId failed).getD (s.sched.contexts id)
          else s.sched.contexts id
        runQueue := s.sched.runQueue ++ s.sched.joinersEnqueued targetId }
      post := fun id => if id ∈ s.joinersOf targetId failed then .granted .join else s.post id
      astray := s.astray || (s.joinersOf targetId failed).any fun id =>
        targetId ∉ s.awaited id || !s.sched.decided targetId } := by
    refine ⟨fun id => ?_, ?_, ⟨inv.places.windows, inv.places.held, inv.places.registry⟩, ?_, astray⟩
    · have queue := count_joinersEnqueued s targetId failed id
      by_cases member : id ∈ s.joinersOf targetId failed
      · have joiner := own id member
        have ok := ((inv.views id).answered (parked id member)).2
        simp only [State.view, joiner.state, joiner.framesParked, joiner.frames, joiner.lastCarrier,
          List.count_append, queue, member, true_and]
        exact ok
      · simp only [State.view, contexts id member, List.count_append, queue, member, false_and]
        exact inv.views id
    · exact @Entries.take s _ .join (s.joinersOf targetId failed) inv.entries parked
        (fun other _ status rows => by cases other <;> exact rows) trivial rfl rfl rfl fun wake member => .inl member
    · refine inv.joins.keep (fun _ member => member) rfl (Nat.le_refl _) fun id => ?_
      by_cases member : id ∈ s.joinersOf targetId failed
      · have joiner := own id member
        refine .inr ⟨?_, ?_, ?_⟩
        · simp only [joiner.state]
          exact ContextState.noConfusion
        · obtain ⟨handled, targets⟩ | none := joiner.selectAnyTargets
          · exact targets.trans (inv.joins.noTargets id fun both => handled both.2)
          · exact none
        · simp [Scheduler.decided, joiner.joined]
      · exact .inl (by simp only [contexts id member, and_self])
  unfold State.wakeJoiners Scheduler.wakeJoiners
  by_cases observed : failed = true ∧ (List.range s.sched.nextId).any (fun id => (s.sched.contexts id).joins targetId)
  · simp only [if_pos observed]
    exact woke.quietOne ⟨rfl, rfl, rfl, rfl, rfl, rfl⟩
  · simp only [if_neg observed]
    exact woke

theorem Inv.promise (inv : Inv s) (pending : (s.sched.contexts id).state = .parkedPromise) :
    s.control id = .ended ∧ (s.view id).Over := by
  have state : (s.view id).state = .parkedPromise := pending
  have reasons : ∀ table : Table, (s.view id).state ≠ table.reason := by
    intro table
    rw [state]
    cases table <;> exact ContextState.noConfusion
  have ok := inv.views id
  unfold View.Ok at ok
  cases control : (s.view id).control with
  | unborn =>
    rw [control] at ok
    cases state.symm.trans ok.state
  | ended =>
    rw [control] at ok
    exact ⟨control, ok⟩
  | landed =>
    rw [control] at ok
    obtain ok | ok | ⟨table, ok⟩ := ok
    · cases state.symm.trans ok.state
    · cases state.symm.trans ok.state
    · exact absurd ok.asleep.state (reasons table)
  | on carrier stage =>
    rw [control] at ok
    cases stage with
    | popped => cases state.symm.trans ok.state
    | running => obtain awake | awake := ok.state <;> cases state.symm.trans awake
    | registered own => obtain ⟨-, awake | awake⟩ := ok <;> cases state.symm.trans awake
    | migrated own => exact absurd ok.2 (reasons own)
    | aborting =>
      obtain ⟨own, ok⟩ := ok
      exact absurd ok.state (reasons own)
    | unwinding =>
      obtain ⟨-, awake, -⟩ | ⟨-, awake, -⟩ | ⟨own, stands⟩ := ok.stands
      · cases state.symm.trans awake
      · cases state.symm.trans awake
      · exact absurd stands.state (reasons own)

theorem Inv.settle (inv : Inv s) {promise : Nat} (pending : (s.sched.contexts promise).state = .parkedPromise)
    {change : ExecutionContext → ExecutionContext} {ctx : ExecutionContext} (own : change (s.sched.contexts promise) = ctx)
    (state : ctx.state = .finished ∨ ctx.state = .failed)
    (targets : ctx.selectAnyTargets = (s.sched.contexts promise).selectAnyTargets) :
    ((s.sched.modify promise change).releaseHeldIfCurrent carrier promise).decided promise = true ∧
      Inv { s with sched := (s.sched.modify promise change).releaseHeldIfCurrent carrier promise } := by
  obtain ⟨ended, stands⟩ := inv.promise pending
  have registered : promise < s.sched.nextId := inv.registered (by rw [ended]; exact Control.noConfusion)
  refine ⟨?_, views_of promise (fun other apart => ?_) inv.views ?_, ?_, ?_, ?_, inv.answered⟩
  · have inside : promise < (s.sched.modify promise change).nextId := registered
    simp [Scheduler.decided, own, state, inside]
  · simp [State.view, Scheduler.modify, Function.update_of_ne apart]
  · have idle : (s.view promise).Idle := stands.idle
    simp only [State.view, Scheduler.releaseHeldIfCurrent_contexts, Scheduler.modify_self,
      Scheduler.releaseHeldIfCurrent_runQueue, own]
    unfold View.Ok
    rw [ended]
    exact ⟨⟨idle.unqueued, idle.unanswered⟩, stands.free, state.imp_right .inl⟩
  · exact inv.entries.keep rfl rfl rfl rfl rfl (by simp [Scheduler.modify]) (by simp [Scheduler.modify]) rfl rfl rfl
      fun _ member => member
  · exact inv.places.keep rfl rfl (fun other waiter held => inv.places.held other waiter
      (Scheduler.held_of_released held).1) (by simp [Scheduler.modify])
  · refine inv.joins.keep (fun _ member => member) rfl (by simp [Scheduler.modify]) fun other => ?_
    by_cases same : other = promise
    · subst same
      simp only [Scheduler.releaseHeldIfCurrent_contexts, Scheduler.modify_self, own]
      refine .inr ⟨?_, targets.trans (inv.joins.noTargets other ?_), by simp [Scheduler.decided, pending]⟩
      · obtain ends | ends := state <;> rw [ends] <;> exact ContextState.noConfusion
      · rw [pending]
        exact fun both => by cases both.1
    · exact .inl (by simp [Scheduler.modify_other _ _ _ same])

theorem deliverJoinResults_alike (sched : Scheduler) (targetId : Nat) (resultCell : Int) (id : Nat) :
    Alike ((sched.deliverJoinResults targetId resultCell).contexts id) (sched.contexts id) := by
  simp only [Scheduler.deliverJoinResults]
  split <;> exact ⟨rfl, rfl, rfl, rfl, rfl, rfl⟩

theorem Inv.deliverResults (inv : Inv s) (targetId : Nat) (resultCell : Int) :
    Inv { s with sched := s.sched.deliverJoinResults targetId resultCell } :=
  inv.quiet (deliverJoinResults_alike s.sched targetId resultCell) rfl rfl rfl rfl rfl

theorem Inv.completePromise (inv : Inv s) (carrier promise : Nat) (outcome : Int ⊕ Nat) :
    Inv (s.completePromise carrier promise outcome) := by
  unfold State.completePromise
  by_cases pending : (s.sched.contexts promise).state = .parkedPromise
  · rw [if_neg (not_not_intro pending)]
    cases outcome with
    | inl result =>
      obtain ⟨decided, settled⟩ := @Inv.settle s carrier inv promise pending
        (fun ctx => { ctx with state := .finished, resultCell := result }) _ rfl (.inl rfl) rfl
      refine (settled.deliverResults promise result).wakeJoiners ?_ false
      have same := (deliverJoinResults_alike (s.sched.markFinished carrier promise result) promise result promise).state
      change Scheduler.decided ((s.sched.markFinished carrier promise result).deliverJoinResults promise result)
        promise = true
      rw [Scheduler.decided, same]
      exact decided
    | inr exc =>
      obtain ⟨decided, settled⟩ := @Inv.settle s carrier inv promise pending
        (fun ctx => { ctx with state := .failed, failExcHeapIdx := exc }) _ rfl (.inr rfl) rfl
      exact settled.wakeJoiners decided true
  · rw [if_pos pending]
    exact inv

theorem goTo_same (stands : s.control id = .on carrier stage) : s.goTo carrier id stage = s := by
  unfold State.goTo
  rw [← stands, Function.update_eq_self]

theorem Inv.native (inv : Inv s) (runs : s.control id = .on carrier .running)
    {change : ExecutionContext → ExecutionContext} {ctx : ExecutionContext} (own : change (s.sched.contexts id) = ctx)
    (state : ctx.state = .runnable ∨ ctx.state = .blockedNative)
    (framesParked : ctx.framesParked = (s.sched.contexts id).framesParked)
    (targets : ctx.selectAnyTargets = (s.sched.contexts id).selectAnyTargets) :
    Inv { s with sched := s.sched.modify id change } := by
  have executing := inv.executing runs
  have others : ∀ other, other ≠ id → (s.sched.modify id change).contexts other = s.sched.contexts other :=
    fun other apart => Scheduler.modify_other _ _ _ apart
  rw [← @goTo_same { s with sched := s.sched.modify id change } carrier id .running runs]
  refine inv.stays runs others rfl rfl rfl rfl ⟨?_, inv.places.held, ?_⟩
  · simp only [State.view, Scheduler.modify_self, own]
    exact ⟨⟨executing.idle.unqueued, executing.idle.unanswered⟩, executing.free, state,
      framesParked.trans executing.unparked⟩
  · refine inv.joins.move rfl rfl rfl others (.of_awake executing.state) ?_ (by simp [own, targets])
    simp only [Scheduler.modify_self, own]
    exact (Away.of_awake state).1

theorem Inv.preempt (inv : Inv s) (runs : s.control id = .on carrier .running) :
    Inv (s.goTo carrier id .unwinding) := by
  have executing := inv.executing runs
  refine inv.stays runs (fun _ _ => rfl) rfl rfl rfl rfl ⟨⟨executing.idle.unqueued, executing.unparked, ?_⟩,
    inv.places.held, inv.joins⟩
  obtain awake | blocked := executing.state
  · exact .inl ⟨executing.idle.unanswered, awake, .inl executing.free⟩
  · exact .inr (.inl ⟨executing.idle.unanswered, blocked, executing.free⟩)

theorem Inv.nativeParkForIo (inv : Inv s) (runs : s.control id = .on carrier .running) (fd : Option Nat) (events : Nat)
    (deadline : Option Nat) (suspensionAllowed : Bool) :
    Inv (s.nativeParkForIo carrier id fd events deadline suspensionAllowed) := by
  unfold State.nativeParkForIo
  by_cases armed : (s.sched.contexts id).ioParkArmed = true
  · rw [if_pos armed]
    exact inv.quietOne ⟨rfl, rfl, rfl, rfl, rfl, rfl⟩
  · rw [if_neg armed]
    by_cases answers : ¬ suspensionAllowed = true ∨ fd = none ∧ deadline = none
    · rw [if_pos answers]
      exact inv
    · rw [if_neg answers]
      have absent : s.status .io id = .absent := by
        unfold State.status
        rw [show s.post id = .free from (inv.executing runs).free]
        rfl
      exact inv.parkForIo runs absent fd events deadline

end NLang.Vm.Dispatch
