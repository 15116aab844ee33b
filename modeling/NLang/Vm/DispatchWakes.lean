import NLang.Vm.DispatchSync

/-!
# Parks, wakes and dispatch

The steps on the scheduler alone: parks without a recheck, the landing of frames, the queue, the end of a context,
and the ways in which parked contexts are woken.
-/

namespace NLang.Vm.Dispatch
open NLang.Library.Queues NLang.Library.ParkTables NLang.Vm.Sync

variable {s s' : State} {carrier id : Nat} {table : Table}

theorem Inv.parkAtOnce (inv : Inv s) (runs : s.control id = .on carrier .running) (moves : Moves s s' id table)
    (state : (s'.sched.contexts id).state = table.reason)
    (framesParked : (s'.sched.contexts id).framesParked = (s.sched.contexts id).framesParked)
    (held : ∀ carrier id, s'.sched.held carrier = some id → s.window carrier = some id) (joins : Joins s')
    (own : s'.RowsMatch (Function.update (s.status table) id .parked) table) :
    Inv (s'.parkAtOnce carrier id table) := by
  have executing := inv.executing runs
  have unqueued : s.sched.runQueue.count id = 0 := executing.idle.unqueued
  have unanswered : s.flying.countP (·.id = id) = 0 := executing.idle.unanswered
  refine inv.enter runs moves ⟨⟨?_, framesParked.trans executing.unparked, .inr (.inr ⟨table, state, .inl ⟨rfl, ?_⟩⟩)⟩,
    held, joins⟩ (.inr rfl) ?_
  · simpa only [State.view, moves.runQueue] using unqueued
  · simpa only [State.view, moves.flying] using unanswered
  · simpa [Post.status] using own

theorem Inv.sleep (inv : Inv s) (runs : s.control id = .on carrier .running) (absent : s.status .timer id = .absent)
    (wakeAt : Nat) :
    Inv ({ s with sched := s.sched.parkForTimer carrier id wakeAt }.parkAtOnce carrier id .timer) := by
  have executing := inv.executing runs
  have contexts : ∀ other, other ≠ id →
      (s.sched.parkForTimer carrier id wakeAt).contexts other = s.sched.contexts other := fun other apart => by
    simp [Scheduler.parkForTimer, Scheduler.setState, Scheduler.modify_other _ _ _ apart]
  have own : (s.sched.parkForTimer carrier id wakeAt).contexts id =
      { s.sched.contexts id with state := .parkedTimer } := by
    simp [Scheduler.parkForTimer, Scheduler.setState]
  have timers : (s.sched.parkForTimer carrier id wakeAt).timers = s.sched.timers ++ [{ contextId := id, wakeAt }] := by
    simp [Scheduler.parkForTimer]
  have nextId : (s.sched.parkForTimer carrier id wakeAt).nextId = s.sched.nextId := by
    simp [Scheduler.parkForTimer, Scheduler.setState, Scheduler.modify]
  refine inv.parkAtOnce runs ⟨rfl, contexts, ?_, nextId, ?_⟩ (by rw [own]; rfl) (by rw [own]) ?_ ?_ ?_
  · simp [Scheduler.parkForTimer, Scheduler.setState, Scheduler.modify]
  · intro other apart status rows
    cases other with
    | timer => exact absurd rfl apart
    | io => simpa [State.RowsMatch, Scheduler.parkForTimer, Scheduler.setState, Scheduler.modify] using rows
    | _ => exact rows
  · exact fun other waiter held => inv.places.held other waiter (Scheduler.held_of_released held).1
  · refine inv.joins.move rfl rfl nextId contexts (.of_awake executing.state) ?_ (by rw [own])
    rw [own]
    exact ContextState.noConfusion
  · simp only [State.RowsMatch, timers]
    exact @Matches.park _ _ _ _ _ _ _ (inv.entries.tables .timer) { contextId := id, wakeAt } absent rfl

theorem Inv.parkForIo (inv : Inv s) (runs : s.control id = .on carrier .running) (absent : s.status .io id = .absent)
    (fd : Option Nat) (events : Nat) (deadline : Option Nat) :
    Inv ({ s with sched := s.sched.parkForIo carrier id fd events deadline }.parkAtOnce carrier id .io) := by
  have executing := inv.executing runs
  have contexts : ∀ other, other ≠ id →
      (s.sched.parkForIo carrier id fd events deadline).contexts other = s.sched.contexts other := fun other apart => by
    simp [Scheduler.parkForIo, Scheduler.setState, Scheduler.modify_other _ _ _ apart]
  have own : (s.sched.parkForIo carrier id fd events deadline).contexts id =
      { s.sched.contexts id with state := .parkedIo } := by
    simp [Scheduler.parkForIo, Scheduler.setState]
  have ioWaits : (s.sched.parkForIo carrier id fd events deadline).ioWaits =
      s.sched.ioWaits ++ [{ contextId := id, fd, events, deadline }] := by
    simp [Scheduler.parkForIo]
  have nextId : (s.sched.parkForIo carrier id fd events deadline).nextId = s.sched.nextId := by
    simp [Scheduler.parkForIo, Scheduler.setState, Scheduler.modify]
  refine inv.parkAtOnce runs ⟨rfl, contexts, ?_, nextId, ?_⟩ (by rw [own]; rfl) (by rw [own]) ?_ ?_ ?_
  · simp [Scheduler.parkForIo, Scheduler.setState, Scheduler.modify]
  · intro other apart status rows
    cases other with
    | timer => simpa [State.RowsMatch, Scheduler.parkForIo, Scheduler.setState, Scheduler.modify] using rows
    | io => exact absurd rfl apart
    | _ => exact rows
  · exact fun other waiter held => inv.places.held other waiter (Scheduler.held_of_released held).1
  · refine inv.joins.move rfl rfl nextId contexts (.of_awake executing.state) ?_ (by rw [own])
    rw [own]
    exact ContextState.noConfusion
  · simp only [State.RowsMatch, ioWaits]
    exact @Matches.park _ _ _ _ _ _ _ (inv.entries.tables .io) { contextId := id, fd, events, deadline } absent rfl

theorem Inv.parkOnClassInit (inv : Inv s) (runs : s.control id = .on carrier .running) {owner : Nat}
    (absent : s.status (.classInit owner) id = .absent) :
    Inv ({ s with
      sched := s.sched.parkFor carrier id .parkedClassInit
      classWaiters := Function.update s.classWaiters owner (s.classWaiters owner ++ [id]) }.parkAtOnce
        carrier id (.classInit owner)) := by
  have executing := inv.executing runs
  have contexts : ∀ other, other ≠ id →
      (s.sched.parkFor carrier id .parkedClassInit).contexts other = s.sched.contexts other := fun other apart => by
    simp [Scheduler.parkFor, Scheduler.setState, Scheduler.modify_other _ _ _ apart]
  have own : (s.sched.parkFor carrier id .parkedClassInit).contexts id =
      { s.sched.contexts id with state := .parkedClassInit } := by
    simp [Scheduler.parkFor, Scheduler.setState]
  have nextId : (s.sched.parkFor carrier id .parkedClassInit).nextId = s.sched.nextId := by
    simp [Scheduler.parkFor, Scheduler.setState, Scheduler.modify]
  refine inv.parkAtOnce runs ⟨rfl, contexts, ?_, nextId, ?_⟩ (by rw [own]; rfl) (by rw [own]) ?_ ?_ ?_
  · simp [Scheduler.parkFor, Scheduler.setState, Scheduler.modify]
  · intro other apart status rows
    cases other with
    | timer => simpa [State.RowsMatch, Scheduler.parkFor, Scheduler.setState, Scheduler.modify] using rows
    | io => simpa [State.RowsMatch, Scheduler.parkFor, Scheduler.setState, Scheduler.modify] using rows
    | classInit other =>
      have elsewhere : other ≠ owner := fun same => apart (congrArg Table.classInit same)
      simpa [State.RowsMatch, Function.update_of_ne elsewhere] using rows
    | _ => exact rows
  · exact fun other waiter held => inv.places.held other waiter (parkFor_held held)
  · refine inv.joins.move rfl rfl nextId contexts (.of_awake executing.state) ?_ (by rw [own])
    rw [own]
    exact ContextState.noConfusion
  · simp only [State.RowsMatch, Function.update_self]
    exact @Matches.park _ _ _ _ _ _ _ (inv.entries.tables (.classInit owner)) id absent rfl

structure Alike (now before : ExecutionContext) : Prop where
  state : now.state = before.state
  framesParked : now.framesParked = before.framesParked
  frames : now.frames = before.frames
  lastCarrier : now.lastCarrier = before.lastCarrier
  parkHandle : now.parkHandle = before.parkHandle
  selectAnyTargets : now.selectAnyTargets = before.selectAnyTargets

theorem Alike.refl (ctx : ExecutionContext) : Alike ctx ctx := ⟨rfl, rfl, rfl, rfl, rfl, rfl⟩

theorem Inv.quiet (inv : Inv s) {sched : Scheduler} (contexts : ∀ id, Alike (sched.contexts id) (s.sched.contexts id))
    (runQueue : sched.runQueue = s.sched.runQueue) (nextId : sched.nextId = s.sched.nextId)
    (timers : sched.timers = s.sched.timers) (ioWaits : sched.ioWaits = s.sched.ioWaits)
    (held : sched.held = s.sched.held) : Inv { s with sched } where
  views := by
    intro id
    simp only [State.view, runQueue, (contexts id).state, (contexts id).framesParked, (contexts id).frames,
      (contexts id).lastCarrier]
    exact inv.views id
  entries := inv.entries.keep rfl rfl rfl rfl rfl timers ioWaits rfl rfl rfl fun _ member => member
  places := inv.places.keep rfl rfl (held ▸ inv.places.held) nextId
  joins := inv.joins.keep (fun _ member => member) rfl nextId.ge fun id =>
    .inl ⟨(contexts id).state, (contexts id).parkHandle, (contexts id).selectAnyTargets⟩
  answered := inv.answered

theorem Inv.quietOne (inv : Inv s) {change : ExecutionContext → ExecutionContext}
    (alike : Alike (change (s.sched.contexts id)) (s.sched.contexts id)) :
    Inv { s with sched := s.sched.modify id change } := by
  refine inv.quiet (fun other => ?_) rfl rfl rfl rfl rfl
  by_cases same : other = id
  · subst same
    rw [Scheduler.modify_self]
    exact alike
  · rw [Scheduler.modify_other _ _ _ same]
    exact .refl _

theorem Inv.joinPark (inv : Inv s) (runs : s.control id = .on carrier .running) {targets : List Nat}
    {sched : Scheduler} (contexts : ∀ other, other ≠ id → sched.contexts other = s.sched.contexts other)
    (runQueue : sched.runQueue = s.sched.runQueue) (nextId : sched.nextId = s.sched.nextId)
    (timers : sched.timers = s.sched.timers) (ioWaits : sched.ioWaits = s.sched.ioWaits)
    (held : ∀ other waiter, sched.held other = some waiter → s.sched.held other = some waiter)
    (state : (sched.contexts id).state = .parkedJoin)
    (framesParked : (sched.contexts id).framesParked = (s.sched.contexts id).framesParked)
    (waits : ∀ target, (sched.contexts id).parkHandle = some target ∨
      target ∈ (sched.contexts id).selectAnyTargets.map (·.1) → target ∈ targets)
    (single : (sched.contexts id).parkHandle ≠ none → (sched.contexts id).selectAnyTargets = []) :
    Inv (s.joinPark carrier id targets sched) := by
  have away : Away (s.sched.contexts id).state := .of_awake (inv.executing runs).state
  have moves : Moves s { s with sched, awaited := Function.update s.awaited id targets } id .join :=
    ⟨rfl, contexts, runQueue, nextId, (Moves.ofSched contexts runQueue nextId timers ioWaits .join).rows⟩
  refine inv.parkAtOnce runs moves state framesParked
    (fun other waiter holds => inv.places.held other waiter (held other waiter holds)) ⟨?_, ?_, ?_⟩ trivial
  · intro other target joined awaits
    by_cases same : other = id
    · subst same
      change target ∈ Function.update s.awaited other targets other
      rw [Function.update_self]
      exact waits target awaits
    · have kept : target ∈ s.awaited other := inv.joins.targets other target (contexts other same ▸ joined)
        (contexts other same ▸ awaits)
      change target ∈ Function.update s.awaited id targets other
      rw [Function.update_of_ne same]
      exact kept
  · intro other elsewhere
    by_cases same : other = id
    · subst same
      exact single fun none => elsewhere ⟨state, none⟩
    · have kept := inv.joins.noTargets other (contexts other same ▸ elsewhere)
      exact contexts other same ▸ kept
  · intro entry member
    have decided := inv.joins.deciding entry member
    have apart : entry.1 ≠ id := fun same => by
      rw [same, away.undecided] at decided
      cases decided
    simpa only [Scheduler.decided, nextId, contexts entry.1 apart] using decided

theorem Inv.join (inv : Inv s) (runs : s.control id = .on carrier .running) (targetId : Nat)
    (destination suspensionAllowed : Bool) : Inv (s.join carrier id targetId destination suspensionAllowed) := by
  have noTargets : (s.sched.contexts id).selectAnyTargets = [] :=
    inv.joins.noTargets id fun joined => (Away.of_awake (inv.executing runs).state).1 joined.1
  have parks : Inv (s.joinPark carrier id [targetId]
      ((s.sched.modify id fun ctx => { ctx with joinResultDst := destination || ctx.joinResultDst }).parkForJoin
        carrier id targetId)) := by
    refine inv.joinPark runs (fun other apart => ?_) ?_ ?_ ?_ ?_ ?_ ?_ ?_ ?_ ?_
    · simp [Scheduler.parkForJoin, Scheduler.modify_other _ _ _ apart]
    · simp [Scheduler.parkForJoin, Scheduler.modify]
    · simp [Scheduler.parkForJoin, Scheduler.modify]
    · simp [Scheduler.parkForJoin, Scheduler.modify]
    · simp [Scheduler.parkForJoin, Scheduler.modify]
    · exact fun other waiter held => (Scheduler.held_of_released held).1
    · simp [Scheduler.parkForJoin]
    · simp [Scheduler.parkForJoin]
    · simp [Scheduler.parkForJoin, noTargets]
    · simp [Scheduler.parkForJoin, noTargets]
  unfold State.join
  by_cases invalid : ¬ targetId < s.sched.nextId ∨ targetId = id
  · rw [if_pos invalid]
    exact inv
  · rw [if_neg invalid]
    cases (s.sched.contexts targetId).state with
    | finished => exact inv
    | failed => exact inv.quietOne ⟨rfl, rfl, rfl, rfl, rfl, rfl⟩
    | _ =>
      cases suspensionAllowed with
      | false => exact inv
      | true => exact parks

theorem Inv.selectAny (inv : Inv s) (runs : s.control id = .on carrier .running) (targets : List (Nat × Nat))
    (suspensionAllowed : Bool) : Inv (s.selectAny carrier id targets suspensionAllowed) := by
  have noTargets : (s.sched.contexts id).selectAnyTargets = [] :=
    inv.joins.noTargets id fun joined => (Away.of_awake (inv.executing runs).state).1 joined.1
  unfold State.selectAny
  by_cases settled : (∃ entry ∈ targets, ¬ entry.1 < s.sched.nextId ∨ entry.1 = id) ∨
      (s.sched.decidedIndex targets).isSome
  · rw [if_pos settled]
    exact inv
  · rw [if_neg settled]
    cases suspensionAllowed with
    | false => exact inv
    | true =>
      rw [if_pos rfl, Scheduler.parkForJoinAny]
      cases (s.sched.modify id fun ctx => { ctx with joinResultDst := true }).decidedIndex targets with
      | some won => exact inv
      | none =>
        refine inv.joinPark runs (fun other apart => ?_) ?_ ?_ ?_ ?_ ?_ ?_ ?_ ?_ ?_
        · simp [Scheduler.modify_other _ _ _ apart]
        · simp [Scheduler.modify]
        · simp [Scheduler.modify]
        · simp [Scheduler.modify]
        · simp [Scheduler.modify]
        · exact fun other waiter held => (Scheduler.held_of_released held).1
        · simp
        · simp
        · simp
        · simp

theorem Places.leave (places : Places s) (window : s.window carrier = some id) {control : Control}
    (off : ∀ carrier stage, control ≠ .on carrier stage) (born : control ≠ .unborn)
    (nextId : s'.sched.nextId = s.sched.nextId)
    (held : ∀ other waiter, s'.sched.held other = some waiter →
      s.sched.held other = some waiter ∧ ¬ (other = carrier ∧ waiter = id))
    (controls : s'.control = Function.update s.control id control)
    (windows : s'.window = Function.update s.window carrier none) : Places s' where
  windows := by
    intro other waiter
    rw [windows, controls]
    by_cases same : waiter = id
    · subst same
      rw [Function.update_self]
      refine ⟨fun stands => ?_, fun ⟨stage, equal⟩ => absurd equal (off other stage)⟩
      by_cases here : other = carrier
      · rw [here, Function.update_self] at stands
        cases stands
      · -- a context is on one carrier only
        rw [Function.update_of_ne here] at stands
        obtain ⟨stage, there⟩ := (places.windows other waiter).mp stands
        obtain ⟨_, equal⟩ := (places.windows carrier waiter).mp window
        rw [there] at equal
        cases equal
        exact absurd rfl here
    · rw [Function.update_of_ne same]
      by_cases here : other = carrier
      · subst here
        rw [Function.update_self, ← places.windows other waiter, window]
        exact ⟨(nomatch ·), fun equal => absurd (Option.some.inj equal).symm same⟩
      · rw [Function.update_of_ne here]
        exact places.windows other waiter
  held := by
    intro other waiter holds
    obtain ⟨before, apart⟩ := held other waiter holds
    have stood := places.held other waiter before
    rw [windows]
    by_cases here : other = carrier
    · subst here
      rw [window] at stood
      exact absurd ⟨rfl, (Option.some.inj stood).symm⟩ apart
    · rw [Function.update_of_ne here]
      exact stood
  registry := by
    intro other
    rw [controls, nextId, ← places.registry other]
    by_cases same : other = id
    · subst same
      obtain ⟨stage, stands⟩ := (places.windows carrier other).mp window
      rw [Function.update_self, stands]
      exact ⟨fun equal => absurd equal born, fun equal => Control.noConfusion equal⟩
    · rw [Function.update_of_ne same]

theorem Inv.land (inv : Inv s) (window : s.window carrier = some id)
    (stands : s.control id = .on carrier .unwinding) {frames : List Frame}
    (lands : (s.sched.contexts id).frames ++ frames ≠ []) :
    Inv { s with
      sched := s.sched.landFrames carrier id frames true
      control := Function.update s.control id .landed
      window := Function.update s.window carrier none } := by
  have unwinding : View.Unwinding { s.view id with control := .on carrier .unwinding } := inv.ok_at stands
  have unqueued : s.sched.runQueue.count id = 0 := unwinding.unqueued
  have unparked : (s.sched.contexts id).framesParked = false := unwinding.unparked
  -- the frames and the queue, whatever the state of the context is
  have contexts : ∀ other, other ≠ id →
      (s.sched.landFrames carrier id frames true).contexts other = s.sched.contexts other := by
    intro other apart
    unfold Scheduler.landFrames
    split <;> simp [Scheduler.modify_other _ _ _ apart]
  have own : (s.sched.landFrames carrier id frames true).contexts id =
      { s.sched.contexts id with
        frames := (s.sched.contexts id).frames ++ frames
        framesParked := decide ((s.sched.contexts id).state ≠ .runnable) } := by
    unfold Scheduler.landFrames
    by_cases runnable : (s.sched.contexts id).state = .runnable
    · simp [runnable, ← unparked]
    · simp [runnable]
  have runQueue : (s.sched.landFrames carrier id frames true).runQueue =
      if (s.sched.contexts id).state = .runnable then s.sched.runQueue ++ [id] else s.sched.runQueue := by
    unfold Scheduler.landFrames
    by_cases runnable : (s.sched.contexts id).state = .runnable
    · simp [runnable, Scheduler.modify]
    · simp [runnable, Scheduler.modify]
  have fixed : (s.sched.landFrames carrier id frames true).nextId = s.sched.nextId ∧
      (s.sched.landFrames carrier id frames true).timers = s.sched.timers ∧
      (s.sched.landFrames carrier id frames true).ioWaits = s.sched.ioWaits := by
    unfold Scheduler.landFrames
    split <;> simp [Scheduler.modify]
  refine ⟨views_of id (fun other apart => ?_) inv.views ?_, ?_, ?_, ?_, inv.answered⟩
  · have count : (s.sched.landFrames carrier id frames true).runQueue.count other = s.sched.runQueue.count other := by
      rw [runQueue]
      split
      · simp [List.count_append, Ne.symm apart]
      · rfl
    simp only [State.view, Function.update_of_ne apart, contexts other apart, count]
  · simp only [State.view, Function.update_self, own, runQueue]
    by_cases runnable : (s.sched.contexts id).state = .runnable
    · have awake : s.flying.countP (·.id = id) = 0 ∧ (s.view id).Returned := by
        obtain ⟨unanswered, -, returned⟩ | ⟨-, blocked, -⟩ | ⟨own, asleep⟩ := unwinding.stands
        · exact ⟨unanswered, returned⟩
        · exact absurd (runnable.symm.trans blocked) ContextState.noConfusion
        · have reason : (s.sched.contexts id).state = own.reason := asleep.state
          rw [runnable] at reason
          cases own <;> cases reason
      rw [if_pos runnable]
      refine .inl ⟨?_, awake.1, awake.2, runnable, fun parked => ?_, .inl lands⟩
      · simp [List.count_append, unqueued]
      · simp [runnable] at parked
    · rw [if_neg runnable]
      obtain ⟨-, awake, -⟩ | ⟨unanswered, blocked, free⟩ | ⟨own, asleep⟩ := unwinding.stands
      · exact absurd awake runnable
      · exact .inr (.inl ⟨⟨unqueued, unanswered⟩, free, blocked, fun _ => lands⟩)
      · exact .inr (.inr ⟨own, unqueued, ⟨asleep.state, asleep.entry⟩, by simpa using runnable, fun _ => lands⟩)
  · exact inv.entries.keep rfl rfl rfl rfl rfl fixed.2.1 fixed.2.2 rfl rfl rfl fun _ member => member
  · exact inv.places.leave window (fun _ _ => Control.noConfusion) Control.noConfusion fixed.1
      (fun _ _ => Scheduler.held_of_landed) rfl rfl
  · refine inv.joins.keep (fun _ member => member) rfl fixed.1.ge fun other => .inl ?_
    by_cases same : other = id
    · subst same
      simp [own]
    · simp [contexts other same]

theorem Inv.registered (inv : Inv s) (born : s.control id ≠ .unborn) : id < s.sched.nextId :=
  Nat.lt_of_not_le fun above => born ((inv.places.registry id).mpr above)

theorem Inv.ends (inv : Inv s) (window : s.window carrier = some id) (runs : s.control id = .on carrier .running)
    {change : ExecutionContext → ExecutionContext}
    (state : (change (s.sched.contexts id)).state = .finished ∨ (change (s.sched.contexts id)).state = .failed)
    (targets : (change (s.sched.contexts id)).selectAnyTargets = (s.sched.contexts id).selectAnyTargets)
    (failed : Bool) :
    Inv { s with
      sched := (s.sched.modify id change).releaseHeldIfCurrent carrier id
      control := Function.update s.control id .ended
      window := Function.update s.window carrier none
      deciding := s.deciding ++ [(id, failed)] } := by
  have executing := inv.executing runs
  have away := Away.of_awake executing.state
  refine ⟨views_of id (fun other apart => ?_) inv.views ?_, ?_, ?_, ⟨?_, ?_, ?_⟩, inv.answered⟩
  · simp [State.view, Function.update_of_ne apart, Scheduler.modify]
  · have idle := executing.idle
    simp only [State.view, Function.update_self, Scheduler.releaseHeldIfCurrent_contexts, Scheduler.modify_self,
      Scheduler.releaseHeldIfCurrent_runQueue]
    exact ⟨⟨idle.unqueued, idle.unanswered⟩, executing.free, state.imp_right .inl⟩
  · exact inv.entries.keep rfl rfl rfl rfl rfl (by simp [Scheduler.modify]) (by simp [Scheduler.modify]) rfl rfl rfl
      fun _ member => member
  · exact inv.places.leave window (fun _ _ => Control.noConfusion) Control.noConfusion (by simp [Scheduler.modify])
      (fun _ _ => Scheduler.held_of_released) rfl rfl
  · intro other target joined waits
    by_cases same : other = id
    · subst same
      simp only [Scheduler.releaseHeldIfCurrent_contexts, Scheduler.modify_self] at joined
      obtain ends | ends := state <;> rw [ends] at joined <;> cases joined
    · simp only [Scheduler.releaseHeldIfCurrent_contexts, Scheduler.modify_other _ _ _ same] at joined waits
      exact inv.joins.targets other target joined waits
  · intro other elsewhere
    by_cases same : other = id
    · subst same
      simp only [Scheduler.releaseHeldIfCurrent_contexts, Scheduler.modify_self]
      exact targets.trans (inv.joins.noTargets other fun joined => away.1 joined.1)
    · simp only [Scheduler.releaseHeldIfCurrent_contexts, Scheduler.modify_other _ _ _ same] at elsewhere ⊢
      exact inv.joins.noTargets other elsewhere
  · intro entry member
    simp only [Scheduler.decided, Scheduler.releaseHeldIfCurrent_contexts, Scheduler.releaseHeldIfCurrent_nextId,
      decide_eq_true_eq]
    obtain old | new := List.mem_append.mp member
    · have decided := inv.joins.deciding entry old
      have apart : entry.1 ≠ id := fun same => by
        rw [same, away.undecided] at decided
        cases decided
      rw [Scheduler.modify_other _ _ _ apart]
      simpa [Scheduler.decided, Scheduler.modify] using decided
    · cases List.mem_singleton.mp new
      rw [Scheduler.modify_self]
      exact ⟨inv.registered (by rw [runs]; exact Control.noConfusion), state⟩

theorem View.Ok.queued {v : View} (ok : v.Ok) (queued : v.queued ≠ 0) : v.control = .landed ∧ v.Queued := by
  obtain ⟨control, post, state, framesParked, frames, lastCarrier, count, inFlight⟩ := v
  cases control with
  | unborn => exact absurd ok.idle.unqueued queued
  | ended => exact absurd ok.idle.unqueued queued
  | landed =>
    obtain ok | ok | ⟨own, ok⟩ := ok
    · exact ⟨rfl, ok⟩
    · exact absurd ok.idle.unqueued queued
    · exact absurd ok.unqueued queued
  | on carrier stage =>
    cases stage with
    | popped => exact absurd ok.idle.unqueued queued
    | running => exact absurd ok.idle.unqueued queued
    | registered own => exact absurd ok.1.idle.unqueued queued
    | migrated own => exact absurd ok.1.idle.unqueued queued
    | aborting =>
      obtain ⟨own, ok⟩ := ok
      exact absurd ok.idle.unqueued queued
    | unwinding => exact absurd ok.unqueued queued

theorem Inv.pop (inv : Inv s) (free : s.window carrier = none) {sched : Scheduler}
    (popped : s.sched.popNextRunnable carrier = some (id, sched)) :
    Inv { s with
      sched
      control := Function.update s.control id (.on carrier .popped)
      window := Function.update s.window carrier (some id) } := by
  obtain ⟨before, after, split, rfl⟩ := Scheduler.popNextRunnable_removed popped
  obtain ⟨landed, queued⟩ := (inv.views id).queued (by simp [State.view, split])
  have landed : s.control id = .landed := landed
  have left : (before ++ after).count id = 0 := by
    have once : s.sched.runQueue.count id = 1 := queued.once
    simp only [split, List.count_append, List.count_cons_self] at once ⊢
    omega
  refine ⟨views_of id (fun other apart => ?_) inv.views ?_, ?_, ⟨?_, ?_, ?_⟩, ?_, inv.answered⟩
  · simp [State.view, Function.update_of_ne apart, Scheduler.dispatchedToCarrier, Scheduler.modify, split,
      List.count_cons_of_ne (Ne.symm apart)]
  · simp only [State.view, Function.update_self, Scheduler.dispatchedToCarrier, Scheduler.modify]
    exact ⟨⟨left, queued.unanswered⟩, queued.returned, queued.state, queued.frames⟩
  · exact inv.entries.keep rfl rfl rfl rfl rfl rfl rfl rfl rfl rfl fun _ member => member
  · intro other waiter
    change Function.update s.window carrier (some id) other = some waiter ↔
      ∃ stage, Function.update s.control id (.on carrier .popped) waiter = .on other stage
    by_cases same : waiter = id
    · subst same
      rw [Function.update_self]
      by_cases here : other = carrier
      · subst here
        rw [Function.update_self]
        exact ⟨fun _ => ⟨_, rfl⟩, fun _ => rfl⟩
      · rw [Function.update_of_ne here, inv.places.windows other waiter, landed]
        constructor
        · rintro ⟨_, ⟨⟩⟩
        · rintro ⟨_, ⟨⟩⟩
          exact absurd rfl here
    · rw [Function.update_of_ne same, ← inv.places.windows other waiter]
      by_cases here : other = carrier
      · subst here
        rw [Function.update_self, free]
        exact ⟨fun equal => absurd (Option.some.inj equal).symm same, fun equal => by cases equal⟩
      · rw [Function.update_of_ne here]
  · intro other waiter holds
    change Function.update s.sched.held carrier (some id) other = some waiter at holds
    change Function.update s.window carrier (some id) other = some waiter
    by_cases here : other = carrier
    · subst here
      rw [Function.update_self] at holds ⊢
      exact holds
    · rw [Function.update_of_ne here] at holds ⊢
      exact inv.places.held other waiter holds
  · intro other
    change Function.update s.control id (.on carrier .popped) other = .unborn ↔ s.sched.nextId ≤ other
    rw [← inv.places.registry other]
    by_cases same : other = id
    · subst same
      rw [Function.update_self, landed]
      exact ⟨fun equal => (by cases equal), fun equal => (by cases equal)⟩
    · rw [Function.update_of_ne same]
  · refine inv.joins.keep (fun _ member => member) rfl (Nat.le_refl _) fun other => .inl ?_
    by_cases same : other = id
    · subst same
      simp [Scheduler.dispatchedToCarrier, Scheduler.modify]
    · simp [Scheduler.dispatchedToCarrier, Scheduler.modify, Function.update_of_ne same]

theorem Inv.born (inv : Inv s) {ctx : ExecutionContext} {control : Control} {queue : List Nat}
    (off : ∀ carrier stage, control ≠ .on carrier stage) (born : control ≠ .unborn)
    (state : ctx.state ≠ .parkedJoin) (targets : ctx.selectAnyTargets = [])
    (others : ∀ other, other ≠ s.sched.nextId → queue.count other = s.sched.runQueue.count other)
    (ok : View.Ok
      { control
        post := .free
        state := ctx.state
        framesParked := ctx.framesParked
        frames := ctx.frames
        lastCarrier := ctx.lastCarrier
        queued := queue.count s.sched.nextId
        inFlight := 0 }) :
    Inv { s with
      sched := { s.sched with
        contexts := Function.update s.sched.contexts s.sched.nextId ctx
        nextId := s.sched.nextId + 1
        runQueue := queue }
      control := Function.update s.control s.sched.nextId control } := by
  have unborn : s.control s.sched.nextId = .unborn := (inv.places.registry _).mpr (Nat.le_refl _)
  have nowhere : View.Unborn { s.view s.sched.nextId with control := .unborn } := by
    have ok := inv.views s.sched.nextId
    unfold View.Ok at ok
    rw [show (s.view s.sched.nextId).control = .unborn from unborn] at ok
    exact ⟨⟨ok.idle.unqueued, ok.idle.unanswered⟩, ok.free, ok.state⟩
  refine ⟨views_of s.sched.nextId (fun other apart => ?_) inv.views ?_, ?_, ⟨?_, inv.places.held, ?_⟩, ?_, inv.answered⟩
  · simp [State.view, Function.update_of_ne apart, others other apart]
  · have post : s.post s.sched.nextId = .free := nowhere.free
    have unanswered : s.flying.countP (·.id = s.sched.nextId) = 0 := nowhere.idle.unanswered
    simp only [State.view, Function.update_self, post, unanswered]
    exact ok
  · exact inv.entries.keep rfl rfl rfl rfl rfl rfl rfl rfl rfl rfl fun _ member => member
  · intro other waiter
    change s.window other = some waiter ↔
      ∃ stage, Function.update s.control s.sched.nextId control waiter = .on other stage
    rw [inv.places.windows other waiter]
    by_cases same : waiter = s.sched.nextId
    · rw [same, Function.update_self, unborn]
      constructor
      · rintro ⟨_, ⟨⟩⟩
      · rintro ⟨stage, there⟩
        exact absurd there (off other stage)
    · rw [Function.update_of_ne same]
  · intro other
    change Function.update s.control s.sched.nextId control other = .unborn ↔ s.sched.nextId + 1 ≤ other
    by_cases same : other = s.sched.nextId
    · rw [same, Function.update_self]
      exact ⟨fun equal => absurd equal born, fun above => absurd above (Nat.not_succ_le_self _)⟩
    · rw [Function.update_of_ne same, inv.places.registry other]
      omega
  · refine inv.joins.keep (fun _ member => member) rfl (Nat.le_succ _) fun other => ?_
    by_cases same : other = s.sched.nextId
    · subst same
      simp only [Function.update_self]
      exact .inr ⟨state, targets, by simp [Scheduler.decided]⟩
    · exact .inl (by simp [Function.update_of_ne same])

theorem Inv.spawn (inv : Inv s) (root : Frame) :
    Inv { s with
      sched := s.sched.registerContext [root]
      control := Function.update s.control s.sched.nextId .landed } := by
  have unqueued : s.sched.runQueue.count s.sched.nextId = 0 := by
    refine List.count_eq_zero_of_not_mem fun member => ?_
    obtain ⟨landed, -⟩ := (inv.views s.sched.nextId).queued (List.count_pos_iff.mpr member).ne'
    rw [show (s.view s.sched.nextId).control = .unborn from (inv.places.registry _).mpr (Nat.le_refl _)] at landed
    cases landed
  refine @Inv.born s inv { frames := [root] } .landed (s.sched.runQueue ++ [s.sched.nextId])
    (fun _ _ => Control.noConfusion) Control.noConfusion ContextState.noConfusion rfl (fun other apart => ?_)
    (.inl ⟨?_, rfl, .inl rfl, rfl, (nomatch ·), .inr rfl⟩)
  · simp [List.count_append, Ne.symm apart]
  · simp [List.count_append, unqueued]

theorem Inv.newPromise (inv : Inv s) :
    Inv { s with
      sched := s.sched.registerParkedPromiseContext
      control := Function.update s.control s.sched.nextId .ended } := by
  have idle : (s.view s.sched.nextId).queued = 0 := by
    by_contra queued
    obtain ⟨landed, -⟩ := (inv.views s.sched.nextId).queued queued
    rw [show (s.view s.sched.nextId).control = .unborn from (inv.places.registry _).mpr (Nat.le_refl _)] at landed
    cases landed
  exact @Inv.born s inv { state := .parkedPromise } .ended s.sched.runQueue (fun _ _ => Control.noConfusion)
    Control.noConfusion ContextState.noConfusion rfl (fun _ _ => rfl) ⟨⟨idle, rfl⟩, rfl, .inr (.inr rfl)⟩

structure Wakes (sched now : Scheduler) (id : Nat) : Prop where
  others : ∀ other, other ≠ id → now.contexts other = sched.contexts other
  state : (now.contexts id).state = .runnable
  framesParked : (now.contexts id).framesParked = (sched.contexts id).framesParked
  frames : (now.contexts id).frames = (sched.contexts id).frames
  lastCarrier : (now.contexts id).lastCarrier = (sched.contexts id).lastCarrier
  selectAnyTargets : (now.contexts id).selectAnyTargets = (sched.contexts id).selectAnyTargets
  runQueue : now.runQueue = sched.runQueue ++ if (sched.contexts id).framesParked then [id] else []
  nextId : now.nextId = sched.nextId
  timers : now.timers = sched.timers
  ioWaits : now.ioWaits = sched.ioWaits
  held : now.held = sched.held

theorem wakeIn_wakes {sched : Scheduler} (state : (sched.contexts id).state = table.reason) :
    Wakes sched (State.wakeIn sched table id) id := by
  have plain : ∀ now : Scheduler, now = sched.wakeFor id → Wakes sched now id := by
    rintro _ rfl
    refine ⟨fun other apart => Function.update_of_ne apart _ _, ?_, ?_, ?_, ?_, ?_, ?_, rfl, rfl, rfl, rfl⟩
    · simp [Scheduler.wakeFor, Scheduler.setState, Scheduler.modify]
    · simp [Scheduler.wakeFor, Scheduler.setState, Scheduler.modify]
    · simp [Scheduler.wakeFor, Scheduler.setState, Scheduler.modify]
    · simp [Scheduler.wakeFor, Scheduler.setState, Scheduler.modify]
    · simp [Scheduler.wakeFor, Scheduler.setState, Scheduler.modify]
    · by_cases parked : (sched.contexts id).framesParked = true
      · simp [Scheduler.wakeFor, parked]
      · simp [Scheduler.wakeFor, parked]
  by_cases io : table = .io
  · subst io
    have parked : (sched.contexts id).state = .parkedIo := state
    simp only [State.wakeIn, if_pos, Scheduler.wakeForIo, parked, ne_eq, not_true_eq_false, if_false]
    refine ⟨fun other apart => ?_, ?_, ?_, ?_, ?_, ?_, ?_, rfl, rfl, rfl, rfl⟩
    · simp [Scheduler.wakeFor, Scheduler.setState, Scheduler.modify, Function.update_of_ne apart]
    · simp [Scheduler.wakeFor, Scheduler.setState, Scheduler.modify]
    · simp [Scheduler.wakeFor, Scheduler.setState, Scheduler.modify]
    · simp [Scheduler.wakeFor, Scheduler.setState, Scheduler.modify]
    · simp [Scheduler.wakeFor, Scheduler.setState, Scheduler.modify]
    · simp [Scheduler.wakeFor, Scheduler.setState, Scheduler.modify]
    · by_cases parked : (sched.contexts id).framesParked = true
      · simp [Scheduler.wakeFor, Scheduler.modify, parked]
      · simp [Scheduler.wakeFor, Scheduler.modify, parked]
  · exact plain _ (if_neg io)

theorem Inv.woken (inv : Inv s) {wake : Wake} {rest : List Wake} (flies : s.flying.Perm (wake :: rest)) :
    (s.deliver wake).astray = false ∧
      Inv { s with sched := State.wakeIn s.sched wake.table wake.id, flying := rest } := by
  have member : wake ∈ s.flying := flies.symm.subset (List.mem_cons_self ..)
  obtain ⟨post, park, apart⟩ := inv.entries.flying wake member
  have counted : s.flying.countP (·.id = wake.id) = rest.countP (·.id = wake.id) + 1 := by
    rw [flies.countP_eq, List.countP_cons_of_pos (by simp)]
  obtain ⟨state, once, ok⟩ := (inv.views wake.id).woken post (by
    change s.flying.countP (·.id = wake.id) ≠ 0
    omega)
  have state : (s.sched.contexts wake.id).state = wake.table.reason := state
  have wakes := wakeIn_wakes state
  have left : rest.countP (·.id = wake.id) = 0 := by
    change s.flying.countP (·.id = wake.id) = 1 at once
    omega
  have away : Away wake.table.reason := by
    cases table : wake.table <;> first
      | exact absurd table apart
      | exact ⟨ContextState.noConfusion, ContextState.noConfusion, ContextState.noConfusion⟩
  refine ⟨?_, views_of wake.id (fun other apart => ?_) inv.views ?_, ?_, ?_, ?_, inv.answered⟩
  · simp [State.deliver, inv.answered, state, park]
  · have others : rest.countP (·.id = other) = s.flying.countP (·.id = other) := by
      rw [flies.countP_eq, List.countP_cons_of_neg (by simpa using Ne.symm apart)]
    have queue : (State.wakeIn s.sched wake.table wake.id).runQueue.count other = s.sched.runQueue.count other := by
      rw [wakes.runQueue, List.count_append]
      split <;> simp [Ne.symm apart]
    simp only [State.view, wakes.others other apart, others, queue]
  · have queue : (State.wakeIn s.sched wake.table wake.id).runQueue.count wake.id =
        s.sched.runQueue.count wake.id + if (s.sched.contexts wake.id).framesParked then 1 else 0 := by
      rw [wakes.runQueue, List.count_append]
      split <;> simp
    simp only [State.view, wakes.state, wakes.framesParked, wakes.frames, wakes.lastCarrier, queue, left]
    exact ok
  · exact inv.entries.keep rfl rfl rfl rfl rfl wakes.timers wakes.ioWaits rfl rfl rfl fun other present =>
      flies.symm.subset (List.mem_cons_of_mem _ present)
  · exact inv.places.keep rfl rfl (wakes.held ▸ inv.places.held) wakes.nextId
  · refine inv.joins.move rfl rfl wakes.nextId wakes.others (state ▸ away) ?_ wakes.selectAnyTargets
    rw [wakes.state]
    exact ContextState.noConfusion

theorem Inv.deliver (inv : Inv s) {index : Nat} {wake : Wake} (flies : s.flying[index]? = some wake) :
    Inv { s.deliver wake with flying := s.flying.eraseIdx index } := by
  obtain ⟨inside, rfl⟩ := List.getElem?_eq_some_iff.mp flies
  obtain ⟨answered, woken⟩ := inv.woken (List.getElem_cons_eraseIdx_perm inside).symm
  exact ⟨woken.views, ⟨woken.entries.tables, woken.entries.parks, woken.entries.flying⟩,
    ⟨woken.places.windows, woken.places.held, woken.places.registry⟩,
    ⟨woken.joins.targets, woken.joins.noTargets, woken.joins.deciding⟩, answered⟩

theorem Inv.wokenAll (inv : Inv s) {woken : List Nat} {rest : List Wake}
    (flies : s.flying.Perm (rest ++ woken.map fun id => { table, id, park := s.park id })) :
    Inv { s with
      sched := woken.foldl (fun sched id => State.wakeIn sched table id) s.sched
      flying := rest } := by
  induction woken generalizing s with
  | nil =>
    rw [List.map_nil, List.append_nil] at flies
    refine ⟨fun id => ?_, ?_, ?_, ?_, inv.answered⟩
    · have ok := inv.views id
      simp only [State.view, flies.countP_eq] at ok ⊢
      exact ok
    · exact inv.entries.keep rfl rfl rfl rfl rfl rfl rfl rfl rfl rfl fun _ member => flies.symm.subset member
    · exact ⟨inv.places.windows, inv.places.held, inv.places.registry⟩
    · exact ⟨inv.joins.targets, inv.joins.noTargets, inv.joins.deciding⟩
  | cons id more ih =>
    rw [List.map_cons] at flies
    obtain ⟨-, first⟩ := inv.woken (flies.trans List.perm_middle)
    exact ih first (.refl _)

theorem Inv.answer (inv : Inv s) (touches : Touches s s' table) (apart : table ≠ .join) {woken ordered : List Nat}
    (nodup : woken.Nodup) (parked : ∀ id ∈ woken, s.status table id = .parked)
    (own : s'.RowsMatch (fun id => if id ∈ woken then .absent else s.status table id) table)
    (order : woken.Perm ordered) :
    Inv ({ s' with
      sched := ordered.foldl (fun sched id => State.wakeIn sched table id) s'.sched }.answer table woken) := by
  have parks : ∀ id ∈ woken, s.entryPark table id = s.park id := fun id member =>
    inv.entries.parks id table (.inr (Post.status_parked (parked id member)))
  have served := inv.serve touches apart nodup parked own
  have flies : (s'.serve table woken).flying.Perm
      (s'.flying ++ ordered.map fun id => { table, id, park := (s'.serve table woken).park id }) := by
    refine List.Perm.append_left _ ?_
    refine (List.Perm.of_eq (List.map_congr_left fun id member => ?_)).trans (order.map _)
    rw [touches.entryPark, parks id member]
    exact congrArg (fun park => ({ table, id, park } : Wake)) (congrFun touches.park id).symm
  have woke := served.wokenAll flies
  have answered : (s'.astray || woken.any fun id => s'.entryPark table id ≠ s'.park id) = false := by
    rw [touches.astray, inv.answered, touches.entryPark, touches.park]
    simpa using parks
  unfold State.answer
  rw [answered]
  rw [show false = s'.astray from (touches.astray.trans inv.answered).symm]
  exact woke

theorem Inv.harvest (inv : Inv s) (hit : IoWaitEntry → Bool) : Inv (s.harvest hit) := by
  have rows : Matches IoWaitEntry.contextId (fun _ => true) true s.sched.ioWaits (s.status .io) :=
    inv.entries.tables .io
  have touches : Touches s { s with
      sched := { s.sched with ioWaits := s.sched.ioWaits.filter fun entry => ¬ hit entry = true } } .io := by
    refine ⟨rfl, fun other apart status rows => ?_⟩
    cases other with
    | io => exact absurd rfl apart
    | _ => exact rows
  have woken := inv.answer touches Table.noConfusion (rows.keys_nodup hit)
    (fun id member => by
      obtain ⟨entry, present, rfl⟩ := List.mem_map.mp member
      exact (rows.status_of_mem (List.mem_filter.mp present).1).2.1 rfl)
    (rows.removed hit) (.refl _)
  have folded (left : List IoWaitEntry) (entries : List IoWaitEntry) :
      entries.foldl (fun sched entry => sched.wakeForIo entry.contextId) { s.sched with ioWaits := left } =
        { entries.foldl (fun sched entry => sched.wakeForIo entry.contextId) s.sched with ioWaits := left } := by
    refine List.foldl_hom (fun sched : Scheduler => { sched with ioWaits := left }) fun sched entry => ?_
    unfold Scheduler.wakeForIo
    split <;> rfl
  unfold State.harvest Scheduler.harvest
  rw [← folded]
  rw [List.foldl_map] at woken
  exact woken

theorem Inv.expireTimers (inv : Inv s) (now : Nat) :
    Inv ({ s with sched := s.sched.expireDueTimers now }.answer .timer (s.timersDue now)) := by
  have rows : Matches TimerEntry.contextId (fun _ => true) true s.sched.timers (s.status .timer) :=
    inv.entries.tables .timer
  -- no entry is stale: the context of each is parked on its timer
  have sleeping : (s.sched.timers.filter fun entry => (s.sched.contexts entry.contextId).state = .parkedTimer) =
      s.sched.timers := by
    refine List.filter_eq_self.mpr fun entry member => ?_
    have parked := Post.status_parked ((rows.status_of_mem member).2.1 rfl)
    have state : (s.sched.contexts entry.contextId).state = .parkedTimer :=
      ((inv.views entry.contextId).answered parked).1
    simpa using state
  have touches : Touches s { s with
      sched := { s.sched with timers := s.sched.timers.filter fun entry => ¬ entry.wakeAt ≤ now } } .timer := by
    refine ⟨rfl, fun other apart status rows => ?_⟩
    cases other with
    | timer => exact absurd rfl apart
    | _ => exact rows
  have due : ((s.sched.timers.filter (·.wakeAt ≤ now)).map (·.contextId)).Perm
      (((s.sched.timers.filter (·.wakeAt ≤ now)).mergeSort fun entry later => entry.wakeAt ≤ later.wakeAt).map
        (·.contextId)) := (List.mergeSort_perm _ _).symm.map _
  have removed := rows.removed fun entry => decide (entry.wakeAt ≤ now)
  have woken := inv.answer touches Table.noConfusion (rows.keys_nodup fun entry => decide (entry.wakeAt ≤ now))
    (fun id member => by
      obtain ⟨entry, present, rfl⟩ := List.mem_map.mp member
      exact (rows.status_of_mem (List.mem_filter.mp present).1).2.1 rfl)
    (by simpa [State.RowsMatch] using removed) due
  have folded (left entries : List TimerEntry) :
      entries.foldl (fun sched entry => sched.wakeFor entry.contextId) { s.sched with timers := left } =
        { entries.foldl (fun sched entry => sched.wakeFor entry.contextId) s.sched with timers := left } :=
    List.foldl_hom (fun sched : Scheduler => { sched with timers := left }) fun _ _ => rfl
  unfold State.timersDue Scheduler.expireDueTimers
  simp only [sleeping]
  rw [← folded]
  rw [List.foldl_map] at woken
  exact woken

theorem Inv.closeFd (inv : Inv s) (fd : Nat) :
    Inv ({ s with sched := (s.sched.takeIoWaitersForFd fd).2 }.serve .io (s.sched.takeIoWaitersForFd fd).1) := by
  have rows : Matches IoWaitEntry.contextId (fun _ => true) true s.sched.ioWaits (s.status .io) :=
    inv.entries.tables .io
  have touches : Touches s { s with sched := (s.sched.takeIoWaitersForFd fd).2 } .io := by
    refine ⟨rfl, fun other apart status rows => ?_⟩
    cases other with
    | io => exact absurd rfl apart
    | _ => exact rows
  have removed := rows.removed fun entry => decide (entry.fd = some fd)
  simp only [decide_eq_true_eq] at removed
  exact inv.serve touches Table.noConfusion (rows.keys_nodup fun entry => decide (entry.fd = some fd))
    (fun id member => by
      obtain ⟨entry, present, rfl⟩ := List.mem_map.mp member
      exact (rows.status_of_mem (List.mem_filter.mp present).1).2.1 rfl)
    removed

theorem Inv.wakeClassInit (inv : Inv s) (owner : Nat) :
    Inv ({ s with classWaiters := Function.update s.classWaiters owner [] }.serve (.classInit owner)
      (s.classWaiters owner)) := by
  have rows : Matches id (fun _ => true) true (s.classWaiters owner) (s.status (.classInit owner)) :=
    inv.entries.tables (.classInit owner)
  have touches : Touches s { s with classWaiters := Function.update s.classWaiters owner [] } (.classInit owner) := by
    refine ⟨rfl, fun other apart status rows => ?_⟩
    cases other with
    | classInit own =>
      have elsewhere : own ≠ owner := fun same => apart (congrArg Table.classInit same)
      simpa [State.RowsMatch, Function.update_of_ne elsewhere] using rows
    | _ => exact rows
  have nodup := rows.keys_nodup fun _ => true
  have removed := rows.removed fun _ => true
  exact inv.serve touches Table.noConfusion (by simpa using nodup)
    (fun id member => (rows.status_of_mem member).2.1 rfl)
    (by simpa [State.RowsMatch] using removed)

end NLang.Vm.Dispatch
