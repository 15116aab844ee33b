import NLang.Library.Outcomes
import NLang.Vm.DispatchOnce

/-!
# The expiry of timers

The timer table against a record of the sleeps: the runs of the dispatch machine, observed for who is parked on a timer
and until when.
-/

namespace NLang.Vm.Dispatch
open NLang.Library NLang.Library.Queues NLang.Library.ParkTables NLang.Library.Runs

structure Sleep where
  id : Nat
  wakeAt : Nat
  park : Nat

def Sleep.entry (sleep : Sleep) : TimerEntry := { contextId := sleep.id, wakeAt := sleep.wakeAt }

def Sleep.Lasts (s : State) (sleep : Sleep) : Prop :=
  (s.sched.contexts sleep.id).state = .parkedTimer ∧ s.park sleep.id = sleep.park

instance (s : State) (sleep : Sleep) : Decidable (sleep.Lasts s) := inferInstanceAs (Decidable (_ ∧ _))

def begun (s s' : State) : Action → List Sleep
  | .sleep carrier wakeAt true => (s.running carrier).toList.map fun id => { id, wakeAt, park := s'.park id }
  | _ => []

structure Observed where
  state : State
  sleeps : List Sleep

def Observed.start : Observed := { state := State.start, sleeps := [] }

def Observed.step (o : Observed) (action : Action) : Option Observed :=
  (o.state.step action).map fun s' =>
    { state := s', sleeps := (o.sleeps ++ begun o.state s' action).filter fun sleep => sleep.Lasts s' }

structure Expires (o : Observed) (now : Nat) (order : List Sleep) : Prop where
  due : order.Perm (o.sleeps.filter (·.wakeAt ≤ now))
  once : (order.map (·.id)).Nodup
  byDeadline : order.Pairwise (·.wakeAt ≤ ·.wakeAt)
  ties : ∀ deadline, order.filter (·.wakeAt = deadline) =
    (o.sleeps.filter (·.wakeAt ≤ now)).filter (·.wakeAt = deadline)
  woken : ∀ id, ((o.state.sched.expireDueTimers now).contexts id) =
    if id ∈ order.map (·.id) then { o.state.sched.contexts id with state := .runnable } else o.state.sched.contexts id
  queued : (o.state.sched.expireDueTimers now).runQueue =
    o.state.sched.runQueue ++ (order.map (·.id)).filter fun id => (o.state.sched.contexts id).framesParked
  later : (o.state.sched.expireDueTimers now).timers = (o.sleeps.filter (now < ·.wakeAt)).map Sleep.entry

structure TimersExact (o : Observed) : Prop where
  asleep : ∀ id, (o.state.sched.contexts id).state = .parkedTimer ↔ ∃ sleep ∈ o.sleeps, sleep.id = id
  expires : ∀ now, ∃ order, Expires o now order

section Steps
variable {s s' s'' : State} {carrier id : Nat} {table : Table}

structure Quiet (s s' : State) : Prop where
  timers : s'.sched.timers = s.sched.timers
  parks : s'.entryPark .timer = s.entryPark .timer
  flying : ∀ wake ∈ s'.flying, wake.table = .timer → wake ∈ s.flying

theorem Quiet.of_eq (timers : s'.sched.timers = s.sched.timers) (parks : s'.entryPark = s.entryPark)
    (flying : s'.flying = s.flying) : Quiet s s' :=
  ⟨timers, congrFun parks .timer, fun _ member _ => flying ▸ member⟩

theorem Quiet.refl (s : State) : Quiet s s := .of_eq rfl rfl rfl

theorem Quiet.trans (first : Quiet s s') (second : Quiet s' s'') : Quiet s s'' :=
  ⟨second.timers.trans first.timers, second.parks.trans first.parks,
    fun wake member timer => first.flying wake (second.flying wake member timer) timer⟩

theorem Quiet.register (quiet : Quiet s s') (apart : table ≠ .timer) : Quiet s (s'.register carrier id table) :=
  ⟨quiet.timers, (Function.update_of_ne apart.symm _ _).trans quiet.parks, quiet.flying⟩

theorem Quiet.parkAtOnce (quiet : Quiet s s') (apart : table ≠ .timer) : Quiet s (s'.parkAtOnce carrier id table) :=
  ⟨quiet.timers, (Function.update_of_ne apart.symm _ _).trans quiet.parks, quiet.flying⟩

theorem Quiet.serve {woken : List Nat} (quiet : Quiet s s') (apart : table ≠ .timer) :
    Quiet s (s'.serve table woken) := by
  refine ⟨quiet.timers, quiet.parks, ?_⟩
  intro wake member timer
  rcases List.mem_append.mp member with before | new
  · exact quiet.flying wake before timer
  · obtain ⟨id, -, rfl⟩ := List.mem_map.mp new
    exact absurd timer apart

theorem quiet_recheckEntry {parks : Bool} (found : s.recheckEntry id table = .ok (parks, s')) : Quiet s s' := by
  cases table with
  | mutex handle =>
    obtain ⟨stamp, -, same⟩ := except_map_ok.mp found
    cases same
    exact .of_eq rfl rfl rfl
  | rmutex handle =>
    obtain ⟨stamp, -, same⟩ := except_map_ok.mp found
    cases same
    exact .of_eq rfl rfl rfl
  | semaphore handle =>
    obtain ⟨stamp, -, same⟩ := except_map_ok.mp found
    cases same
    exact .of_eq rfl rfl rfl
  | chanRecv handle =>
    obtain ⟨stamp, -, same⟩ := except_map_ok.mp found
    cases same
    exact .of_eq rfl rfl rfl
  | chanSend handle =>
    obtain ⟨stamp, -, same⟩ := except_map_ok.mp found
    cases same
    exact .of_eq rfl rfl rfl
  | classInit => cases found
  | timer => cases found
  | io => cases found
  | join => cases found

theorem quiet_recheck : Quiet s (s.recheck carrier id table) := by
  unfold State.recheck
  split
  · exact .of_eq rfl rfl rfl
  · rename_i after found
    exact (quiet_recheckEntry found).trans (.of_eq rfl rfl rfl)
  · rename_i after found
    exact (quiet_recheckEntry found).trans (.of_eq rfl rfl rfl)

theorem wakeForIo_timers (sched : Scheduler) (id : Nat) : (sched.wakeForIo id).timers = sched.timers := by
  unfold Scheduler.wakeForIo
  split
  · rfl
  · rfl

theorem wakeIn_timers (sched : Scheduler) (table : Table) (id : Nat) :
    (State.wakeIn sched table id).timers = sched.timers := by
  unfold State.wakeIn
  split
  · exact wakeForIo_timers sched id
  · rfl

theorem quiet_harvest (hit : IoWaitEntry → Bool) : Quiet s (s.harvest hit) := by
  have folded (entries : List IoWaitEntry) (sched : Scheduler) :
      (entries.foldl (fun sched entry => sched.wakeForIo entry.contextId) sched).timers = sched.timers := by
    induction entries generalizing sched with
    | nil => rfl
    | cons entry rest ih => exact (ih _).trans (wakeForIo_timers sched entry.contextId)
  exact .of_eq (folded _ s.sched) rfl rfl

theorem wakeJoiners_timers (sched : Scheduler) (targetId : Nat) (failed : Bool) :
    (sched.wakeJoiners targetId failed).timers = sched.timers := by
  unfold Scheduler.wakeJoiners
  split
  · rfl
  · rfl

theorem landFrames_timers (sched : Scheduler) (frames : List Frame) :
    (sched.landFrames carrier id frames true).timers = sched.timers := by
  unfold Scheduler.landFrames
  split
  · simp [Scheduler.modify]
  · simp [Scheduler.modify]

theorem quiet_completePromise {promise : Nat} {outcome : Int ⊕ Nat} :
    Quiet s (s.completePromise carrier promise outcome) := by
  unfold State.completePromise
  split
  · exact .refl s
  · cases outcome with
    | inl result =>
      exact .of_eq ((wakeJoiners_timers _ promise false).trans (Scheduler.releaseHeldIfCurrent_timers _ _ _)) rfl rfl
    | inr exc =>
      exact .of_eq ((wakeJoiners_timers _ promise true).trans (Scheduler.releaseHeldIfCurrent_timers _ _ _)) rfl rfl

theorem quiet_join {targetId : Nat} {destination suspensionAllowed : Bool} :
    Quiet s (s.join carrier id targetId destination suspensionAllowed) := by
  unfold State.join
  split
  · exact .refl s
  · split
    · exact .refl s
    · exact .of_eq rfl rfl rfl
    · split
      · exact Quiet.parkAtOnce (.of_eq (Scheduler.releaseHeldIfCurrent_timers _ _ _) rfl rfl) Table.noConfusion
      · exact .refl s

theorem quiet_selectAny {targets : List (Nat × Nat)} {suspensionAllowed : Bool} :
    Quiet s (s.selectAny carrier id targets suspensionAllowed) := by
  unfold State.selectAny Scheduler.parkForJoinAny
  split
  · exact .refl s
  · split
    · cases (s.sched.modify id fun ctx => { ctx with joinResultDst := true }).decidedIndex targets with
      | some won => exact .refl s
      | none => exact Quiet.parkAtOnce (.of_eq (Scheduler.releaseHeldIfCurrent_timers _ _ _) rfl rfl) Table.noConfusion
    · exact .refl s

theorem quiet_nativeParkForIo {events : Nat} {fd deadline : Option Nat} {suspensionAllowed : Bool} :
    Quiet s (s.nativeParkForIo carrier id fd events deadline suspensionAllowed) := by
  unfold State.nativeParkForIo
  split
  · exact .of_eq rfl rfl rfl
  · split
    · exact .refl s
    · exact Quiet.parkAtOnce (.of_eq (Scheduler.releaseHeldIfCurrent_timers _ _ _) rfl rfl) Table.noConfusion

theorem quiet_channelSend {handle value : Nat} {suspensionAllowed : Bool} :
    Quiet s (s.channelSend carrier id handle value suspensionAllowed) := by
  unfold State.channelSend
  split
  · exact .refl s
  · exact Quiet.serve (.of_eq rfl rfl rfl) Table.noConfusion
  · exact .of_eq rfl rfl rfl
  · exact Quiet.register (.of_eq rfl rfl rfl) Table.noConfusion

theorem quiet_channelRecv {handle : Nat} {suspensionAllowed : Bool} :
    Quiet s (s.channelRecv carrier id handle suspensionAllowed) := by
  unfold State.channelRecv
  split
  · exact .refl s
  · exact Quiet.serve (.of_eq rfl rfl rfl) Table.noConfusion
  · exact Quiet.register (.of_eq rfl rfl rfl) Table.noConfusion

theorem quiet_parkedCallReturns {sched : Scheduler} (timers : sched.timers = s.sched.timers) :
    Quiet s ((({ s with sched } : State).parkedCallReturns id).goTo carrier id .running) := by
  rw [parkedCallReturns_eq]
  exact .of_eq timers rfl rfl

theorem spliceResumedFrames_timers (sched : Scheduler) (id : Nat) :
    (sched.spliceResumedFrames id).2.timers = sched.timers := by
  unfold Scheduler.spliceResumedFrames
  split
  · rfl
  · rfl

theorem quiet_step {action : Action} (taken : s.step action = some s') (places : Places s)
    (sleeps : ∀ carrier wakeAt, action ≠ .sleep carrier wakeAt true) (expires : ∀ now, action ≠ .expireTimers now) :
    Quiet s s' := by
  cases action with
  | mutexLock carrier handle suspensionAllowed =>
    obtain ⟨own, -, -, rfl⟩ := act_eq taken
    unfold State.mutexLock
    split
    · exact .refl s
    · exact .of_eq rfl rfl rfl
    · exact Quiet.register (.of_eq rfl rfl rfl) Table.noConfusion
  | mutexTryLock carrier handle =>
    obtain ⟨own, -, -, rfl⟩ := act_eq taken
    unfold State.mutexTryLock
    split
    · exact .of_eq rfl rfl rfl
    · exact .of_eq rfl rfl rfl
  | mutexUnlock carrier handle =>
    obtain ⟨own, -, -, rfl⟩ := act_eq taken
    unfold State.mutexUnlock
    split
    · exact .refl s
    · exact Quiet.serve (.of_eq rfl rfl rfl) Table.noConfusion
  | sleep carrier wakeAt suspensionAllowed =>
    obtain ⟨own, -, -, rfl⟩ := act_eq taken
    cases suspensionAllowed with
    | true => exact absurd rfl (sleeps carrier wakeAt)
    | false => exact .refl s
  | expireTimers now => exact absurd rfl (expires now)
  | rmutexLock carrier handle suspensionAllowed =>
    obtain ⟨own, -, -, rfl⟩ := act_eq taken
    unfold State.rmutexLock
    split
    · exact .refl s
    · exact .of_eq rfl rfl rfl
    · exact Quiet.register (.of_eq rfl rfl rfl) Table.noConfusion
  | rmutexTryLock carrier handle =>
    obtain ⟨own, -, -, rfl⟩ := act_eq taken
    unfold State.rmutexTryLock
    split
    · exact .of_eq rfl rfl rfl
    · exact .of_eq rfl rfl rfl
  | rmutexUnlock carrier handle =>
    obtain ⟨own, -, -, rfl⟩ := act_eq taken
    unfold State.rmutexUnlock
    split
    · exact .refl s
    · exact Quiet.serve (.of_eq rfl rfl rfl) Table.noConfusion
  | semaphoreAcquire carrier handle suspensionAllowed =>
    obtain ⟨own, -, -, rfl⟩ := act_eq taken
    unfold State.semaphoreAcquire
    split
    · exact .refl s
    · exact .of_eq rfl rfl rfl
    · exact Quiet.register (.of_eq rfl rfl rfl) Table.noConfusion
  | semaphoreTryAcquire carrier handle =>
    obtain ⟨own, -, -, rfl⟩ := act_eq taken
    exact .of_eq rfl rfl rfl
  | semaphoreRelease carrier handle =>
    obtain ⟨own, -, -, rfl⟩ := act_eq taken
    exact Quiet.serve (.of_eq rfl rfl rfl) Table.noConfusion
  | channelSend carrier handle value suspensionAllowed =>
    obtain ⟨own, -, -, rfl⟩ := act_eq taken
    exact quiet_channelSend
  | channelRecv carrier handle suspensionAllowed =>
    obtain ⟨own, -, -, rfl⟩ := act_eq taken
    exact quiet_channelRecv
  | channelClose carrier handle =>
    obtain ⟨own, -, -, rfl⟩ := act_eq taken
    exact Quiet.serve (Quiet.serve (.of_eq rfl rfl rfl) Table.noConfusion) Table.noConfusion
  | migrate carrier =>
    obtain ⟨own, stage, -, -, taken⟩ := at_eq places taken
    cases stage <;> cases taken
    exact .of_eq (Scheduler.releaseHeldIfCurrent_timers _ _ _) rfl rfl
  | recheck carrier =>
    obtain ⟨own, stage, -, -, taken⟩ := at_eq places taken
    cases stage <;> cases taken
    exact quiet_recheck
  | abort carrier =>
    obtain ⟨own, stage, -, -, taken⟩ := at_eq places taken
    cases stage <;> cases taken
    exact quiet_parkedCallReturns rfl
  | join carrier targetId destination suspensionAllowed =>
    obtain ⟨own, -, -, rfl⟩ := act_eq taken
    exact quiet_join
  | selectAny carrier targets suspensionAllowed =>
    obtain ⟨own, -, -, rfl⟩ := act_eq taken
    exact quiet_selectAny
  | completePromise carrier promise outcome =>
    obtain ⟨own, -, -, rfl⟩ := act_eq taken
    exact quiet_completePromise
  | newPromise carrier =>
    obtain ⟨own, -, -, rfl⟩ := act_eq taken
    exact .of_eq rfl rfl rfl
  | spawn carrier root =>
    obtain ⟨own, -, -, rfl⟩ := act_eq taken
    exact .of_eq rfl rfl rfl
  | parkOnClassInit carrier owner initializing =>
    obtain ⟨own, -, -, rfl⟩ := act_eq taken
    cases initializing with
    | false => exact .refl s
    | true => exact Quiet.parkAtOnce (.of_eq (Scheduler.releaseHeldIfCurrent_timers _ _ _) rfl rfl) Table.noConfusion
  | enterNative carrier stack =>
    obtain ⟨own, -, -, rfl⟩ := act_eq taken
    exact .of_eq rfl rfl rfl
  | nativeParkForIo carrier fd events deadline suspensionAllowed =>
    obtain ⟨own, -, -, rfl⟩ := act_eq taken
    exact quiet_nativeParkForIo
  | leaveNative carrier stolenDepth =>
    obtain ⟨own, -, -, rfl⟩ := act_eq taken
    exact .of_eq rfl rfl rfl
  | preempt carrier =>
    obtain ⟨own, -, -, rfl⟩ := act_eq taken
    exact .of_eq rfl rfl rfl
  | finish carrier result =>
    obtain ⟨own, -, -, rfl⟩ := act_eq taken
    exact .of_eq (Scheduler.releaseHeldIfCurrent_timers _ _ _) rfl rfl
  | fail carrier exc =>
    obtain ⟨own, -, -, rfl⟩ := act_eq taken
    exact .of_eq (Scheduler.releaseHeldIfCurrent_timers _ _ _) rfl rfl
  | park carrier frames =>
    obtain ⟨own, stage, -, -, taken⟩ := at_eq places taken
    cases stage <;> cases taken
    exact .of_eq (landFrames_timers s.sched frames) rfl rfl
  | parkSlice carrier stack keepBelow =>
    obtain ⟨own, stage, -, -, taken⟩ := at_eq places taken
    cases stage <;> cases taken
    exact .of_eq (landFrames_timers s.sched (stack.drop keepBelow)) rfl rfl
  | pop carrier =>
    by_cases busy : (s.window carrier).isSome = true
    · simp only [State.step, if_pos busy] at taken
      cases taken
    · simp only [State.step, if_neg busy] at taken
      obtain ⟨⟨own, sched⟩, popped, rfl⟩ := Option.map_eq_some_iff.mp taken
      obtain ⟨before, after, -, rfl⟩ := Scheduler.popNextRunnable_removed popped
      exact .of_eq rfl rfl rfl
  | resume carrier =>
    obtain ⟨own, stage, -, -, taken⟩ := at_eq places taken
    cases stage <;> cases taken
    exact quiet_parkedCallReturns (spliceResumedFrames_timers s.sched own)
  | resumePinned carrier =>
    obtain ⟨own, stage, -, -, taken⟩ := at_eq places taken
    cases stage <;> cases taken
    exact quiet_parkedCallReturns rfl
  | setPumpToken carrier token =>
    cases taken
    exact .of_eq rfl rfl rfl
  | pinContext own token =>
    cases taken
    exact .of_eq rfl rfl rfl
  | setFocus focus =>
    cases taken
    exact .of_eq rfl rfl rfl
  | setFreeze depth =>
    cases taken
    exact .of_eq rfl rfl rfl
  | wake index =>
    cases flies : s.flying[index]? with
    | none =>
      simp only [State.step, flies] at taken
      cases taken
    | some wake =>
      simp only [State.step, flies] at taken
      cases taken
      exact ⟨wakeIn_timers s.sched wake.table wake.id, rfl, fun other member _ => List.mem_of_mem_eraseIdx member⟩
  | wakeClassInit owner =>
    cases taken
    exact Quiet.serve (.of_eq rfl rfl rfl) Table.noConfusion
  | deliverResults index =>
    cases decides : s.deciding[index]? with
    | none =>
      simp only [State.step, decides] at taken
      cases taken
    | some entry =>
      obtain ⟨targetId, failed⟩ := entry
      simp only [State.step, decides] at taken
      cases failed <;> cases taken
      exact .of_eq rfl rfl rfl
  | wakeJoiners index =>
    cases decides : s.deciding[index]? with
    | none =>
      simp only [State.step, decides] at taken
      cases taken
    | some entry =>
      simp only [State.step, decides] at taken
      cases taken
      exact .of_eq (wakeJoiners_timers s.sched entry.1 entry.2) rfl rfl
  | harvestIo ready now =>
    cases taken
    exact (quiet_harvest _).trans (quiet_harvest _)
  | closeFd fd =>
    cases taken
    exact Quiet.serve (.of_eq rfl rfl rfl) Table.noConfusion

theorem Inv.timerRows (inv : Inv s) :
    Matches TimerEntry.contextId (fun _ => true) true s.sched.timers (s.status .timer) := inv.entries.tables .timer

theorem Inv.timerEntry {entry : TimerEntry} (inv : Inv s) (present : entry ∈ s.sched.timers) :
    (s.sched.contexts entry.contextId).state = .parkedTimer ∧
      s.entryPark .timer entry.contextId = s.park entry.contextId := by
  have committed := Post.status_parked ((inv.timerRows.status_of_mem present).2.1 rfl)
  exact ⟨((inv.views entry.contextId).answered committed).1, inv.entries.parks _ _ (.inr committed)⟩

theorem Inv.lasts {sleep : Sleep} (inv : Inv s) (present : sleep.entry ∈ s.sched.timers)
    (park : sleep.park = s.entryPark .timer sleep.id) : sleep.Lasts s := by
  obtain ⟨state, parks⟩ := inv.timerEntry present
  exact ⟨state, parks.symm.trans park.symm⟩

structure Tracks (o : Observed) : Prop where
  inv : Inv o.state
  timers : o.state.sched.timers = o.sleeps.map Sleep.entry
  parks : ∀ sleep ∈ o.sleeps, sleep.park = o.state.park sleep.id
  grounded : ∀ wake ∈ o.state.flying, wake.table ≠ .timer

variable {o o' : Observed}

theorem Tracks.start : Tracks Observed.start where
  inv := Inv.start
  timers := rfl
  parks := fun _ member => nomatch member
  grounded := fun _ member => nomatch member

theorem Tracks.present (tracks : Tracks o) {sleep : Sleep} (member : sleep ∈ o.sleeps) :
    sleep.entry ∈ o.state.sched.timers := by
  rw [tracks.timers]
  exact List.mem_map_of_mem member

theorem Tracks.entryPark (tracks : Tracks o) {sleep : Sleep} (member : sleep ∈ o.sleeps) :
    sleep.park = o.state.entryPark .timer sleep.id :=
  (tracks.parks sleep member).trans (tracks.inv.timerEntry (tracks.present member)).2.symm

theorem Tracks.quiet (tracks : Tracks o) (inv : Inv s') (quiet : Quiet o.state s') :
    Tracks ⟨s', o.sleeps.filter fun sleep => sleep.Lasts s'⟩ := by
  have lasts : ∀ sleep ∈ o.sleeps, sleep.Lasts s' := by
    intro sleep member
    apply inv.lasts
    · rw [quiet.timers]
      exact tracks.present member
    · rw [quiet.parks]
      exact tracks.entryPark member
  have kept : (o.sleeps.filter fun sleep => sleep.Lasts s') = o.sleeps :=
    List.filter_eq_self.mpr fun sleep member => decide_eq_true (lasts sleep member)
  rw [kept]
  exact
    { inv
      timers := quiet.timers.trans tracks.timers
      parks := fun sleep member => (lasts sleep member).2.symm
      grounded := fun wake member timer => tracks.grounded wake (quiet.flying wake member timer) timer }

theorem Tracks.sleep {own wakeAt : Nat} (tracks : Tracks o) (runs : o.state.control own = .on carrier .running)
    (inv : Inv s') (slept : s' = ({ o.state with
      sched := o.state.sched.parkForTimer carrier own wakeAt } : State).parkAtOnce carrier own .timer) :
    Tracks ⟨s', (o.sleeps ++ [({ id := own, wakeAt, park := s'.park own } : Sleep)]).filter fun sleep =>
      sleep.Lasts s'⟩ := by
  have timers : s'.sched.timers = o.state.sched.timers ++ [{ contextId := own, wakeAt }] := by
    rw [slept]
    exact Scheduler.releaseHeldIfCurrent_timers _ _ _
  have entryPark : s'.entryPark .timer = Function.update (o.state.entryPark .timer) own (s'.park own) := by
    rw [slept]
    simp [State.parkAtOnce, State.enter, State.goTo]
  have apart : ∀ sleep ∈ o.sleeps, sleep.id ≠ own := by
    intro sleep member same
    have parked := (tracks.inv.timerRows.status_of_mem (tracks.present member)).2.1 rfl
    rw [show sleep.entry.contextId = own from same, tracks.inv.absent runs .timer] at parked
    cases parked
  have lasts : ∀ sleep ∈ o.sleeps ++ [({ id := own, wakeAt, park := s'.park own } : Sleep)], sleep.Lasts s' := by
    intro sleep member
    apply inv.lasts
    · rw [timers]
      rcases List.mem_append.mp member with before | new
      · exact List.mem_append_left _ (tracks.present before)
      · cases List.mem_singleton.mp new
        exact List.mem_append_right _ (List.mem_singleton_self _)
    · rw [entryPark]
      rcases List.mem_append.mp member with before | new
      · rw [Function.update_of_ne (apart sleep before)]
        exact tracks.entryPark before
      · cases List.mem_singleton.mp new
        rw [Function.update_self]
  rw [List.filter_eq_self.mpr fun sleep member => decide_eq_true (lasts sleep member)]
  exact
    { inv
      timers := by rw [timers, tracks.timers, List.map_append]; rfl
      parks := fun sleep member => (lasts sleep member).2.symm
      grounded := by
        rw [slept]
        exact tracks.grounded }

theorem wakeFor_foldl_contexts (ids : List Nat) (sched : Scheduler) (id : Nat) :
    (ids.foldl Scheduler.wakeFor sched).contexts id =
      if id ∈ ids then { sched.contexts id with state := .runnable } else sched.contexts id := by
  induction ids generalizing sched with
  | nil => rfl
  | cons first rest ih =>
    rw [List.foldl_cons, ih]
    by_cases same : id = first
    · subst same
      simp [Scheduler.wakeFor, Scheduler.setState, Scheduler.modify]
    · simp [Scheduler.wakeFor, Scheduler.setState, Scheduler.modify, same]

theorem wakeFor_foldl_runQueue (ids : List Nat) (sched : Scheduler) :
    (ids.foldl Scheduler.wakeFor sched).runQueue =
      sched.runQueue ++ ids.filter fun id => (sched.contexts id).framesParked := by
  induction ids generalizing sched with
  | nil => exact (List.append_nil _).symm
  | cons first rest ih =>
    have parked (id : Nat) : ((sched.wakeFor first).contexts id).framesParked = (sched.contexts id).framesParked := by
      by_cases same : id = first
      · subst same
        simp [Scheduler.wakeFor, Scheduler.setState, Scheduler.modify]
      · simp [Scheduler.wakeFor, Scheduler.setState, Scheduler.modify, Function.update_of_ne same]
    rw [List.foldl_cons, ih, List.filter_cons]
    simp only [parked]
    by_cases here : (sched.contexts first).framesParked = true
    · simp [Scheduler.wakeFor, here]
    · simp [Scheduler.wakeFor, here]

def Observed.due (o : Observed) (now : Nat) : List Sleep :=
  (o.sleeps.filter (·.wakeAt ≤ now)).mergeSort fun sleep later => sleep.wakeAt ≤ later.wakeAt

theorem Observed.mem_due {now : Nat} {sleep : Sleep} : sleep ∈ o.due now ↔ sleep ∈ o.sleeps ∧ sleep.wakeAt ≤ now := by
  unfold Observed.due
  rw [(List.mergeSort_perm _ _).mem_iff, List.mem_filter, decide_eq_true_iff]

theorem Tracks.expireDueTimers (tracks : Tracks o) (now : Nat) :
    o.state.sched.expireDueTimers now =
      { ((o.due now).map (·.id)).foldl Scheduler.wakeFor o.state.sched with
        timers := (o.sleeps.filter (now < ·.wakeAt)).map Sleep.entry } := by
  have sleeping : (o.state.sched.timers.filter fun entry =>
      (o.state.sched.contexts entry.contextId).state = .parkedTimer) = o.sleeps.map Sleep.entry := by
    rw [← tracks.timers]
    exact List.filter_eq_self.mpr fun entry present => decide_eq_true (tracks.inv.timerEntry present).1
  have sorted : ((o.sleeps.map Sleep.entry).filter (·.wakeAt ≤ now)).mergeSort
      (fun entry later => entry.wakeAt ≤ later.wakeAt) = (o.due now).map Sleep.entry := by
    have mapped : ((o.due now).map Sleep.entry) = ((o.sleeps.filter (·.wakeAt ≤ now)).map Sleep.entry).mergeSort
        fun entry later => entry.wakeAt ≤ later.wakeAt := List.map_mergeSort fun _ _ _ _ => rfl
    rw [mapped, List.filter_map]
    rfl
  have left : ((o.sleeps.map Sleep.entry).filter fun entry => ¬ entry.wakeAt ≤ now) =
      (o.sleeps.filter (now < ·.wakeAt)).map Sleep.entry := by
    rw [List.filter_map]
    congr 1
    apply List.filter_congr
    intro sleep _
    exact decide_eq_decide.mpr Nat.not_le
  unfold Scheduler.expireDueTimers
  simp only [sleeping, sorted, left, List.foldl_map]
  rfl

theorem Tracks.woken (tracks : Tracks o) (now id : Nat) :
    (o.state.sched.expireDueTimers now).contexts id =
      if id ∈ (o.due now).map (·.id) then { o.state.sched.contexts id with state := .runnable }
      else o.state.sched.contexts id := by
  rw [tracks.expireDueTimers]
  exact wakeFor_foldl_contexts _ _ _

theorem Tracks.later (tracks : Tracks o) (now : Nat) :
    (o.state.sched.expireDueTimers now).timers = (o.sleeps.filter (now < ·.wakeAt)).map Sleep.entry := by
  rw [tracks.expireDueTimers]

theorem Tracks.expire (tracks : Tracks o) (now : Nat) (inv : Inv s')
    (expired : s' = ({ o.state with sched := o.state.sched.expireDueTimers now } : State).answer .timer
      (o.state.timersDue now)) :
    Tracks ⟨s', o.sleeps.filter fun sleep => sleep.Lasts s'⟩ := by
  have timers : s'.sched.timers = (o.sleeps.filter (now < ·.wakeAt)).map Sleep.entry := by
    rw [expired]
    exact tracks.later now
  have contexts := tracks.woken now
  rw [show (o.state.sched.expireDueTimers now).contexts = s'.sched.contexts by rw [expired]; rfl] at contexts
  have kept : (o.sleeps.filter fun sleep => sleep.Lasts s') = o.sleeps.filter (now < ·.wakeAt) := by
    apply List.filter_congr
    intro sleep member
    rw [decide_eq_decide]
    constructor
    · rintro ⟨asleep, -⟩
      by_contra due
      have named : sleep.id ∈ (o.due now).map (·.id) :=
        List.mem_map_of_mem (Observed.mem_due.mpr ⟨member, Nat.le_of_not_lt due⟩)
      rw [contexts, if_pos named] at asleep
      cases asleep
    · intro later
      apply inv.lasts
      · rw [timers]
        exact List.mem_map_of_mem (List.mem_filter.mpr ⟨member, decide_eq_true later⟩)
      · rw [expired]
        exact tracks.entryPark member
  rw [kept]
  exact
    { inv
      timers
      parks := by
        intro sleep member
        rw [expired]
        exact tracks.parks sleep (List.mem_filter.mp member).1
      grounded := by
        rw [expired]
        exact tracks.grounded }

theorem Tracks.step {action : Action} (tracks : Tracks o) (lands : o.state.Lands action)
    (taken : o.step action = some o') : Tracks o' := by
  obtain ⟨s', stepped, rfl⟩ := Option.map_eq_some_iff.mp taken
  have inv := tracks.inv.step lands stepped
  by_cases expires : ∃ now, action = .expireTimers now
  · obtain ⟨now, rfl⟩ := expires
    have begins : begun o.state s' (.expireTimers now) = [] := rfl
    rw [begins, List.append_nil]
    exact tracks.expire now inv (Option.some.inj stepped).symm
  · by_cases sleeps : ∃ carrier wakeAt, action = .sleep carrier wakeAt true
    · obtain ⟨carrier, wakeAt, rfl⟩ := sleeps
      obtain ⟨own, window, runs, slept⟩ := act_eq stepped
      have begins : begun o.state s' (.sleep carrier wakeAt true) = [{ id := own, wakeAt, park := s'.park own }] := by
        simp [begun, State.running, window, runs]
      rw [begins]
      exact tracks.sleep runs inv slept
    · have begins : begun o.state s' action = [] := by
        unfold begun
        split
        · rename_i carrier wakeAt
          exact absurd ⟨carrier, wakeAt, rfl⟩ sleeps
        · rfl
      rw [begins, List.append_nil]
      apply tracks.quiet inv
      exact quiet_step stepped tracks.inv.places (fun carrier wakeAt same => sleeps ⟨carrier, wakeAt, same⟩)
        fun now same => expires ⟨now, same⟩

theorem reason_timer (reason : .parkedTimer = table.reason) : table = .timer := by
  cases table with
  | timer => rfl
  | _ => cases reason

theorem reason_of_rechecks (rechecks : table.rechecks = true) : ContextState.parkedTimer ≠ table.reason := by
  intro reason
  rw [reason_timer reason] at rechecks
  cases rechecks

theorem View.Asleep.sleeping {v : View} (ok : v.Asleep table) (asleep : v.state = .parkedTimer) :
    v.post = .committed .timer ∨ v.post = .granted .timer ∧ v.inFlight = 1 := by
  have named := reason_timer (asleep.symm.trans ok.state)
  rw [← named]
  exact ok.entry.imp_left And.left

theorem View.Ok.sleeping {v : View} (ok : v.Ok) (asleep : v.state = .parkedTimer) :
    v.post = .committed .timer ∨ v.post = .granted .timer ∧ v.inFlight = 1 := by
  obtain ⟨control, post, _, framesParked, frames, lastCarrier, queued, inFlight⟩ := v
  cases asleep
  cases control with
  | unborn => cases ok.state
  | landed =>
    obtain ok | ok | ⟨table, ok⟩ := ok
    · cases ok.state
    · cases ok.state
    · exact ok.asleep.sleeping rfl
  | ended =>
    obtain state | state | state := ok.state
    · cases state
    · cases state
    · cases state
  | on carrier stage =>
    cases stage with
    | popped => cases ok.state
    | running =>
      obtain state | state := ok.state
      · cases state
      · cases state
    | registered table =>
      obtain ⟨-, state | state⟩ := ok
      · cases state
      · cases state
    | migrated table =>
      obtain ⟨registered, state⟩ := ok
      exact absurd state (reason_of_rechecks registered.rechecks)
    | aborting =>
      obtain ⟨table, ok⟩ := ok
      exact absurd ok.state (reason_of_rechecks ok.rechecks)
    | unwinding =>
      obtain ⟨-, state, -⟩ | ⟨-, state, -⟩ | ⟨table, asleep⟩ := ok.stands
      · cases state
      · cases state
      · exact asleep.sleeping rfl

theorem Tracks.exact (tracks : Tracks o) : TimersExact o where
  asleep := by
    intro id
    constructor
    · intro asleep
      have committed : o.state.post id = .committed .timer := by
        obtain committed | ⟨granted, flies⟩ := (tracks.inv.views id).sleeping asleep
        · exact committed
        · have flying : 0 < o.state.flying.countP (·.id = id) := Nat.lt_of_lt_of_eq Nat.one_pos flies.symm
          obtain ⟨wake, member, same⟩ := List.countP_pos_iff.mp flying
          obtain ⟨post, -, -⟩ := tracks.inv.entries.flying wake member
          rw [of_decide_eq_true same, show o.state.post id = .granted .timer from granted] at post
          exact absurd (Post.granted.inj post).symm (tracks.grounded wake member)
      have parked : o.state.status .timer id = .parked := by
        unfold State.status
        rw [committed]
        rfl
      obtain ⟨entry, present, -, named⟩ := (tracks.inv.timerRows.parked_iff id).mp parked
      rw [tracks.timers] at present
      obtain ⟨sleep, member, rfl⟩ := List.mem_map.mp present
      exact ⟨sleep, member, named⟩
    · rintro ⟨sleep, member, rfl⟩
      exact (tracks.inv.timerEntry (tracks.present member)).1
  expires := by
    intro now
    have transitive (a b c : Sleep) (first : decide (a.wakeAt ≤ b.wakeAt) = true)
        (second : decide (b.wakeAt ≤ c.wakeAt) = true) : decide (a.wakeAt ≤ c.wakeAt) = true :=
      decide_eq_true ((of_decide_eq_true first).trans (of_decide_eq_true second))
    have total (a b : Sleep) : (decide (a.wakeAt ≤ b.wakeAt) || decide (b.wakeAt ≤ a.wakeAt)) = true := by
      simpa using Nat.le_total a.wakeAt b.wakeAt
    refine ⟨o.due now, ?_⟩
    exact
      { due := List.mergeSort_perm _ _
        once := by
          have ids : ((o.sleeps.filter (·.wakeAt ≤ now)).map (·.id)).Nodup := by
            have nodup := tracks.inv.timerRows.keys_nodup fun entry => decide (entry.wakeAt ≤ now)
            rw [tracks.timers, List.filter_map, List.map_map] at nodup
            exact nodup
          exact ((List.mergeSort_perm _ _).map _).nodup_iff.mpr ids
        byDeadline := by
          apply (List.pairwise_mergeSort transitive total _).imp
          intro sleep later ordered
          exact of_decide_eq_true ordered
        ties := by
          intro deadline
          apply filter_mergeSort transitive total
          intro a b first second
          rw [decide_eq_true_iff] at first second ⊢
          exact (first.trans second.symm).le
        woken := tracks.woken now
        queued := by
          rw [tracks.expireDueTimers]
          exact wakeFor_foldl_runQueue _ _
        later := tracks.later now }

end Steps

/-- While frames land with every park, timers expire exactly. -/
theorem timers_exact {o : Observed} (run : Run Observed.step (fun o action => o.state.Lands action) Observed.start o) :
    TimersExact o :=
  Tracks.exact (run.invariant Tracks Tracks.start fun _ _ _ tracks lands taken => tracks.step lands taken)

theorem timers_exact_crossed :
    ∃ o, Run Observed.step (fun o action => o.state.Lands action) Observed.start o ∧
      o.sleeps.map Sleep.entry = [⟨0, 20⟩, ⟨1, 10⟩] ∧ TimersExact o := by
  have run : Run Observed.step (fun o action => o.state.Lands action) Observed.start _ :=
    Run.refl.actions (by simp [State.Lands]) (show [Action.pop 0, .resume 0, .spawn 0 7, .sleep 0 20 true, .park 0 [9],
      .pop 1, .resume 1, .sleep 1 10 true].foldlM Observed.step Observed.start = some _ from rfl)
  exact ⟨_, run, rfl, timers_exact run⟩

theorem native_main_sleeps_twice :
    ¬ ∀ o, Run Observed.step (fun _ _ => True) Observed.start o → TimersExact o := by
  intro claim
  have run : Run Observed.step (fun _ _ => True) Observed.start _ :=
    Run.refl.actions (fun _ _ _ => trivial)
      (show [Action.pop 0, .resume 0, .enterNative 0 [], .nativeParkForIo 0 none 0 (some 1) true, .park 0 [],
        .harvestIo (fun _ => none) 1, .pop 0, .resume 0, .enterNative 0 [],
        .nativeParkForIo 0 none 0 (some 1) true, .nativeParkForIo 0 none 0 (some 2) true,
        .harvestIo (fun _ => none) 2, .park 0 [], .pop 0, .resume 0, .sleep 0 10 true, .park 0 [9], .pop 1, .resume 1,
        .sleep 1 5 true].foldlM Observed.step Observed.start = some _ from rfl)
  obtain ⟨order, expires⟩ := (claim _ run).expires 6
  -- the timer of the sleep that the second one superseded
  exact absurd expires.later (by decide)

end NLang.Vm.Dispatch
