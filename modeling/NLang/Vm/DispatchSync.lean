import NLang.Vm.DispatchSteps

/-!
# The sync primitives in dispatch

The sections of the sync primitives keep the invariant: each touches the rows of one table, and the contexts whose
entries it takes were parked in that table.
-/

namespace NLang.Vm.Dispatch
open NLang.Library.Queues NLang.Library.ParkTables NLang.Vm.Sync

variable {s s' : State} {carrier id : Nat} {table : Table}

theorem countP_wakes {woken : List Nat} (nodup : woken.Nodup) (park : Nat → Nat) (waiter : Nat) :
    (woken.map fun id => ({ table, id, park := park id } : Wake)).countP (·.id = waiter) =
      if waiter ∈ woken then 1 else 0 := by
  rw [List.countP_map, ← nodup.count, List.count_eq_countP]
  exact List.countP_congr fun id _ => by simp

theorem Inv.serve (inv : Inv s) (touches : Touches s s' table) (apart : table ≠ .join) {woken : List Nat}
    (nodup : woken.Nodup) (parked : ∀ id ∈ woken, s.status table id = .parked)
    (own : s'.RowsMatch (fun id => if id ∈ woken then .absent else s.status table id) table) :
    Inv (s'.serve table woken) where
  views := by
    intro waiter
    have count := @countP_wakes table woken nodup (s.entryPark table) waiter
    have ok := inv.views waiter
    by_cases member : waiter ∈ woken
    · obtain ⟨unanswered, taken⟩ := ok.taken (Post.status_parked (parked waiter member))
      rw [if_pos member] at count
      have flies : s.flying.countP (·.id = waiter) = 0 := unanswered
      simp only [State.view, State.serve, if_pos member, touches.control, touches.contexts, touches.runQueue,
        touches.flying, touches.entryPark, List.countP_append, flies, count]
      exact taken
    · rw [if_neg member] at count
      simp only [State.view, State.serve, if_neg member, touches.control, touches.contexts, touches.runQueue,
        touches.flying, touches.entryPark, touches.post, List.countP_append, count]
      exact ok
  entries := by
    refine @Entries.take s _ table woken inv.entries (fun id member => Post.status_parked (parked id member))
      touches.rows own ?_ touches.park touches.entryPark fun wake member => ?_
    · simp only [State.serve, touches.post]
    · simp only [State.serve, touches.flying, touches.entryPark] at member
      obtain old | new := List.mem_append.mp member
      · exact .inl old
      · obtain ⟨id, taken, rfl⟩ := List.mem_map.mp new
        exact .inr ⟨taken, rfl, rfl, apart⟩
  places := inv.places.keep touches.control touches.window (touches.held ▸ inv.places.held) touches.nextId
  joins := by
    have joins := touches.joins inv.joins
    exact ⟨joins.targets, joins.noTargets, joins.deciding⟩
  answered := touches.astray.trans inv.answered

inductive Section (s : State) (carrier id : Nat) (table : Table) : State → Prop where
  | refused : Section s carrier id table s
  | touched {after : State} : Touches s after table → after.RowsMatch (s.status table) table →
      Section s carrier id table after
  | registered {after : State} : table.rechecks = true → Touches s after table →
      after.RowsMatch (Function.update (s.status table) id .registered) table →
      Section s carrier id table (after.register carrier id table)
  | served {after : State} {woken : List Nat} : Touches s after table → table ≠ .join → woken.Nodup →
      (∀ waiter ∈ woken, s.status table waiter = .parked) →
      after.RowsMatch (fun waiter => if waiter ∈ woken then .absent else s.status table waiter) table →
      Section s carrier id table (after.serve table woken)

theorem Inv.section (inv : Inv s) (runs : s.control id = .on carrier .running)
    (effect : Section s carrier id table s') : Inv s' := by
  cases effect with
  | refused => exact inv
  | touched touches own => exact inv.touch touches own
  | registered rechecks touches own => exact inv.register runs rechecks touches own
  | served touches apart nodup parked own => exact inv.serve touches apart nodup parked own

theorem Section.contexts (effect : Section s carrier id table s') : s'.sched.contexts = s.sched.contexts := by
  cases effect with
  | refused => rfl
  | touched touches => exact touches.contexts
  | registered _ touches => exact touches.contexts
  | served touches => exact touches.contexts

theorem Section.serveOne (touches : Touches s s' table) (apart : table ≠ .join) {α β : Type}
    {key : α → Nat} {phase : α → β} {committed : β} {queue left : List α} {wanted : α → Bool} {change : α → Option α}
    {taken : α} {wakes : Option Nat} (rows : Matches key phase committed queue (s.status table))
    (found : takeFirst wanted change queue = some (taken, left))
    (keeps : ∀ entry, change taken = some entry → key entry = key taken ∧ phase entry ≠ committed)
    (gone : change taken = none ↔ phase taken = committed)
    (parked : phase taken = committed → wakes = some (key taken)) (pending : phase taken ≠ committed → wakes = none)
    (own : ∀ status, Matches key phase committed left status → s'.RowsMatch status table) :
    Section s carrier id table (s'.serve table wakes.toList) := by
  have toWake : phase taken = committed → wakes.toList = [key taken] := fun same => by rw [parked same]; rfl
  have noneToWake : phase taken ≠ committed → wakes.toList = [] := fun other => by rw [pending other]; rfl
  obtain ⟨nodup, waited, leaves⟩ := rows.served_woken found keeps gone toWake noneToWake
  exact .served touches apart nodup waited (own _ leaves)

theorem Section.serveNone (touches : Touches s s' table) (apart : table ≠ .join)
    (own : s'.RowsMatch (s.status table) table) : Section s carrier id table (s'.serve table []) :=
  .served touches apart List.nodup_nil (fun _ member => by simp at member) (by simpa using own)

theorem SyncTable.recheck {waiters : List SyncWaiter} {status : Nat → Status} (rows : SyncTable waiters status)
    (registered : status id = .registered) :
    ∃ result left, consumeSyncWaiterStamp waiters id = .ok (result, left) ∧
      SyncTable left (Function.update status id (if result = .requestPark then .parked else .absent)) := by
  have commits : ∀ before after : SyncWaiter, before.rechecked = some after →
      after.contextId = before.contextId ∧ after.phase = .committed := by
    intro before after rechecked
    obtain ⟨contextId, phase⟩ := before
    cases phase <;> cases rechecked
    exact ⟨rfl, rfl⟩
  obtain ⟨own, left, found, -, -, leaves⟩ := Matches.recheck rows registered commits
  refine ⟨if own.phase = .pending then .requestPark else .consumed, left, ?_, ?_⟩
  · rw [consumeSyncWaiterStamp, found]
  · obtain ⟨contextId, phase⟩ := own
    cases phase <;> exact leaves

theorem recheckEntry_found (inv : Inv s) (registered : s.status table id = .registered)
    (rechecks : table.rechecks = true) :
    ∃ parks s', s.recheckEntry id table = .ok (parks, s') ∧ Touches s s' table ∧
      s'.RowsMatch (Function.update (s.status table) id (if parks = true then .parked else .absent)) table := by
  have rows := inv.entries.tables table
  cases table with
  | mutex handle =>
    obtain ⟨result, left, found, leaves⟩ := SyncTable.recheck rows registered
    refine ⟨result = .requestPark, s.setMutex handle { s.mutexes handle with waiters := left }, ?_,
      .setMutex _ _ _, ?_⟩
    · simp only [State.recheckEntry, found, Except.map]
    · simpa [State.RowsMatch, State.setMutex] using leaves
  | rmutex handle =>
    obtain ⟨result, left, found, leaves⟩ := SyncTable.recheck rows registered
    refine ⟨result = .requestPark, s.setRMutex handle { s.rmutexes handle with waiters := left }, ?_,
      .setRMutex _ _ _, ?_⟩
    · simp only [State.recheckEntry, found, Except.map]
    · simpa [State.RowsMatch, State.setRMutex] using leaves
  | semaphore handle =>
    obtain ⟨result, left, found, leaves⟩ := SyncTable.recheck rows registered
    refine ⟨result = .requestPark, s.setSemaphore handle { s.semaphores handle with waiters := left }, ?_,
      .setSemaphore _ _ _, ?_⟩
    · simp only [State.recheckEntry, found, Except.map]
    · simpa [State.RowsMatch, State.setSemaphore] using leaves
  | chanRecv handle =>
    obtain ⟨own, left, found, -, -, leaves⟩ :=
      Matches.recheck rows registered fun _ _ => ChannelWaiter.rechecked_some
    refine ⟨own.rechecked.isSome, s.setChannel handle { s.channels handle with waiters := left }, ?_,
      .setReceivers _ rfl, ?_⟩
    · simp only [State.recheckEntry, ChannelSlot.commitOrAbortChanRecv, found, Except.map]
      obtain ⟨contextId, phase⟩ := own
      cases phase <;> rfl
    · simpa [State.RowsMatch, State.setChannel] using leaves
  | chanSend handle =>
    obtain ⟨own, left, found, -, -, leaves⟩ :=
      Matches.recheck rows registered fun _ _ => PendingSend.rechecked_some
    refine ⟨own.rechecked.isSome, s.setChannel handle { s.channels handle with pending := left }, ?_,
      .setSenders _ rfl, ?_⟩
    · simp only [State.recheckEntry, ChannelSlot.commitOrAbortChanSend, found, Except.map]
      obtain ⟨value, senderId, phase⟩ := own
      cases phase <;> rfl
    · simpa [State.RowsMatch, State.setChannel] using leaves
  | classInit owner => cases rechecks
  | timer => cases rechecks
  | io => cases rechecks
  | join => cases rechecks

theorem Inv.recheck (inv : Inv s) (stands : s.control id = .on carrier (.migrated table)) :
    Inv (s.recheck carrier id table) := by
  obtain ⟨registered, state⟩ := inv.ok_at stands
  have post : s.post id = .registered table := registered.post
  have status : s.status table id = .registered := by
    unfold State.status Post.status
    rw [post]
    exact if_pos rfl
  obtain ⟨parks, s', found, touches, rows⟩ := recheckEntry_found inv status registered.rechecks
  have idle : (s'.view id).Idle := by
    rw [touches.view]
    exact ⟨registered.idle.unqueued, registered.idle.unanswered⟩
  have unanswered : s.flying.countP (·.id = id) = 0 := registered.idle.unanswered
  have asleep : (s'.view id).state = table.reason ∧ (s'.view id).framesParked = false := by
    rw [touches.view]
    exact ⟨state, registered.unparked⟩
  have elsewhere : ∀ other, other ≠ table → (s.post id).status other = .absent := fun other apart => by
    rw [post]
    exact if_neg fun same => apart same.symm
  unfold State.recheck
  rw [found]
  cases parks with
  | true =>
    refine inv.moved stands (touches.moves id) ⟨?_, touches.held ▸ inv.places.held, touches.joins inv.joins⟩ _ ?_
      (by rw [← touches.control, ← touches.post]; rfl)
    · exact ⟨idle.unqueued, asleep.2, .inr (.inr ⟨table, asleep.1, .inl ⟨rfl, idle.unanswered⟩⟩)⟩
    · refine @Entries.change s _ id table (.committed table) inv.entries unanswered touches.rows ?_ ?_ ?_ ?_
        touches.park touches.entryPark touches.flying
      · have leaves : s'.RowsMatch (Function.update (s.status table) id ((Post.committed table).status table)) table := by
          simpa [Post.status] using rows
        exact leaves
      · intro other apart
        rw [elsewhere other apart]
        exact if_neg fun same => apart same.symm
      · intro other waits
        obtain equal | equal := waits <;> cases equal
        exact .inl post
      · change Function.update s'.post id _ = _
        rw [touches.post]
  | false =>
    refine inv.moved stands (touches.moves id) ⟨?_, touches.held ▸ inv.places.held, touches.joins inv.joins⟩ _ ?_
      (by rw [← touches.control, ← touches.post]; rfl)
    · exact ⟨table, ⟨idle.unqueued, idle.unanswered⟩, rfl, registered.rechecks, asleep.1, asleep.2⟩
    · refine @Entries.change s _ id table (.granted table) inv.entries unanswered touches.rows ?_ ?_ ?_ ?_
        touches.park touches.entryPark touches.flying
      · have leaves : s'.RowsMatch (Function.update (s.status table) id ((Post.granted table).status table)) table := by
          simpa [Post.status] using rows
        exact leaves
      · intro other apart
        rw [elsewhere other apart]
        rfl
      · intro other waits
        obtain equal | equal := waits <;> cases equal
      · change Function.update s'.post id _ = _
        rw [touches.post]

theorem Touches.setHolds (touches : Touches s s' table) (own : Table) (waiter count : Nat) :
    Touches s (s'.setHolds own waiter count) table where
  same := by
    rw [touches.same]
    rfl
  rows := by
    intro other apart status rows
    have kept := touches.rows other apart status rows
    cases other <;> exact kept

theorem Inv.absent (inv : Inv s) (runs : s.control id = .on carrier .running) (table : Table) :
    s.status table id = .absent := by
  unfold State.status
  rw [show s.post id = .free from (inv.executing runs).free]
  rfl

theorem SyncTable.register {waiters : List SyncWaiter} {status : Nat → Status} (rows : SyncTable waiters status)
    (absent : status id = .absent) :
    SyncTable (waiters ++ [{ contextId := id }]) (Function.update status id .registered) :=
  @Matches.register _ _ _ _ _ _ _ rows { contextId := id } absent SyncWaiter.Phase.noConfusion

theorem Section.handOff (touches : Touches s s' table) (apart : table ≠ .join)
    {waiters left : List SyncWaiter} {next : SyncWaiter} (rows : SyncTable waiters (s.status table))
    (handed : Sync.handOff waiters = some (next, left))
    (own : ∀ status, SyncTable left status → s'.RowsMatch status table) :
    Section s carrier id table (s'.serve table next.wakes.toList) := by
  obtain ⟨contextId, phase⟩ := next
  refine Section.serveOne touches apart rows handed (fun entry grants => ?_) ?_ ?_ ?_ own
  · cases phase <;> cases grants <;> exact ⟨rfl, SyncWaiter.Phase.noConfusion⟩
  · cases phase <;> simp [SyncWaiter.granted]
  · rintro rfl
    rfl
  · cases phase <;> simp [SyncWaiter.wakes]

theorem setMutex_rows {handle : Nat} {slot : MutexSlot} {status : Nat → Status} (rows : SyncTable slot.waiters status) :
    (s.setMutex handle slot).RowsMatch status (.mutex handle) := by
  simpa [State.RowsMatch, State.setMutex] using rows

theorem setRMutex_rows {handle : Nat} {slot : RMutexSlot} {status : Nat → Status}
    (rows : SyncTable slot.waiters status) : (s.setRMutex handle slot).RowsMatch status (.rmutex handle) := by
  simpa [State.RowsMatch, State.setRMutex] using rows

theorem setSemaphore_rows {handle : Nat} {slot : SemaphoreSlot} {status : Nat → Status}
    (rows : SyncTable slot.waiters status) : (s.setSemaphore handle slot).RowsMatch status (.semaphore handle) := by
  simpa [State.RowsMatch, State.setSemaphore] using rows

theorem Inv.mutexLock (inv : Inv s) (runs : s.control id = .on carrier .running) (handle : Nat)
    (suspensionAllowed : Bool) :
    Section s carrier id (.mutex handle) (s.mutexLock carrier id handle suspensionAllowed) := by
  have rows := inv.entries.tables (.mutex handle)
  unfold State.mutexLock MutexSlot.lock
  cases owner : (s.mutexes handle).ownerId with
  | none => exact .touched ((Touches.setMutex s handle _).setHolds _ _ _) (setMutex_rows rows)
  | some other =>
    cases suspensionAllowed with
    | false => exact .refused
    | true =>
      exact .registered rfl (.setMutex s handle _)
        (setMutex_rows (SyncTable.register rows (inv.absent runs _)))

theorem Inv.mutexTryLock (inv : Inv s) (carrier id handle : Nat) :
    Section s carrier id (.mutex handle) (s.mutexTryLock id handle) := by
  have rows := inv.entries.tables (.mutex handle)
  unfold State.mutexTryLock MutexSlot.tryLock
  cases owner : (s.mutexes handle).ownerId with
  | none => exact .touched ((Touches.setMutex s handle _).setHolds _ _ _) (setMutex_rows rows)
  | some other => exact .touched (.setMutex s handle _) (setMutex_rows rows)

theorem Inv.mutexUnlock (inv : Inv s) (carrier id handle : Nat) :
    Section s carrier id (.mutex handle) (s.mutexUnlock id handle) := by
  have rows := inv.entries.tables (.mutex handle)
  unfold State.mutexUnlock MutexSlot.unlock
  by_cases owned : (s.mutexes handle).ownerId = some id
  · rw [if_neg (not_not_intro owned)]
    cases handed : Sync.handOff (s.mutexes handle).waiters with
    | none =>
      exact Section.serveNone ((Touches.setMutex s handle _).setHolds _ _ _) Table.noConfusion (setMutex_rows rows)
    | some result =>
      exact Section.handOff ((Touches.setMutex s handle _).setHolds _ _ _) Table.noConfusion rows handed
        fun _ leaves => setMutex_rows leaves
  · rw [if_pos owned]
    exact .refused

theorem Inv.rmutexLock (inv : Inv s) (runs : s.control id = .on carrier .running) (handle : Nat)
    (suspensionAllowed : Bool) :
    Section s carrier id (.rmutex handle) (s.rmutexLock carrier id handle suspensionAllowed) := by
  have rows := inv.entries.tables (.rmutex handle)
  unfold State.rmutexLock RMutexSlot.lock
  by_cases owned : (s.rmutexes handle).ownerId = some id
  · rw [if_pos owned]
    exact .touched ((Touches.setRMutex s handle _).setHolds _ _ _) (setRMutex_rows rows)
  · rw [if_neg owned]
    by_cases unowned : (s.rmutexes handle).ownerId = none
    · rw [if_pos unowned]
      exact .touched ((Touches.setRMutex s handle _).setHolds _ _ _) (setRMutex_rows rows)
    · rw [if_neg unowned]
      cases suspensionAllowed with
      | false => exact .refused
      | true =>
        exact .registered rfl (.setRMutex s handle _)
          (setRMutex_rows (SyncTable.register rows (inv.absent runs _)))

theorem Inv.rmutexTryLock (inv : Inv s) (carrier id handle : Nat) :
    Section s carrier id (.rmutex handle) (s.rmutexTryLock id handle) := by
  have rows := inv.entries.tables (.rmutex handle)
  unfold State.rmutexTryLock RMutexSlot.tryLock
  by_cases owned : (s.rmutexes handle).ownerId = some id
  · rw [if_pos owned]
    exact .touched ((Touches.setRMutex s handle _).setHolds _ _ _) (setRMutex_rows rows)
  · rw [if_neg owned]
    by_cases unowned : (s.rmutexes handle).ownerId = none
    · rw [if_pos unowned]
      exact .touched ((Touches.setRMutex s handle _).setHolds _ _ _) (setRMutex_rows rows)
    · rw [if_neg unowned]
      exact .touched (.setRMutex s handle _) (setRMutex_rows rows)

theorem Inv.rmutexUnlock (inv : Inv s) (carrier id handle : Nat) :
    Section s carrier id (.rmutex handle) (s.rmutexUnlock id handle) := by
  have rows := inv.entries.tables (.rmutex handle)
  unfold State.rmutexUnlock RMutexSlot.unlock
  by_cases owned : (s.rmutexes handle).ownerId = some id
  · rw [if_neg (not_not_intro owned)]
    by_cases nested : 0 < int32 ((s.rmutexes handle).count - 1)
    · rw [if_pos nested]
      exact Section.serveNone ((Touches.setRMutex s handle _).setHolds _ _ _) Table.noConfusion (setRMutex_rows rows)
    · rw [if_neg nested]
      cases handed : Sync.handOff (s.rmutexes handle).waiters with
      | none =>
        exact Section.serveNone ((Touches.setRMutex s handle _).setHolds _ _ _) Table.noConfusion (setRMutex_rows rows)
      | some result =>
        exact Section.handOff ((Touches.setRMutex s handle _).setHolds _ _ _) Table.noConfusion rows handed
          fun _ leaves => setRMutex_rows leaves
  · rw [if_pos owned]
    exact .refused

theorem Inv.semaphoreAcquire (inv : Inv s) (runs : s.control id = .on carrier .running) (handle : Nat)
    (suspensionAllowed : Bool) :
    Section s carrier id (.semaphore handle) (s.semaphoreAcquire carrier id handle suspensionAllowed) := by
  have rows := inv.entries.tables (.semaphore handle)
  unfold State.semaphoreAcquire SemaphoreSlot.acquire
  by_cases free : 0 < (s.semaphores handle).count
  · rw [if_pos free]
    exact .touched (.setSemaphore s handle _) (setSemaphore_rows rows)
  · rw [if_neg free]
    cases suspensionAllowed with
    | false => exact .refused
    | true =>
      exact .registered rfl (.setSemaphore s handle _)
        (setSemaphore_rows (SyncTable.register rows (inv.absent runs _)))

theorem Inv.semaphoreTryAcquire (inv : Inv s) (carrier id handle : Nat) :
    Section s carrier id (.semaphore handle) (s.setSemaphore handle (s.semaphores handle).tryAcquire.2) := by
  have rows := inv.entries.tables (.semaphore handle)
  refine .touched (.setSemaphore s handle _) (setSemaphore_rows ?_)
  unfold SemaphoreSlot.tryAcquire
  by_cases free : 0 < (s.semaphores handle).count
  · rw [if_pos free]
    exact rows
  · rw [if_neg free]
    exact rows

theorem Inv.semaphoreRelease (inv : Inv s) (carrier id handle : Nat) :
    Section s carrier id (.semaphore handle) (s.semaphoreRelease handle) := by
  have rows := inv.entries.tables (.semaphore handle)
  unfold State.semaphoreRelease SemaphoreSlot.release
  cases handed : Sync.handOff (s.semaphores handle).waiters with
  | none => exact Section.serveNone (.setSemaphore s handle _) Table.noConfusion (setSemaphore_rows rows)
  | some result =>
    exact Section.handOff (.setSemaphore s handle _) Table.noConfusion rows handed fun _ leaves =>
      setSemaphore_rows leaves

abbrev Receivers (waiters : List ChannelWaiter) (status : Nat → Status) : Prop :=
  Matches ChannelWaiter.contextId ChannelWaiter.phase .committed waiters status

abbrev Senders (pending : List (PendingSend Nat)) (status : Nat → Status) : Prop :=
  Matches PendingSend.senderId PendingSend.phase .committed pending status

theorem setReceivers_rows {handle : Nat} {slot : ChannelSlot Nat} {status : Nat → Status}
    (rows : Receivers slot.waiters status) : (s.setChannel handle slot).RowsMatch status (.chanRecv handle) := by
  simpa [State.RowsMatch, State.setChannel] using rows

theorem setSenders_rows {handle : Nat} {slot : ChannelSlot Nat} {status : Nat → Status}
    (rows : Senders slot.pending status) : (s.setChannel handle slot).RowsMatch status (.chanSend handle) := by
  simpa [State.RowsMatch, State.setChannel] using rows

theorem Inv.channelSend (inv : Inv s) (runs : s.control id = .on carrier .running) (handle value : Nat)
    (suspensionAllowed : Bool) : ∃ table, (table = .chanRecv handle ∨ table = .chanSend handle) ∧
      Section s carrier id table (s.channelSend carrier id handle value suspensionAllowed) := by
  have receivers : Receivers _ _ := inv.entries.tables (.chanRecv handle)
  have senders : Senders _ _ := inv.entries.tables (.chanSend handle)
  unfold State.channelSend ChannelSlot.send
  by_cases closed : (s.channels handle).closed = true
  · rw [if_pos closed]
    exact ⟨_, .inl rfl, .refused⟩
  · rw [if_neg closed]
    cases found : takeFirst ChannelWaiter.live ChannelWaiter.served (s.channels handle).waiters with
    | some result =>
      obtain ⟨receiver, left⟩ := result
      refine ⟨_, .inl rfl, ?_⟩
      simp only [ChannelSlot.handoffToLiveWaiter, found, Option.map_some]
      refine Section.serveOne (.setReceivers { s.channels handle with waiters := left } rfl) Table.noConfusion
        receivers found (fun entry serves => (ChannelWaiter.served_some serves).2) ?_
        (fun committed => if_pos committed) (fun waits => if_neg waits) fun _ leaves => setReceivers_rows leaves
      rw [ChannelWaiter.served, Option.map_eq_none_iff]
      exact ChannelPhase.served_eq_none
    | none =>
      simp only [ChannelSlot.handoffToLiveWaiter, found, Option.map_none]
      by_cases full : 0 < (s.channels handle).capacity ∧
          (s.channels handle).capacity ≤ (s.channels handle).buffered.length
      · rw [if_pos full]
        cases suspensionAllowed with
        | false => exact ⟨_, .inl rfl, .refused⟩
        | true =>
          exact ⟨_, .inr rfl, .registered rfl (.setSenders _ rfl) (setSenders_rows
            (@Matches.register _ _ _ _ _ _ _ senders { value, senderId := id } (inv.absent runs _)
              ChannelPhase.noConfusion))⟩
      · rw [if_neg full]
        exact ⟨_, .inl rfl, .touched (.setReceivers _ rfl) (setReceivers_rows receivers)⟩

theorem Inv.channelRecv (inv : Inv s) (runs : s.control id = .on carrier .running) (handle : Nat)
    (suspensionAllowed : Bool) : ∃ table, (table = .chanRecv handle ∨ table = .chanSend handle) ∧
      Section s carrier id table (s.channelRecv carrier id handle suspensionAllowed) := by
  have receivers : Receivers _ _ := inv.entries.tables (.chanRecv handle)
  have senders : Senders _ _ := inv.entries.tables (.chanSend handle)
  unfold State.channelRecv
  cases buffered : (s.channels handle).buffered with
  | cons value rest =>
    refine ⟨_, .inr rfl, ?_⟩
    simp only [ChannelSlot.recv, buffered, ChannelSlot.stagePendingSend]
    cases found : takeFirst PendingSend.live PendingSend.served (s.channels handle).pending with
    | none => exact Section.serveNone (.setSenders _ rfl) Table.noConfusion (setSenders_rows senders)
    | some result =>
      obtain ⟨sender, left⟩ := result
      refine Section.serveOne
        (.setSenders { s.channels handle with buffered := rest ++ [sender.value], pending := left } rfl)
        Table.noConfusion senders found (fun entry serves => (PendingSend.served_some serves).2) ?_
        (fun committed => if_pos committed) (fun waits => if_neg waits) fun _ leaves => setSenders_rows leaves
      rw [PendingSend.served, Option.map_eq_none_iff]
      exact ChannelPhase.served_eq_none
  | nil =>
    refine ⟨_, .inl rfl, ?_⟩
    rw [ChannelSlot.recv_empty buffered]
    by_cases closed : (s.channels handle).closed = true
    · rw [if_pos closed]
      exact .refused
    · rw [if_neg closed]
      cases suspensionAllowed with
      | false => exact .refused
      | true =>
        exact .registered rfl (.setReceivers _ rfl) (setReceivers_rows
          (@Matches.register _ _ _ _ _ _ _ receivers { contextId := id } (inv.absent runs _)
            ChannelPhase.noConfusion))

theorem collectClosedRecvOutcomes_swept (waiters : List ChannelWaiter) (buffered : List Nat) :
    List.Perm ((collectClosedRecvOutcomes waiters buffered).closedRecvs ++
        (collectClosedRecvOutcomes waiters buffered).valueWoken)
      ((waiters.filter (·.phase = .committed)).map (·.contextId)) ∧
    List.Forall₂ (fun entry after => after.contextId = entry.contextId ∧ entry.phase ≠ .committed ∧
        after.phase ≠ .committed)
      (waiters.filterMap ChannelWaiter.swept) (collectClosedRecvOutcomes waiters buffered).waiters := by
  induction waiters generalizing buffered with
  | nil => exact ⟨.refl _, .nil⟩
  | cons waiter rest ih =>
    obtain ⟨contextId, phase⟩ := waiter
    cases phase with
    | committed =>
      cases buffered with
      | nil =>
        obtain ⟨woken, left⟩ := ih []
        simp only [collectClosedRecvOutcomes, List.filter_cons_of_pos, decide_true, List.map_cons,
          List.filterMap_cons, ChannelWaiter.swept, ChannelPhase.swept, Option.map_none]
        exact ⟨woken.cons _, left⟩
      | cons value later =>
        obtain ⟨woken, left⟩ := ih later
        simp only [collectClosedRecvOutcomes, List.filter_cons_of_pos, decide_true, List.map_cons,
          List.filterMap_cons, ChannelWaiter.swept, ChannelPhase.swept, Option.map_none]
        exact ⟨List.perm_middle.trans (woken.cons _), left⟩
    | pending =>
      cases buffered with
      | nil =>
        obtain ⟨woken, left⟩ := ih []
        exact ⟨woken, .cons ⟨rfl, ChannelPhase.noConfusion, ChannelPhase.noConfusion⟩ left⟩
      | cons value later =>
        obtain ⟨woken, left⟩ := ih later
        exact ⟨woken, .cons ⟨rfl, ChannelPhase.noConfusion, ChannelPhase.noConfusion⟩ left⟩
    | value =>
      obtain ⟨woken, left⟩ := ih buffered
      exact ⟨woken, .cons ⟨rfl, ChannelPhase.noConfusion, ChannelPhase.noConfusion⟩ left⟩
    | closed =>
      obtain ⟨woken, left⟩ := ih buffered
      exact ⟨woken, .cons ⟨rfl, ChannelPhase.noConfusion, ChannelPhase.noConfusion⟩ left⟩

theorem swept_woken {α β : Type} [DecidableEq β] {key : α → Nat} {phase : α → β} {committed : β} {queue : List α}
    {change : α → Option α} {status : Nat → Status} (rows : Matches key phase committed queue status)
    (keeps : ∀ before after, change before = some after → key after = key before ∧ phase after ≠ committed)
    (gone : ∀ entry, change entry = none ↔ phase entry = committed) {woken : List Nat}
    (wakes : woken.Perm ((queue.filter (phase · = committed)).map key)) :
    woken.Nodup ∧ (∀ id ∈ woken, status id = .parked) ∧
      Matches key phase committed (queue.filterMap change) fun id => if id ∈ woken then .absent else status id := by
  have parked : ∀ id, id ∈ woken ↔ status id = .parked := by
    intro id
    rw [wakes.mem_iff, rows.parked_iff id]
    simp [and_assoc]
  refine ⟨wakes.nodup_iff.mpr (rows.keys_nodup _), fun id => (parked id).mp, (rows.swept keeps gone).congr ?_⟩
  intro id
  simp only [parked]

theorem Section.serveBoth {handle : Nat} {slot : ChannelSlot Nat} {receivers senders : List Nat}
    (nodup : receivers.Nodup) (parked : ∀ id ∈ receivers, s.status (.chanRecv handle) id = .parked)
    (rows : Receivers slot.waiters fun id => if id ∈ receivers then .absent else s.status (.chanRecv handle) id)
    (nodup' : senders.Nodup) (parked' : ∀ id ∈ senders, s.status (.chanSend handle) id = .parked)
    (rows' : Senders slot.pending fun id => if id ∈ senders then .absent else s.status (.chanSend handle) id) :
    ∃ mid, Section s carrier id (.chanRecv handle) mid ∧ mid.control = s.control ∧
      Section mid carrier id (.chanSend handle)
        (((s.setChannel handle slot).serve (.chanRecv handle) receivers).serve (.chanSend handle) senders) := by
  have first : Section s carrier id (.chanRecv handle)
      ((s.setChannel handle { slot with pending := (s.channels handle).pending }).serve (.chanRecv handle) receivers) :=
    .served (.setReceivers { slot with pending := (s.channels handle).pending } rfl) Table.noConfusion nodup parked
      (setReceivers_rows rows)
  have status : State.status ((s.setChannel handle { slot with pending := (s.channels handle).pending }).serve
      (.chanRecv handle) receivers) (.chanSend handle) = s.status (.chanSend handle) :=
    status_take (fun id member => Post.status_parked (parked id member)) rfl Table.noConfusion
  refine ⟨_, first, rfl, ?_⟩
  have second := @Section.served _ carrier id _ _ _
    (@Touches.setSenders ((s.setChannel handle { slot with pending := (s.channels handle).pending }).serve
      (.chanRecv handle) receivers) handle slot (by simp [State.serve, State.setChannel]))
    Table.noConfusion nodup' (by rw [status]; exact parked') (by rw [status]; exact setSenders_rows rows')
  simpa [State.serve, State.setChannel] using second

theorem Inv.channelClose (inv : Inv s) (carrier id handle : Nat) :
    ∃ mid, Section s carrier id (.chanRecv handle) mid ∧ mid.control = s.control ∧
      Section mid carrier id (.chanSend handle) (s.channelClose handle) := by
  have receivers : Receivers _ _ := inv.entries.tables (.chanRecv handle)
  have senders : Senders _ _ := inv.entries.tables (.chanSend handle)
  unfold State.channelClose ChannelSlot.close
  by_cases closed : (s.channels handle).closed = true
  · rw [if_pos closed]
    exact Section.serveBoth List.nodup_nil (by simp) (by simpa using receivers) List.nodup_nil (by simp)
      (by simpa using senders)
  · rw [if_neg closed]
    obtain ⟨wakes, left⟩ := collectClosedRecvOutcomes_swept (s.channels handle).waiters (s.channels handle).buffered
    obtain ⟨nodup, parked, rows⟩ := swept_woken receivers
      (fun _ _ sweeps => (ChannelWaiter.swept_some sweeps).2)
      (fun waiter => by rw [ChannelWaiter.swept, Option.map_eq_none_iff]; exact ChannelPhase.swept_eq_none) wakes
    obtain ⟨nodup', parked', rows'⟩ := swept_woken senders
      (fun _ _ sweeps => (PendingSend.swept_some sweeps).2)
      (fun sender => by rw [PendingSend.swept, Option.map_eq_none_iff]; exact ChannelPhase.swept_eq_none) (.refl _)
    exact Section.serveBoth nodup parked (rows.rephased left) nodup' parked' rows'

end NLang.Vm.Dispatch
