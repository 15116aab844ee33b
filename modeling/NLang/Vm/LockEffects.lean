import NLang.Vm.DispatchOnce

/-!
# Steps on mutexes and reentrant mutexes

Both kinds of lock behind one interface, and what any step of dispatch does to them.
-/

namespace NLang.Vm.Dispatch
open NLang.Library.Queues NLang.Library.ParkTables NLang.Vm.Sync

inductive Lock where
  | mutex (handle : Nat)
  | rmutex (handle : Nat)
  deriving DecidableEq

def Lock.table : Lock → Table
  | .mutex handle => .mutex handle
  | .rmutex handle => .rmutex handle

def Lock.unlock (carrier : Nat) : Lock → Action
  | .mutex handle => .mutexUnlock carrier handle
  | .rmutex handle => .rmutexUnlock carrier handle

def Action.locks : Action → Option (Lock × Nat)
  | .mutexLock carrier handle _ => some (.mutex handle, carrier)
  | .mutexTryLock carrier handle => some (.mutex handle, carrier)
  | .rmutexLock carrier handle _ => some (.rmutex handle, carrier)
  | .rmutexTryLock carrier handle => some (.rmutex handle, carrier)
  | _ => none

theorem Lock.table_injective {lock other : Lock} (same : lock.table = other.table) : lock = other := by
  cases lock <;> cases other <;> cases same <;> rfl

namespace State

def owner (s : State) : Lock → Option Nat
  | .mutex handle => (s.mutexes handle).ownerId
  | .rmutex handle => (s.rmutexes handle).ownerId

def lockWaiters (s : State) : Lock → List SyncWaiter
  | .mutex handle => (s.mutexes handle).waiters
  | .rmutex handle => (s.rmutexes handle).waiters

def lockCount (s : State) : Lock → Int
  | .mutex _ => 1
  | .rmutex handle => (s.rmutexes handle).count

def waiting (s : State) (lock : Lock) : List Nat := queued (s.lockWaiters lock)

def unlockRaises (s : State) (id : Nat) : Lock → Prop
  | .mutex handle => ∃ text, (s.mutexes handle).unlock id = .error text
  | .rmutex handle => ∃ text, (s.rmutexes handle).unlock id = .error text

end State

variable {s s' : State} {carrier id : Nat} {table : Table} {lock : Lock}

structure OnlyLock (s s' : State) (lock : Lock) : Prop where
  owner : ∀ other, other ≠ lock → s'.owner other = s.owner other
  count : ∀ other, other ≠ lock → s'.lockCount other = s.lockCount other
  waiters : ∀ other, other ≠ lock → s'.lockWaiters other = s.lockWaiters other
  holds : ∀ other, other ≠ lock → s'.holds other.table = s.holds other.table
  granted : ∀ other, other ≠ lock → ∀ id, s'.post id = .granted other.table ↔ s.post id = .granted other.table

def Holds (s s' : State) (lock : Lock) (id : Nat) (count : Nat) : Prop :=
  s'.holds lock.table = Function.update (s.holds lock.table) id count

inductive Enters (s s' : State) (lock : Lock) (id : Nat) : Prop where
  | takes : s.owner lock = none → s'.owner lock = some id → s'.lockCount lock = 1 →
      s'.lockWaiters lock = s.lockWaiters lock → Holds s s' lock id (s.holds lock.table id + 1) → s'.post = s.post →
      Enters s s' lock id
  | reenters : s.owner lock = some id → s'.owner lock = some id →
      s'.lockCount lock = int32 (s.lockCount lock + 1) → s'.lockWaiters lock = s.lockWaiters lock →
      Holds s s' lock id (s.holds lock.table id + 1) → s'.post = s.post → Enters s s' lock id
  | queues : s.owner lock ≠ none → s'.owner lock = s.owner lock → s'.lockCount lock = s.lockCount lock →
      s'.lockWaiters lock = s.lockWaiters lock ++ [{ contextId := id }] → s'.holds lock.table = s.holds lock.table →
      s'.post = Function.update s.post id (.registered lock.table) → Enters s s' lock id

inductive Gives (s s' : State) (lock : Lock) (id : Nat) : Prop where
  | unnests : s.owner lock = some id → 0 < int32 (s.lockCount lock - 1) → s'.owner lock = some id →
      s'.lockCount lock = int32 (s.lockCount lock - 1) → s'.lockWaiters lock = s.lockWaiters lock →
      Holds s s' lock id (s.holds lock.table id - 1) → s'.post = s.post → Gives s s' lock id
  | frees : s.owner lock = some id → ¬ 0 < int32 (s.lockCount lock - 1) → handOff (s.lockWaiters lock) = none →
      s'.owner lock = none → s'.lockWaiters lock = s.lockWaiters lock →
      Holds s s' lock id (s.holds lock.table id - 1) → s'.post = s.post → Gives s s' lock id
  | hands (next : SyncWaiter) (left : List SyncWaiter) : s.owner lock = some id →
      ¬ 0 < int32 (s.lockCount lock - 1) → handOff (s.lockWaiters lock) = some (next, left) →
      s'.owner lock = some next.contextId → s'.lockCount lock = 1 → s'.lockWaiters lock = left →
      Holds s s' lock id (s.holds lock.table id - 1) →
      (s'.post = fun waiter => if waiter ∈ next.wakes.toList then .granted lock.table else s.post waiter) →
      Gives s s' lock id

inductive Resumes (s s' : State) (lock : Lock) (id : Nat) : Prop where
  | rechecks (result : Recheck) (left : List SyncWaiter) : s.post id = .registered lock.table →
      consumeSyncWaiterStamp (s.lockWaiters lock) id = .ok (result, left) → s'.owner lock = s.owner lock →
      s'.lockCount lock = s.lockCount lock → s'.lockWaiters lock = left → s'.holds lock.table = s.holds lock.table →
      s'.post = Function.update s.post id
        (if result = .requestPark then .committed lock.table else .granted lock.table) → Resumes s s' lock id
  | returns : s.post id = .granted lock.table → s'.owner lock = s.owner lock → s'.lockCount lock = s.lockCount lock →
      s'.lockWaiters lock = s.lockWaiters lock → Holds s s' lock id (s.holds lock.table id + 1) →
      s'.post = Function.update s.post id .free → Resumes s s' lock id

def Unlocked (post : Post) : Prop := ∀ lock : Lock, post ≠ .granted lock.table

def Reposts (s s' : State) : Prop := ∀ id, s'.post id = s.post id ∨ Unlocked (s.post id) ∧ Unlocked (s'.post id)

inductive LockEffect (s : State) (action : Action) (s' : State) : Prop where
  | elsewhere : s'.mutexes = s.mutexes → s'.rmutexes = s.rmutexes → s'.holds = s.holds → Reposts s s' →
      LockEffect s action s'
  | entered (lock : Lock) (carrier id : Nat) : action.locks = some (lock, carrier) →
      s.control id = .on carrier .running → OnlyLock s s' lock → Enters s s' lock id → LockEffect s action s'
  | left (lock : Lock) (carrier id : Nat) : action = lock.unlock carrier → s.control id = .on carrier .running →
      OnlyLock s s' lock → Gives s s' lock id → LockEffect s action s'
  | resumed (lock : Lock) (id : Nat) : OnlyLock s s' lock → Resumes s s' lock id → LockEffect s action s'

theorem Unlocked.free : Unlocked .free := fun _ granted => Post.noConfusion granted

theorem Unlocked.registered : Unlocked (.registered table) := fun _ granted => Post.noConfusion granted

theorem Unlocked.committed : Unlocked (.committed table) := fun _ granted => Post.noConfusion granted

theorem Unlocked.of_apart {post : Post} (apart : ∀ lock : Lock, table ≠ lock.table)
    (stands : post = .granted table) : Unlocked post := fun lock granted =>
  apart lock (Post.granted.inj (stands.symm.trans granted))

theorem Reposts.same (post : s'.post = s.post) : Reposts s s' := fun id => .inl (congrFun post id)

theorem Reposts.update {now : Post} (before : Unlocked (s.post id)) (after : Unlocked now)
    (post : s'.post = Function.update s.post id now) : Reposts s s' := by
  intro waiter
  rw [post]
  by_cases same : waiter = id
  · subst same
    rw [Function.update_self]
    exact .inr ⟨before, after⟩
  · rw [Function.update_of_ne same]
    exact .inl rfl

theorem Reposts.serve {woken : List Nat} (apart : ∀ lock : Lock, table ≠ lock.table)
    (parked : ∀ id ∈ woken, s.post id = .committed table)
    (post : s'.post = fun id => if id ∈ woken then .granted table else s.post id) : Reposts s s' := by
  intro waiter
  rw [post]
  by_cases member : waiter ∈ woken
  · simp only [if_pos member, parked waiter member]
    exact .inr ⟨.committed, .of_apart apart rfl⟩
  · simp only [if_neg member, true_or]

theorem Reposts.trans {mid : State} (first : Reposts s mid) (second : Reposts mid s') : Reposts s s' := by
  intro id
  obtain same | ⟨before, between⟩ := first id
  · rw [← same]
    exact second id
  · obtain same | ⟨-, after⟩ := second id
    · exact .inr ⟨before, same ▸ between⟩
    · exact .inr ⟨before, after⟩

theorem Inv.free (inv : Inv s) (runs : s.control id = .on carrier .running) : s.post id = .free :=
  (inv.executing runs).free

theorem Section.reposts (inv : Inv s) (runs : s.control id = .on carrier .running)
    (apart : ∀ lock : Lock, table ≠ lock.table) (effect : Section s carrier id table s') : Reposts s s' := by
  cases effect with
  | refused => exact .same rfl
  | touched touches => exact .same touches.post
  | registered _ touches =>
    exact .update (inv.free runs ▸ .free) .registered (congrArg (Function.update · id _) touches.post)
  | served touches _ _ parked =>
    refine .serve apart (fun waiter member => Post.status_parked (parked waiter member)) ?_
    exact funext fun waiter => by rw [← touches.post]; rfl

theorem LockEffect.quiet {action : Action} (mutexes : s'.mutexes = s.mutexes) (rmutexes : s'.rmutexes = s.rmutexes)
    (holds : s'.holds = s.holds) (post : s'.post = s.post) : LockEffect s action s' :=
  .elsewhere mutexes rmutexes holds (.same post)

theorem OnlyLock.ofMutex {handle : Nat} (mutexes : ∀ other, other ≠ handle → s'.mutexes other = s.mutexes other)
    (rmutexes : s'.rmutexes = s.rmutexes) (holds : ∀ other, other ≠ .mutex handle → s'.holds other = s.holds other)
    (granted : ∀ other, other ≠ .mutex handle → ∀ id, s'.post id = .granted other ↔ s.post id = .granted other) :
    OnlyLock s s' (.mutex handle) := by
  have elsewhere : ∀ other : Lock, other ≠ .mutex handle → other.table ≠ .mutex handle :=
    fun other apart same => apart (Lock.table_injective same)
  refine ⟨?_, ?_, ?_, fun other apart => holds _ (elsewhere other apart),
    fun other apart => granted _ (elsewhere other apart)⟩
  all_goals
    intro other apart
    cases other with
    | mutex own =>
      have differs : own ≠ handle := fun same => apart (congrArg Lock.mutex same)
      simp [State.owner, State.lockCount, State.lockWaiters, mutexes own differs]
    | rmutex own => simp [State.owner, State.lockCount, State.lockWaiters, rmutexes]

theorem OnlyLock.ofRMutex {handle : Nat} (mutexes : s'.mutexes = s.mutexes)
    (rmutexes : ∀ other, other ≠ handle → s'.rmutexes other = s.rmutexes other)
    (holds : ∀ other, other ≠ .rmutex handle → s'.holds other = s.holds other)
    (granted : ∀ other, other ≠ .rmutex handle → ∀ id, s'.post id = .granted other ↔ s.post id = .granted other) :
    OnlyLock s s' (.rmutex handle) := by
  have elsewhere : ∀ other : Lock, other ≠ .rmutex handle → other.table ≠ .rmutex handle :=
    fun other apart same => apart (Lock.table_injective same)
  refine ⟨?_, ?_, ?_, fun other apart => holds _ (elsewhere other apart),
    fun other apart => granted _ (elsewhere other apart)⟩
  all_goals
    intro other apart
    cases other with
    | mutex own => simp [State.owner, State.lockCount, State.lockWaiters, mutexes]
    | rmutex own =>
      have differs : own ≠ handle := fun same => apart (congrArg Lock.rmutex same)
      simp [State.owner, State.lockCount, State.lockWaiters, rmutexes own differs]

theorem granted_update {now : Post} (before : s.post id = .free ∨ s.post id = .registered table ∨
    s.post id = .granted table) (after : now = .free ∨ now = .registered table ∨ now = .committed table ∨
    now = .granted table) (post : s'.post = Function.update s.post id now) (other : Table) (apart : other ≠ table)
    (waiter : Nat) : s'.post waiter = .granted other ↔ s.post waiter = .granted other := by
  rw [post]
  by_cases same : waiter = id
  · subst same
    rw [Function.update_self]
    have stays : s.post waiter ≠ .granted other := by
      rintro granted
      rw [granted] at before
      obtain before | before | before := before <;> cases before
      exact apart rfl
    have changes : now ≠ .granted other := by
      rintro rfl
      obtain after | after | after | after := after <;> cases after
      exact apart rfl
    exact ⟨fun granted => absurd granted changes, fun granted => absurd granted stays⟩
  · rw [Function.update_of_ne same]

theorem granted_serve {woken : List Nat} (parked : ∀ id ∈ woken, s.post id = .committed table)
    (post : s'.post = fun id => if id ∈ woken then .granted table else s.post id) (other : Table) (apart : other ≠ table)
    (waiter : Nat) : s'.post waiter = .granted other ↔ s.post waiter = .granted other := by
  rw [post]
  by_cases member : waiter ∈ woken
  · simp only [if_pos member, parked waiter member]
    exact ⟨fun granted => absurd (Post.granted.inj granted).symm apart, (nomatch ·)⟩
  · simp only [if_neg member]

theorem Inv.lockRows (inv : Inv s) (lock : Lock) : SyncTable (s.lockWaiters lock) (s.status lock.table) := by
  cases lock with
  | mutex handle => exact inv.entries.tables (.mutex handle)
  | rmutex handle => exact inv.entries.tables (.rmutex handle)

theorem handOff_parked (inv : Inv s) {next : SyncWaiter} {left : List SyncWaiter}
    (handed : handOff (s.lockWaiters lock) = some (next, left)) :
    ∀ waiter ∈ next.wakes.toList, s.post waiter = .committed lock.table := by
  have rows := inv.lockRows lock
  obtain ⟨contextId, phase⟩ := next
  intro waiter member
  cases phase with
  | committed =>
    cases List.mem_singleton.mp member
    exact Post.status_parked ((rows.status_of_mem (handOff_live handed).1).2.1 rfl)
  | pending => cases member
  | acquired => cases member

theorem mutexLock_effect (inv : Inv s) (runs : s.control id = .on carrier .running) (handle : Nat)
    (suspensionAllowed : Bool) :
    LockEffect s (.mutexLock carrier handle suspensionAllowed) (s.mutexLock carrier id handle suspensionAllowed) := by
  unfold State.mutexLock MutexSlot.lock
  cases owner : (s.mutexes handle).ownerId with
  | none =>
    refine .entered (.mutex handle) carrier id rfl runs ?_ (.takes owner ?_ rfl ?_ ?_ rfl)
    · refine .ofMutex (fun other apart => Function.update_of_ne apart _ _) rfl
        (fun other apart => Function.update_of_ne apart _ _) fun other _ waiter => Iff.rfl
    · simp [State.owner, State.setMutex, State.locked, State.setHolds]
    · simp [State.lockWaiters, State.setMutex, State.locked, State.setHolds]
    · simp [Holds, Lock.table, State.setMutex, State.locked, State.setHolds]
  | some other =>
    cases suspensionAllowed with
    | false => exact .quiet rfl rfl rfl rfl
    | true =>
      refine .entered (.mutex handle) carrier id rfl runs ?_ (.queues ?_ ?_ rfl ?_ rfl rfl)
      · refine .ofMutex (fun other apart => Function.update_of_ne apart _ _) rfl (fun _ _ => rfl)
          (@granted_update s _ id (.mutex handle) _ (.inl (inv.free runs)) (.inr (.inl rfl)) rfl)
      · simp [State.owner, owner]
      · simp [State.owner, State.setMutex, State.register, State.enter, State.goTo, owner]
      · simp [State.lockWaiters, State.setMutex, State.register, State.enter, State.goTo]

theorem mutexTryLock_effect (runs : s.control id = .on carrier .running) (handle : Nat) :
    LockEffect s (.mutexTryLock carrier handle) (s.mutexTryLock id handle) := by
  unfold State.mutexTryLock MutexSlot.tryLock
  cases owner : (s.mutexes handle).ownerId with
  | none =>
    refine .entered (.mutex handle) carrier id rfl runs ?_ (.takes owner ?_ rfl ?_ ?_ rfl)
    · refine .ofMutex (fun other apart => Function.update_of_ne apart _ _) rfl
        (fun other apart => Function.update_of_ne apart _ _) fun other _ waiter => Iff.rfl
    · simp [State.owner, State.setMutex, State.locked, State.setHolds]
    · simp [State.lockWaiters, State.setMutex, State.locked, State.setHolds]
    · simp [Holds, Lock.table, State.setMutex, State.locked, State.setHolds]
  | some other => exact .quiet (Function.update_eq_self _ _) rfl rfl rfl

theorem mutex_locked_once (s : State) (handle : Nat) : ¬ 0 < int32 (s.lockCount (.mutex handle) - 1) := by
  change ¬ 0 < int32 (1 - 1)
  decide

theorem mutexUnlock_gives (inv : Inv s) {handle : Nat} (owned : (s.mutexes handle).ownerId = some id) :
    OnlyLock s (s.mutexUnlock id handle) (.mutex handle) ∧ Gives s (s.mutexUnlock id handle) (.mutex handle) id := by
  unfold State.mutexUnlock MutexSlot.unlock
  rw [if_neg (not_not_intro owned)]
  cases handed : handOff (s.mutexes handle).waiters with
  | none =>
    refine ⟨?_, .frees owned (mutex_locked_once s handle) handed ?_ ?_ ?_ ?_⟩
    · refine .ofMutex (fun other apart => Function.update_of_ne apart _ _) rfl
        (fun other apart => Function.update_of_ne apart _ _) fun other _ waiter => ?_
      simp [State.serve, State.setMutex, State.unlocked, State.setHolds]
    · simp [State.owner, State.setMutex, State.unlocked, State.setHolds, State.serve]
    · simp [State.lockWaiters, State.setMutex, State.unlocked, State.setHolds, State.serve]
    · simp [Holds, Lock.table, State.setMutex, State.unlocked, State.setHolds, State.serve]
    · simp [State.setMutex, State.unlocked, State.setHolds, State.serve]
  | some result =>
    obtain ⟨next, left⟩ := result
    have parked := @handOff_parked s (.mutex handle) inv next left handed
    refine ⟨?_, .hands next left owned (mutex_locked_once s handle) handed ?_ rfl ?_ ?_ rfl⟩
    · exact .ofMutex (fun other apart => Function.update_of_ne apart _ _) rfl
        (fun other apart => Function.update_of_ne apart _ _)
        (@granted_serve s _ (.mutex handle) next.wakes.toList parked rfl)
    · simp [State.owner, State.setMutex, State.unlocked, State.setHolds, State.serve]
    · simp [State.lockWaiters, State.setMutex, State.unlocked, State.setHolds, State.serve]
    · simp [Holds, Lock.table, State.setMutex, State.unlocked, State.setHolds, State.serve]

theorem rmutexTaken_effect {action : Action} (runs : s.control id = .on carrier .running) {handle : Nat}
    (locks : action.locks = some (.rmutex handle, carrier)) (slot : RMutexSlot) (waiters : slot.waiters = (s.rmutexes handle).waiters) (owner : slot.ownerId = some id)
    (counts : (s.rmutexes handle).ownerId = some id ∧ slot.count = int32 ((s.rmutexes handle).count + 1) ∨
      (s.rmutexes handle).ownerId = none ∧ slot.count = 1) :
    LockEffect s action ((s.setRMutex handle slot).locked (.rmutex handle) id) := by
  have only : OnlyLock s ((s.setRMutex handle slot).locked (.rmutex handle) id) (.rmutex handle) :=
    .ofRMutex rfl (fun other apart => Function.update_of_ne apart _ _)
      (fun other apart => Function.update_of_ne apart _ _) fun other _ waiter => Iff.rfl
  have owner : State.owner ((s.setRMutex handle slot).locked (.rmutex handle) id) (.rmutex handle) = some id := by
    simpa [State.owner, State.setRMutex, State.locked, State.setHolds] using owner
  have left : State.lockWaiters ((s.setRMutex handle slot).locked (.rmutex handle) id) (.rmutex handle) =
      s.lockWaiters (.rmutex handle) := by
    simpa [State.lockWaiters, State.setRMutex, State.locked, State.setHolds] using waiters
  have holds : Holds s ((s.setRMutex handle slot).locked (.rmutex handle) id) (.rmutex handle) id
      (s.holds (.rmutex handle) id + 1) := by
    simp [Holds, Lock.table, State.setRMutex, State.locked, State.setHolds]
  obtain ⟨owned, count⟩ | ⟨free, count⟩ := counts
  · refine .entered (.rmutex handle) carrier id locks runs only (.reenters owned owner ?_ left holds rfl)
    simpa [State.lockCount, State.setRMutex, State.locked, State.setHolds] using count
  · refine .entered (.rmutex handle) carrier id locks runs only (.takes free owner ?_ left holds rfl)
    simpa [State.lockCount, State.setRMutex, State.locked, State.setHolds] using count

theorem rmutexLock_effect (inv : Inv s) (runs : s.control id = .on carrier .running) (handle : Nat)
    (suspensionAllowed : Bool) :
    LockEffect s (.rmutexLock carrier handle suspensionAllowed) (s.rmutexLock carrier id handle suspensionAllowed) := by
  unfold State.rmutexLock RMutexSlot.lock
  by_cases owned : (s.rmutexes handle).ownerId = some id
  · rw [if_pos owned]
    exact rmutexTaken_effect runs rfl _ rfl owned (.inl ⟨owned, rfl⟩)
  · rw [if_neg owned]
    by_cases free : (s.rmutexes handle).ownerId = none
    · rw [if_pos free]
      exact rmutexTaken_effect runs rfl _ rfl rfl (.inr ⟨free, rfl⟩)
    · rw [if_neg free]
      cases suspensionAllowed with
      | false => exact .quiet rfl rfl rfl rfl
      | true =>
        refine .entered (.rmutex handle) carrier id rfl runs ?_ (.queues free ?_ ?_ ?_ rfl rfl)
        · refine .ofRMutex rfl (fun other apart => Function.update_of_ne apart _ _) (fun _ _ => rfl)
            (@granted_update s _ id (.rmutex handle) _ (.inl (inv.free runs)) (.inr (.inl rfl)) rfl)
        · simp [State.owner, State.setRMutex, State.register, State.enter, State.goTo]
        · simp [State.lockCount, State.setRMutex, State.register, State.enter, State.goTo]
        · simp [State.lockWaiters, State.setRMutex, State.register, State.enter, State.goTo]

theorem rmutexTryLock_effect (runs : s.control id = .on carrier .running) (handle : Nat) :
    LockEffect s (.rmutexTryLock carrier handle) (s.rmutexTryLock id handle) := by
  unfold State.rmutexTryLock RMutexSlot.tryLock
  by_cases owned : (s.rmutexes handle).ownerId = some id
  · rw [if_pos owned]
    exact rmutexTaken_effect runs rfl _ rfl owned (.inl ⟨owned, rfl⟩)
  · rw [if_neg owned]
    by_cases free : (s.rmutexes handle).ownerId = none
    · rw [if_pos free]
      exact rmutexTaken_effect runs rfl _ rfl rfl (.inr ⟨free, rfl⟩)
    · rw [if_neg free]
      exact .quiet rfl (Function.update_eq_self _ _) rfl rfl

theorem rmutexUnlock_gives (inv : Inv s) {handle : Nat} (owned : (s.rmutexes handle).ownerId = some id) :
    OnlyLock s (s.rmutexUnlock id handle) (.rmutex handle) ∧
      Gives s (s.rmutexUnlock id handle) (.rmutex handle) id := by
  unfold State.rmutexUnlock RMutexSlot.unlock
  rw [if_neg (not_not_intro owned)]
  by_cases nested : 0 < int32 ((s.rmutexes handle).count - 1)
  · rw [if_pos nested]
    refine ⟨?_, .unnests owned nested ?_ ?_ ?_ ?_ ?_⟩
    · refine .ofRMutex rfl (fun other apart => Function.update_of_ne apart _ _)
        (fun other apart => Function.update_of_ne apart _ _) fun other _ waiter => ?_
      simp [State.serve, State.setRMutex, State.unlocked, State.setHolds]
    · simpa [State.owner, State.setRMutex, State.unlocked, State.setHolds, State.serve] using owned
    · simp [State.lockCount, State.setRMutex, State.unlocked, State.setHolds, State.serve]
    · simp [State.lockWaiters, State.setRMutex, State.unlocked, State.setHolds, State.serve]
    · simp [Holds, Lock.table, State.setRMutex, State.unlocked, State.setHolds, State.serve]
    · simp [State.setRMutex, State.unlocked, State.setHolds, State.serve]
  · rw [if_neg nested]
    cases handed : handOff (s.rmutexes handle).waiters with
    | none =>
      refine ⟨?_, .frees owned nested handed ?_ ?_ ?_ ?_⟩
      · refine .ofRMutex rfl (fun other apart => Function.update_of_ne apart _ _)
          (fun other apart => Function.update_of_ne apart _ _) fun other _ waiter => ?_
        simp [State.serve, State.setRMutex, State.unlocked, State.setHolds]
      · simp [State.owner, State.setRMutex, State.unlocked, State.setHolds, State.serve]
      · simp [State.lockWaiters, State.setRMutex, State.unlocked, State.setHolds, State.serve]
      · simp [Holds, Lock.table, State.setRMutex, State.unlocked, State.setHolds, State.serve]
      · simp [State.setRMutex, State.unlocked, State.setHolds, State.serve]
    | some result =>
      obtain ⟨next, left⟩ := result
      have parked := @handOff_parked s (.rmutex handle) inv next left handed
      refine ⟨?_, .hands next left owned nested handed ?_ ?_ ?_ ?_ rfl⟩
      · exact .ofRMutex rfl (fun other apart => Function.update_of_ne apart _ _)
          (fun other apart => Function.update_of_ne apart _ _)
          (@granted_serve s _ (.rmutex handle) next.wakes.toList parked rfl)
      · simp [State.owner, State.setRMutex, State.unlocked, State.setHolds, State.serve]
      · simp [State.lockCount, State.setRMutex, State.unlocked, State.setHolds, State.serve]
      · simp [State.lockWaiters, State.setRMutex, State.unlocked, State.setHolds, State.serve]
      · simp [Holds, Lock.table, State.setRMutex, State.unlocked, State.setHolds, State.serve]

theorem unlock_gives (inv : Inv s) (runs : s.running carrier = some id) (owned : s.owner lock = some id)
    (taken : s.step (lock.unlock carrier) = some s') : OnlyLock s s' lock ∧ Gives s s' lock id := by
  cases lock with
  | mutex handle =>
    simp only [Lock.unlock, State.step, State.act, runs, Option.map_some, Option.some.injEq] at taken
    subst taken
    exact mutexUnlock_gives inv owned
  | rmutex handle =>
    simp only [Lock.unlock, State.step, State.act, runs, Option.map_some, Option.some.injEq] at taken
    subst taken
    exact rmutexUnlock_gives inv owned

theorem unlock_refused (runs : s.running carrier = some id) (other : s.owner lock ≠ some id) :
    s.unlockRaises id lock ∧ s.step (lock.unlock carrier) = some s := by
  cases lock with
  | mutex handle =>
    have raises : (s.mutexes handle).unlock id = .error "NLang VM: Mutex.unlock without holding the lock" :=
      if_pos other
    refine ⟨⟨_, raises⟩, ?_⟩
    simp only [Lock.unlock, State.step, State.act, runs, Option.map_some, State.mutexUnlock, raises]
  | rmutex handle =>
    have raises : (s.rmutexes handle).unlock id = .error "NLang VM: ReentrantMutex.unlock without holding the lock" :=
      if_pos other
    refine ⟨⟨_, raises⟩, ?_⟩
    simp only [Lock.unlock, State.step, State.act, runs, Option.map_some, State.rmutexUnlock, raises]

theorem unlock_effect (inv : Inv s) (window : s.window carrier = some id) (runs : s.control id = .on carrier .running)
    (taken : s.step (lock.unlock carrier) = some s') : LockEffect s (lock.unlock carrier) s' := by
  have executes : s.running carrier = some id := by
    unfold State.running
    rw [window]
    simp [Option.filter, runs]
  by_cases owned : s.owner lock = some id
  · obtain ⟨only, gives⟩ := unlock_gives inv executes owned taken
    exact .left lock carrier id rfl runs only gives
  · obtain ⟨-, same⟩ := unlock_refused executes owned
    cases same.symm.trans taken
    exact .quiet rfl rfl rfl rfl

theorem returns_effect {action : Action} (s : State) (sched : Scheduler) (carrier id : Nat) :
    LockEffect s action (({ s with sched }.parkedCallReturns id).goTo carrier id .running) := by
  unfold State.parkedCallReturns
  cases post : s.post id with
  | granted table =>
    cases table with
    | mutex handle =>
      refine .resumed (.mutex handle) id ?_ (.returns post rfl rfl rfl
        (by simp [Holds, Lock.table, State.locked, State.setHolds, State.goTo]) rfl)
      exact .ofMutex (fun _ _ => rfl) rfl (fun other apart => Function.update_of_ne apart _ _)
        (@granted_update s _ id (.mutex handle) _ (.inr (.inr post)) (.inl rfl) rfl)
    | rmutex handle =>
      refine .resumed (.rmutex handle) id ?_ (.returns post rfl rfl rfl
        (by simp [Holds, Lock.table, State.locked, State.setHolds, State.goTo]) rfl)
      exact .ofRMutex rfl (fun _ _ => rfl) (fun other apart => Function.update_of_ne apart _ _)
        (@granted_update s _ id (.rmutex handle) _ (.inr (.inr post)) (.inl rfl) rfl)
    | _ =>
      exact .elsewhere rfl rfl rfl
        (.update (.of_apart (fun lock same => by cases lock <;> cases same) post) .free rfl)
  | _ =>
    exact .elsewhere rfl rfl rfl (.update (fun _ granted => by cases post.symm.trans granted) .free rfl)

theorem recheckEntry_locks {parks : Bool} (apart : ∀ lock : Lock, table ≠ lock.table)
    (rechecked : s.recheckEntry id table = .ok (parks, s')) :
    s'.mutexes = s.mutexes ∧ s'.rmutexes = s.rmutexes ∧ s'.holds = s.holds ∧ s'.post = s.post := by
  cases table with
  | mutex handle => exact absurd rfl (apart (.mutex handle))
  | rmutex handle => exact absurd rfl (apart (.rmutex handle))
  | semaphore handle =>
    simp only [State.recheckEntry] at rechecked
    cases stamp : consumeSyncWaiterStamp (s.semaphores handle).waiters id <;> rw [stamp] at rechecked <;>
      cases rechecked
    exact ⟨rfl, rfl, rfl, rfl⟩
  | chanRecv handle =>
    simp only [State.recheckEntry] at rechecked
    cases entry : (s.channels handle).commitOrAbortChanRecv id <;> rw [entry] at rechecked <;> cases rechecked
    exact ⟨rfl, rfl, rfl, rfl⟩
  | chanSend handle =>
    simp only [State.recheckEntry] at rechecked
    cases entry : (s.channels handle).commitOrAbortChanSend id <;> rw [entry] at rechecked <;> cases rechecked
    exact ⟨rfl, rfl, rfl, rfl⟩
  | classInit owner => cases rechecked
  | timer => cases rechecked
  | io => cases rechecked
  | join => cases rechecked

theorem recheck_elsewhere {action : Action} (inv : Inv s) (stands : s.control id = .on carrier (.migrated table))
    (apart : ∀ lock : Lock, table ≠ lock.table) : LockEffect s action (s.recheck carrier id table) := by
  obtain ⟨registered, -⟩ := inv.ok_at stands
  have post : s.post id = .registered table := registered.post
  have status : s.status table id = .registered := by
    unfold State.status Post.status
    rw [post]
    exact if_pos rfl
  obtain ⟨parks, after, found, -, -⟩ := recheckEntry_found inv status registered.rechecks
  obtain ⟨mutexes, rmutexes, holds, posts⟩ := recheckEntry_locks apart found
  unfold State.recheck
  rw [found]
  cases parks with
  | true =>
    exact .elsewhere mutexes rmutexes holds
      (.update (post ▸ .registered) .committed (congrArg (Function.update · id _) posts))
  | false =>
    exact .elsewhere mutexes rmutexes holds
      (.update (post ▸ .registered) (.of_apart apart rfl) (congrArg (Function.update · id _) posts))

theorem recheck_effect {action : Action} (inv : Inv s) (stands : s.control id = .on carrier (.migrated table)) :
    LockEffect s action (s.recheck carrier id table) := by
  obtain ⟨registered, -⟩ := inv.ok_at stands
  have post : s.post id = .registered table := registered.post
  have status : s.status table id = .registered := by
    unfold State.status Post.status
    rw [post]
    exact if_pos rfl
  unfold State.recheck
  cases table with
  | mutex handle =>
    obtain ⟨result, left, found, -⟩ := SyncTable.recheck (inv.entries.tables (.mutex handle)) status
    simp only [State.recheckEntry, found, Except.map]
    have only : ∀ now stage, now = .committed (.mutex handle) ∨ now = .granted (.mutex handle) →
        OnlyLock s (State.goTo { s.setMutex handle { s.mutexes handle with waiters := left } with
          post := Function.update s.post id now } carrier id stage) (.mutex handle) := fun now stage kind =>
      .ofMutex (fun other apart => Function.update_of_ne apart _ _) rfl (fun _ _ => rfl)
        (@granted_update s _ id (.mutex handle) now (.inr (.inl post)) (.inr (.inr kind)) rfl)
    cases result with
    | requestPark =>
      refine .resumed (.mutex handle) id (only _ _ (.inl rfl)) (.rechecks .requestPark left post found ?_ rfl ?_ rfl
        rfl)
      · simp [State.owner, State.setMutex, State.goTo]
      · simp [State.lockWaiters, State.setMutex, State.goTo]
    | consumed =>
      refine .resumed (.mutex handle) id (only _ _ (.inr rfl)) (.rechecks .consumed left post found ?_ rfl ?_ rfl rfl)
      · simp [State.owner, State.setMutex, State.goTo]
      · simp [State.lockWaiters, State.setMutex, State.goTo]
  | rmutex handle =>
    obtain ⟨result, left, found, -⟩ := SyncTable.recheck (inv.entries.tables (.rmutex handle)) status
    simp only [State.recheckEntry, found, Except.map]
    have only : ∀ now stage, now = .committed (.rmutex handle) ∨ now = .granted (.rmutex handle) →
        OnlyLock s (State.goTo { s.setRMutex handle { s.rmutexes handle with waiters := left } with
          post := Function.update s.post id now } carrier id stage) (.rmutex handle) := fun now stage kind =>
      .ofRMutex rfl (fun other apart => Function.update_of_ne apart _ _) (fun _ _ => rfl)
        (@granted_update s _ id (.rmutex handle) now (.inr (.inl post)) (.inr (.inr kind)) rfl)
    cases result with
    | requestPark =>
      refine .resumed (.rmutex handle) id (only _ _ (.inl rfl)) (.rechecks .requestPark left post found ?_ ?_ ?_ rfl
        rfl)
      · simp [State.owner, State.setRMutex, State.goTo]
      · simp [State.lockCount, State.setRMutex, State.goTo]
      · simp [State.lockWaiters, State.setRMutex, State.goTo]
    | consumed =>
      refine .resumed (.rmutex handle) id (only _ _ (.inr rfl)) (.rechecks .consumed left post found ?_ ?_ ?_ rfl
        rfl)
      · simp [State.owner, State.setRMutex, State.goTo]
      · simp [State.lockCount, State.setRMutex, State.goTo]
      · simp [State.lockWaiters, State.setRMutex, State.goTo]
  | _ => exact recheck_elsewhere inv stands fun lock same => by cases lock <;> cases same

theorem parkAtOnce_effect {action : Action} (inv : Inv s) (runs : s.control id = .on carrier .running)
    (mutexes : s'.mutexes = s.mutexes) (rmutexes : s'.rmutexes = s.rmutexes) (holds : s'.holds = s.holds)
    (post : s'.post = s.post) : LockEffect s action (s'.parkAtOnce carrier id table) :=
  .elsewhere mutexes rmutexes holds
    (.update (inv.free runs ▸ .free) .committed (congrArg (Function.update · id _) post))

theorem join_effect {action : Action} (inv : Inv s) (runs : s.control id = .on carrier .running) (targetId : Nat)
    (destination suspensionAllowed : Bool) :
    LockEffect s action (s.join carrier id targetId destination suspensionAllowed) := by
  unfold State.join
  split
  · exact .quiet rfl rfl rfl rfl
  · split
    · exact .quiet rfl rfl rfl rfl
    · exact .quiet rfl rfl rfl rfl
    · split
      · exact parkAtOnce_effect inv runs rfl rfl rfl rfl
      · exact .quiet rfl rfl rfl rfl

theorem selectAny_effect {action : Action} (inv : Inv s) (runs : s.control id = .on carrier .running)
    (targets : List (Nat × Nat)) (suspensionAllowed : Bool) :
    LockEffect s action (s.selectAny carrier id targets suspensionAllowed) := by
  unfold State.selectAny
  split
  · exact .quiet rfl rfl rfl rfl
  · split
    · split
      · exact .quiet rfl rfl rfl rfl
      · exact parkAtOnce_effect inv runs rfl rfl rfl rfl
    · exact .quiet rfl rfl rfl rfl

theorem nativeParkForIo_effect {action : Action} (inv : Inv s) (runs : s.control id = .on carrier .running)
    (fd : Option Nat) (events : Nat) (deadline : Option Nat) (suspensionAllowed : Bool) :
    LockEffect s action (s.nativeParkForIo carrier id fd events deadline suspensionAllowed) := by
  unfold State.nativeParkForIo
  split
  · exact .quiet rfl rfl rfl rfl
  · split
    · exact .quiet rfl rfl rfl rfl
    · exact parkAtOnce_effect inv runs rfl rfl rfl rfl

theorem join_apart (lock : Lock) : Table.join ≠ lock.table := fun same => by cases lock <;> cases same

theorem joiner_parked (inv : Inv s) {targetId : Nat} {failed : Bool} (member : id ∈ s.joinersOf targetId failed) :
    s.post id = .committed .join := by
  obtain ⟨-, woken⟩ := List.mem_filter.mp member
  obtain ⟨after, woken⟩ := Option.isSome_iff_exists.mp woken
  exact inv.joining (wokenBy_some woken).joined

theorem completePromise_effect {action : Action} (inv : Inv s) (carrier promise : Nat) (outcome : Int ⊕ Nat) :
    LockEffect s action (s.completePromise carrier promise outcome) := by
  unfold State.completePromise
  by_cases pending : (s.sched.contexts promise).state = .parkedPromise
  · rw [if_neg (not_not_intro pending)]
    cases outcome with
    | inl result =>
      obtain ⟨-, settled⟩ := @Inv.settle s carrier inv promise pending
        (fun ctx => { ctx with state := .finished, resultCell := result }) _ rfl (.inl rfl) rfl
      have delivered := settled.deliverResults promise result
      have parked := fun waiter => @joiner_parked _ waiter delivered promise false
      exact .elsewhere rfl rfl rfl (.serve join_apart parked rfl)
    | inr exc =>
      obtain ⟨-, settled⟩ := @Inv.settle s carrier inv promise pending
        (fun ctx => { ctx with state := .failed, failExcHeapIdx := exc }) _ rfl (.inr rfl) rfl
      have parked := fun waiter => @joiner_parked _ waiter settled promise true
      exact .elsewhere rfl rfl rfl (.serve join_apart parked rfl)
  · rw [if_pos pending]
    exact .quiet rfl rfl rfl rfl

theorem io_parked (inv : Inv s) {hit : IoWaitEntry → Bool} :
    ∀ id ∈ (s.sched.ioWaits.filter hit).map IoWaitEntry.contextId, s.post id = .committed .io := by
  intro id member
  obtain ⟨entry, struck, rfl⟩ := List.mem_map.mp member
  have rows : Matches IoWaitEntry.contextId (fun _ => true) true s.sched.ioWaits (s.status .io) :=
    inv.entries.tables .io
  exact Post.status_parked ((rows.status_of_mem (List.mem_filter.mp struck).1).2.1 rfl)

theorem Inv.lockEffect {action : Action} (inv : Inv s) (taken : s.step action = some s') : LockEffect s action s' := by
  have apart : ∀ table : Table, (∀ handle, table ≠ .mutex handle) → (∀ handle, table ≠ .rmutex handle) →
      ∀ lock : Lock, table ≠ lock.table := by
    intro table mutex rmutex lock
    cases lock with
    | mutex handle => exact mutex handle
    | rmutex handle => exact rmutex handle
  cases action with
  | mutexLock carrier handle suspensionAllowed =>
    obtain ⟨id, -, runs, rfl⟩ := act_eq taken
    exact mutexLock_effect inv runs handle suspensionAllowed
  | mutexTryLock carrier handle =>
    obtain ⟨id, -, runs, rfl⟩ := act_eq taken
    exact mutexTryLock_effect runs handle
  | mutexUnlock carrier handle =>
    obtain ⟨id, window, runs, -⟩ := act_eq taken
    exact @unlock_effect s s' carrier id (.mutex handle) inv window runs taken
  | rmutexLock carrier handle suspensionAllowed =>
    obtain ⟨id, -, runs, rfl⟩ := act_eq taken
    exact rmutexLock_effect inv runs handle suspensionAllowed
  | rmutexTryLock carrier handle =>
    obtain ⟨id, -, runs, rfl⟩ := act_eq taken
    exact rmutexTryLock_effect runs handle
  | rmutexUnlock carrier handle =>
    obtain ⟨id, window, runs, -⟩ := act_eq taken
    exact @unlock_effect s s' carrier id (.rmutex handle) inv window runs taken
  | semaphoreAcquire carrier handle suspensionAllowed =>
    obtain ⟨id, -, runs, rfl⟩ := act_eq taken
    refine .elsewhere ?_ ?_ ?_ ((inv.semaphoreAcquire runs handle suspensionAllowed).reposts inv runs
      (apart _ (fun _ => Table.noConfusion) fun _ => Table.noConfusion)) <;>
    · unfold State.semaphoreAcquire
      split <;> rfl
  | semaphoreTryAcquire carrier handle =>
    obtain ⟨id, -, -, rfl⟩ := act_eq taken
    exact .quiet rfl rfl rfl rfl
  | semaphoreRelease carrier handle =>
    obtain ⟨id, -, runs, rfl⟩ := act_eq taken
    exact .elsewhere rfl rfl rfl ((inv.semaphoreRelease carrier id handle).reposts inv runs
      (apart _ (fun _ => Table.noConfusion) fun _ => Table.noConfusion))
  | channelSend carrier handle value suspensionAllowed =>
    obtain ⟨id, -, runs, rfl⟩ := act_eq taken
    obtain ⟨table, kind, effect⟩ := inv.channelSend runs handle value suspensionAllowed
    have reposts := effect.reposts inv runs (apart _ (by obtain rfl | rfl := kind <;> exact fun _ => Table.noConfusion)
      (by obtain rfl | rfl := kind <;> exact fun _ => Table.noConfusion))
    refine .elsewhere ?_ ?_ ?_ reposts <;>
    · unfold State.channelSend
      split <;> rfl
  | channelRecv carrier handle suspensionAllowed =>
    obtain ⟨id, -, runs, rfl⟩ := act_eq taken
    obtain ⟨table, kind, effect⟩ := inv.channelRecv runs handle suspensionAllowed
    have reposts := effect.reposts inv runs (apart _ (by obtain rfl | rfl := kind <;> exact fun _ => Table.noConfusion)
      (by obtain rfl | rfl := kind <;> exact fun _ => Table.noConfusion))
    refine .elsewhere ?_ ?_ ?_ reposts <;>
    · unfold State.channelRecv
      split <;> rfl
  | channelClose carrier handle =>
    obtain ⟨id, -, runs, rfl⟩ := act_eq taken
    obtain ⟨mid, first, control, second⟩ := inv.channelClose carrier id handle
    exact .elsewhere rfl rfl rfl
      ((first.reposts inv runs (apart _ (fun _ => Table.noConfusion) fun _ => Table.noConfusion)).trans
        (second.reposts (inv.section runs first) (control ▸ runs)
          (apart _ (fun _ => Table.noConfusion) fun _ => Table.noConfusion)))
  | migrate carrier =>
    obtain ⟨id, stage, -, -, taken⟩ := at_eq inv.places taken
    cases stage <;> cases taken
    exact .quiet rfl rfl rfl rfl
  | recheck carrier =>
    obtain ⟨id, stage, -, stands, taken⟩ := at_eq inv.places taken
    cases stage <;> cases taken
    exact recheck_effect inv stands
  | abort carrier =>
    obtain ⟨id, stage, -, -, taken⟩ := at_eq inv.places taken
    cases stage <;> cases taken
    exact returns_effect s _ carrier id
  | sleep carrier wakeAt suspensionAllowed =>
    obtain ⟨id, -, runs, rfl⟩ := act_eq taken
    cases suspensionAllowed with
    | false => exact .quiet rfl rfl rfl rfl
    | true => exact parkAtOnce_effect inv runs rfl rfl rfl rfl
  | join carrier targetId destination suspensionAllowed =>
    obtain ⟨id, -, runs, rfl⟩ := act_eq taken
    exact join_effect inv runs targetId destination suspensionAllowed
  | selectAny carrier targets suspensionAllowed =>
    obtain ⟨id, -, runs, rfl⟩ := act_eq taken
    exact selectAny_effect inv runs targets suspensionAllowed
  | completePromise carrier promise outcome =>
    obtain ⟨id, -, -, rfl⟩ := act_eq taken
    exact completePromise_effect inv carrier promise outcome
  | newPromise carrier =>
    obtain ⟨id, -, -, rfl⟩ := act_eq taken
    exact .quiet rfl rfl rfl rfl
  | spawn carrier root =>
    obtain ⟨id, -, -, rfl⟩ := act_eq taken
    exact .quiet rfl rfl rfl rfl
  | parkOnClassInit carrier owner initializing =>
    obtain ⟨id, -, runs, rfl⟩ := act_eq taken
    cases initializing with
    | false => exact .quiet rfl rfl rfl rfl
    | true => exact parkAtOnce_effect inv runs rfl rfl rfl rfl
  | enterNative carrier stack =>
    obtain ⟨id, -, -, rfl⟩ := act_eq taken
    exact .quiet rfl rfl rfl rfl
  | nativeParkForIo carrier fd events deadline suspensionAllowed =>
    obtain ⟨id, -, runs, rfl⟩ := act_eq taken
    exact nativeParkForIo_effect inv runs fd events deadline suspensionAllowed
  | leaveNative carrier stolenDepth =>
    obtain ⟨id, -, -, rfl⟩ := act_eq taken
    exact .quiet rfl rfl rfl rfl
  | preempt carrier =>
    obtain ⟨id, -, -, rfl⟩ := act_eq taken
    exact .quiet rfl rfl rfl rfl
  | finish carrier result =>
    obtain ⟨id, -, -, rfl⟩ := act_eq taken
    exact .quiet rfl rfl rfl rfl
  | fail carrier exc =>
    obtain ⟨id, -, -, rfl⟩ := act_eq taken
    exact .quiet rfl rfl rfl rfl
  | park carrier frames =>
    obtain ⟨id, stage, -, -, taken⟩ := at_eq inv.places taken
    cases stage <;> cases taken
    exact .quiet rfl rfl rfl rfl
  | parkSlice carrier stack keepBelow =>
    obtain ⟨id, stage, -, -, taken⟩ := at_eq inv.places taken
    cases stage <;> cases taken
    exact .quiet rfl rfl rfl rfl
  | pop carrier =>
    by_cases busy : (s.window carrier).isSome = true
    · simp only [State.step, if_pos busy] at taken
      cases taken
    · simp only [State.step, if_neg busy] at taken
      obtain ⟨⟨id, sched⟩, -, rfl⟩ := Option.map_eq_some_iff.mp taken
      exact .quiet rfl rfl rfl rfl
  | resume carrier =>
    obtain ⟨id, stage, -, -, taken⟩ := at_eq inv.places taken
    cases stage <;> cases taken
    exact returns_effect s _ carrier id
  | resumePinned carrier =>
    obtain ⟨id, stage, -, -, taken⟩ := at_eq inv.places taken
    cases stage <;> cases taken
    exact returns_effect s _ carrier id
  | setPumpToken carrier token =>
    cases taken
    exact .quiet rfl rfl rfl rfl
  | pinContext id token =>
    cases taken
    exact .quiet rfl rfl rfl rfl
  | setFocus focus =>
    cases taken
    exact .quiet rfl rfl rfl rfl
  | setFreeze depth =>
    cases taken
    exact .quiet rfl rfl rfl rfl
  | wake index =>
    cases flies : s.flying[index]? <;> simp only [State.step, flies] at taken <;> cases taken
    exact .quiet rfl rfl rfl rfl
  | wakeClassInit owner =>
    cases taken
    have rows : Matches id (fun _ => true) true (s.classWaiters owner) (s.status (.classInit owner)) :=
      inv.entries.tables (.classInit owner)
    exact .elsewhere rfl rfl rfl (.serve (apart (.classInit owner) (fun _ => Table.noConfusion) fun _ =>
      Table.noConfusion) (fun id member => Post.status_parked ((rows.status_of_mem member).2.1 rfl)) rfl)
  | deliverResults index =>
    cases decides : s.deciding[index]? with
    | none =>
      simp only [State.step, decides] at taken
      cases taken
    | some entry =>
      obtain ⟨targetId, failed⟩ := entry
      simp only [State.step, decides] at taken
      cases failed <;> cases taken
      exact .quiet rfl rfl rfl rfl
  | wakeJoiners index =>
    cases decides : s.deciding[index]? with
    | none =>
      simp only [State.step, decides] at taken
      cases taken
    | some entry =>
      simp only [State.step, decides] at taken
      cases taken
      exact .elsewhere rfl rfl rfl (.serve join_apart (fun _ member => joiner_parked inv member) rfl)
  | expireTimers now =>
    cases taken
    have rows : Matches TimerEntry.contextId (fun _ => true) true s.sched.timers (s.status .timer) :=
      inv.entries.tables .timer
    refine .elsewhere rfl rfl rfl (.serve (apart .timer (fun _ => Table.noConfusion) fun _ => Table.noConfusion)
      (fun id member => ?_) rfl)
    obtain ⟨entry, due, rfl⟩ := List.mem_map.mp member
    have present := (List.mem_filter.mp (List.mem_filter.mp due).1).1
    exact Post.status_parked ((rows.status_of_mem present).2.1 rfl)
  | harvestIo ready now =>
    cases taken
    have io := apart .io (fun _ => Table.noConfusion) fun _ => Table.noConfusion
    exact .elsewhere rfl rfl rfl ((Reposts.serve io (io_parked inv) rfl).trans
      (.serve io (io_parked (inv.harvest (IoWaitEntry.reported ready))) rfl))
  | closeFd fd =>
    cases taken
    exact .elsewhere rfl rfl rfl (.serve (apart .io (fun _ => Table.noConfusion) fun _ => Table.noConfusion)
      (@io_parked s inv fun entry => decide (entry.fd = some fd)) rfl)

end NLang.Vm.Dispatch
