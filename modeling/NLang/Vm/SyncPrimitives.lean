import NLang.Library.Queues

/-!
# Mutexes, reentrant mutexes and semaphores

What the sections under the Sync domain do to a slot of a side table. The scheduler calls between the sections
are not part of a slot.
-/

namespace NLang.Vm.Sync
open NLang.Library.Queues

def int32 (n : Int) : Int := n.bmod (2 ^ 32)

def int32Max : Int := 2147483647

theorem int32_of_inside {n : Int} (above : -int32Max ≤ n) (below : n ≤ int32Max) : int32 n = n := by
  simp only [int32, int32Max, Int.bmod_def] at above below ⊢
  omega

inductive SyncWaiter.Phase where
  | pending
  | acquired
  | committed
  deriving DecidableEq

structure SyncWaiter where
  contextId : Nat
  phase : SyncWaiter.Phase := .pending

def SyncWaiter.Phase.live : Phase → Bool
  | .pending => true
  | .committed => true
  | .acquired => false

def SyncWaiter.live (waiter : SyncWaiter) : Bool := waiter.phase.live

def SyncWaiter.granted (waiter : SyncWaiter) : Option SyncWaiter :=
  match waiter.phase with
  | .committed => none
  | _ => some { waiter with phase := .acquired }

def SyncWaiter.wakes (waiter : SyncWaiter) : Option Nat :=
  match waiter.phase with
  | .committed => some waiter.contextId
  | _ => none

def handOff : List SyncWaiter → Option (SyncWaiter × List SyncWaiter) := takeFirst SyncWaiter.live SyncWaiter.granted

def SyncWaiter.rechecked (waiter : SyncWaiter) : Option SyncWaiter :=
  match waiter.phase with
  | .pending => some { waiter with phase := .committed }
  | _ => none

inductive Recheck where
  | requestPark
  | consumed
  deriving DecidableEq

def consumeSyncWaiterStamp (waiters : List SyncWaiter) (selfId : Nat) :
    Except String (Recheck × List SyncWaiter) :=
  match takeFirst (·.contextId = selfId) SyncWaiter.rechecked waiters with
  | some (own, left) => .ok (if own.phase = .pending then .requestPark else .consumed, left)
  | none => .error "NLang VM: sync waiter entry vanished"

def suspensionRejected : String := "NLang VM: cannot suspend inside a host call window with no active carrier"

structure MutexSlot where
  ownerId : Option Nat := none
  waiters : List SyncWaiter := []

def MutexSlot.lock (slot : MutexSlot) (selfId : Nat) (suspensionAllowed : Bool) : Except String (Bool × MutexSlot) :=
  match slot.ownerId with
  | none => .ok (false, { slot with ownerId := some selfId })
  | some _ =>
    if suspensionAllowed then .ok (true, { slot with waiters := slot.waiters ++ [{ contextId := selfId }] })
    else .error suspensionRejected

def MutexSlot.tryLock (slot : MutexSlot) (selfId : Nat) : Bool × MutexSlot :=
  match slot.ownerId with
  | none => (true, { slot with ownerId := some selfId })
  | some _ => (false, slot)

def MutexSlot.unlock (slot : MutexSlot) (selfId : Nat) : Except String (Option Nat × MutexSlot) :=
  if slot.ownerId ≠ some selfId then .error "NLang VM: Mutex.unlock without holding the lock"
  else
    match handOff slot.waiters with
    | none => .ok (none, { slot with ownerId := none })
    | some (next, left) => .ok (next.wakes, { ownerId := some next.contextId, waiters := left })

structure RMutexSlot where
  ownerId : Option Nat := none
  count : Int := 0
  waiters : List SyncWaiter := []

def RMutexSlot.lock (slot : RMutexSlot) (selfId : Nat) (suspensionAllowed : Bool) :
    Except String (Bool × RMutexSlot) :=
  if slot.ownerId = some selfId then .ok (false, { slot with count := int32 (slot.count + 1) })
  else if slot.ownerId = none then .ok (false, { slot with ownerId := some selfId, count := 1 })
  else if suspensionAllowed then .ok (true, { slot with waiters := slot.waiters ++ [{ contextId := selfId }] })
  else .error suspensionRejected

def RMutexSlot.tryLock (slot : RMutexSlot) (selfId : Nat) : Bool × RMutexSlot :=
  if slot.ownerId = some selfId then (true, { slot with count := int32 (slot.count + 1) })
  else if slot.ownerId = none then (true, { slot with ownerId := some selfId, count := 1 })
  else (false, slot)

def RMutexSlot.unlock (slot : RMutexSlot) (selfId : Nat) : Except String (Option Nat × RMutexSlot) :=
  if slot.ownerId ≠ some selfId then .error "NLang VM: ReentrantMutex.unlock without holding the lock"
  else if 0 < int32 (slot.count - 1) then .ok (none, { slot with count := int32 (slot.count - 1) })
  else
    match handOff slot.waiters with
    | none => .ok (none, { slot with ownerId := none, count := 0 })
    | some (next, left) => .ok (next.wakes, { ownerId := some next.contextId, count := 1, waiters := left })

structure SemaphoreSlot where
  count : Int := 0
  waiters : List SyncWaiter := []

def SemaphoreSlot.construct (initial : Int) : Except String SemaphoreSlot :=
  if initial < 0 then .error "semaphore initial permit count must be at least 0" else .ok { count := initial }

def SemaphoreSlot.acquire (slot : SemaphoreSlot) (selfId : Nat) (suspensionAllowed : Bool) :
    Except String (Bool × SemaphoreSlot) :=
  if 0 < slot.count then .ok (false, { slot with count := int32 (slot.count - 1) })
  else if suspensionAllowed then .ok (true, { slot with waiters := slot.waiters ++ [{ contextId := selfId }] })
  else .error suspensionRejected

def SemaphoreSlot.tryAcquire (slot : SemaphoreSlot) : Bool × SemaphoreSlot :=
  if 0 < slot.count then (true, { slot with count := int32 (slot.count - 1) }) else (false, slot)

def SemaphoreSlot.release (slot : SemaphoreSlot) : Option Nat × SemaphoreSlot :=
  match handOff slot.waiters with
  | some (next, left) => (next.wakes, { slot with waiters := left })
  | none => (none, { slot with count := int32 (slot.count + 1) })

def phases (waiters : List SyncWaiter) (id : Nat) : List SyncWaiter.Phase :=
  fields SyncWaiter.contextId SyncWaiter.phase waiters id

theorem phases_register (waiters : List SyncWaiter) (selfId id : Nat) :
    phases (waiters ++ [{ contextId := selfId }]) id =
      if id = selfId then phases waiters id ++ [.pending] else phases waiters id := by
  unfold phases
  rw [fields_append]
  by_cases same : id = selfId
  · rw [if_pos same, same]
    exact congrArg _ (fields_cons_self SyncWaiter.contextId SyncWaiter.phase { contextId := selfId } [])
  · rw [if_neg same, fields_cons_of_ne _ _ (by exact same)]
    exact List.append_nil _

theorem SyncWaiter.granted_contextId {waiter left : SyncWaiter} (grants : waiter.granted = some left) :
    left.contextId = waiter.contextId := by
  unfold SyncWaiter.granted at grants
  split at grants <;> cases grants
  rfl

theorem SyncWaiter.granted_not_live {waiter left : SyncWaiter} (grants : waiter.granted = some left) :
    left.live = false := by
  unfold SyncWaiter.granted at grants
  split at grants <;> cases grants
  rfl

theorem SyncWaiter.rechecked_contextId {waiter left : SyncWaiter} (leaves : waiter.rechecked = some left) :
    left.contextId = waiter.contextId := by
  unfold SyncWaiter.rechecked at leaves
  split at leaves <;> cases leaves
  rfl

theorem handOff_none {waiters : List SyncWaiter} :
    handOff waiters = none ↔ ∀ waiter ∈ waiters, waiter.live = false := takeFirst_none

theorem handOff_live {waiters left : List SyncWaiter} {next : SyncWaiter}
    (handed : handOff waiters = some (next, left)) : next ∈ waiters ∧ next.live = true := by
  obtain ⟨before, after, split, -, live, -⟩ := takeFirst_some handed
  exact ⟨by simp [split], live⟩

def queued (waiters : List SyncWaiter) : List Nat :=
  waiters.filterMap fun waiter => if waiter.live then some waiter.contextId else none

theorem queued_eq (waiters : List SyncWaiter) : queued waiters = (waiters.filter SyncWaiter.live).map (·.contextId) := by
  induction waiters with
  | nil => rfl
  | cons waiter rest ih =>
    unfold queued at ih ⊢
    by_cases live : waiter.live = true
    · simp [live, ih]
    · simp [live, ih]

theorem queued_register (waiters : List SyncWaiter) (selfId : Nat) :
    queued (waiters ++ [{ contextId := selfId }]) = queued waiters ++ [selfId] := by
  rw [queued, List.filterMap_append]
  rfl

theorem queued_eq_nil {waiters : List SyncWaiter} : queued waiters = [] ↔ handOff waiters = none := by
  rw [handOff_none, queued, List.filterMap_eq_nil_iff]
  simp

theorem queued_handOff {waiters left : List SyncWaiter} {next : SyncWaiter}
    (handed : handOff waiters = some (next, left)) : queued waiters = next.contextId :: queued left :=
  filterMap_served handed (fun waiter stale => by simp [stale]) (by simp [(handOff_live handed).2])
    fun _ => SyncWaiter.granted_not_live

theorem phases_handOff_of_ne {waiters left : List SyncWaiter} {next : SyncWaiter} {id : Nat}
    (handed : handOff waiters = some (next, left)) (other : id ≠ next.contextId) :
    phases left id = phases waiters id :=
  fields_takeFirst_of_ne handed (fun _ => SyncWaiter.granted_contextId) other

theorem phases_handOff {waiters left : List SyncWaiter} {next : SyncWaiter} {phase : SyncWaiter.Phase}
    (handed : handOff waiters = some (next, left)) (single : phases waiters next.contextId = [phase]) :
    next.phase = phase ∧ phases left next.contextId = if phase = .committed then [] else [.acquired] := by
  obtain ⟨same, leaves⟩ := fields_takeFirst_single handed (fun _ => SyncWaiter.granted_contextId) single
  refine ⟨same, leaves.trans ?_⟩
  subst same
  unfold SyncWaiter.granted
  cases next.phase <;> rfl

theorem stale_recheck {waiters left : List SyncWaiter} {selfId : Nat} {result : Recheck}
    (rechecked : consumeSyncWaiterStamp waiters selfId = .ok (result, left))
    (stale : ∀ waiter ∈ waiters, waiter.live = false) : ∀ waiter ∈ left, waiter.live = false := by
  unfold consumeSyncWaiterStamp at rechecked
  cases found : takeFirst (·.contextId = selfId) SyncWaiter.rechecked waiters with
  | none =>
    rw [found] at rechecked
    cases rechecked
  | some own =>
    rw [found] at rechecked
    cases rechecked
    obtain ⟨before, after, split, -, -, leaves⟩ := takeFirst_some found
    have removed : own.1.rechecked = none := by
      have stamped := stale own.1 (by simp [split])
      unfold SyncWaiter.rechecked
      cases stands : own.1.phase with
      | pending => simp [SyncWaiter.live, SyncWaiter.Phase.live, stands] at stamped
      | acquired => rfl
      | committed => rfl
    intro waiter member
    rw [leaves, removed] at member
    exact stale waiter (by simp [split] at member ⊢; tauto)

theorem consumeSyncWaiterStamp_single {waiters : List SyncWaiter} {selfId : Nat} {phase : SyncWaiter.Phase}
    (single : phases waiters selfId = [phase]) :
    ∃ left, consumeSyncWaiterStamp waiters selfId =
        .ok (if phase = .pending then .requestPark else .consumed, left) ∧
      phases left selfId = (if phase = .pending then [.committed] else []) ∧
      (∀ id, id ≠ selfId → phases left id = phases waiters id) ∧
      (phase ≠ .committed → queued left = queued waiters) := by
  obtain ⟨own, left, found, keyed, same⟩ :=
    @takeFirst_key _ _ SyncWaiter.rechecked SyncWaiter.contextId SyncWaiter.phase waiters selfId phase single
  subst keyed
  refine ⟨left, by rw [consumeSyncWaiterStamp, found, ← same], ?_, fun id other => ?_, fun unparked => ?_⟩
  · refine (fields_takeFirst_single found (fun _ => SyncWaiter.rechecked_contextId) single).2.trans ?_
    subst same
    unfold SyncWaiter.rechecked
    cases own.phase <;> rfl
  · exact fields_takeFirst_of_ne found (fun _ => SyncWaiter.rechecked_contextId) other
  · apply filterMap_takeFirst _ found
    subst same
    unfold SyncWaiter.rechecked SyncWaiter.live
    cases stands : own.phase with
    | pending => rfl
    | acquired => rfl
    | committed => exact absurd stands unparked

end NLang.Vm.Sync
