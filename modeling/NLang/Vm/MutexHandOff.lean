import NLang.Vm.LockEffects

/-!
# Hand-over of mutexes and reentrant mutexes

The locks a context was granted and did not give back are counted against the owner of the lock, in every run in
which frames land and no context nests more locks than the count of a reentrant mutex holds.
-/

namespace NLang.Vm.Dispatch
open NLang.Library.Queues NLang.Library.ParkTables NLang.Library.Runs NLang.Vm.Sync

variable {s s' : State} {carrier id : Nat} {lock : Lock}

def State.handed (s : State) (lock : Lock) (id : Nat) : Prop :=
  s.post id = .granted lock.table ∨ .acquired ∈ phases (s.lockWaiters lock) id

instance (s : State) (lock : Lock) (id : Nat) : Decidable (s.handed lock id) :=
  inferInstanceAs (Decidable (_ ∨ _))

def State.grants (s : State) (lock : Lock) (id : Nat) : Nat :=
  s.holds lock.table id + if s.handed lock id then 1 else 0

def State.Nests (s : State) (action : Action) : Prop :=
  ∀ lock carrier id, action.locks = some (lock, carrier) → s.control id = .on carrier .running →
    s.owner lock = some id → s.lockCount lock < int32Max

structure LockInv (s : State) : Prop where
  balance : ∀ lock id, (s.grants lock id : Int) = if s.owner lock = some id then s.lockCount lock else 0
  fits : ∀ lock id, s.owner lock = some id → 1 ≤ s.lockCount lock ∧ s.lockCount lock ≤ int32Max
  idle : ∀ lock, s.owner lock = none → s.waiting lock = []

theorem phases_of_status (inv : Inv s) (lock : Lock) (id : Nat) :
    (s.status lock.table id).Shows .committed (phases (s.lockWaiters lock) id) := inv.lockRows lock id

theorem phases_of_free (inv : Inv s) (lock : Lock) (free : s.post id = .free ∨ ∃ table, s.post id = .granted table) :
    phases (s.lockWaiters lock) id = [] := by
  have shown := phases_of_status inv lock id
  have absent : s.status lock.table id = .absent := by
    unfold State.status
    obtain free | ⟨table, granted⟩ := free
    · rw [free]
      rfl
    · rw [granted]
      rfl
  rw [absent] at shown
  exact shown

theorem not_handed_of_free (inv : Inv s) (lock : Lock) (free : s.post id = .free) : ¬ s.handed lock id := by
  rintro (granted | stamped)
  · rw [free] at granted
    cases granted
  · rw [phases_of_free inv lock (.inl free)] at stamped
    cases stamped

theorem phases_of_registered (inv : Inv s) (registered : s.post id = .registered lock.table) :
    ∃ phase, phase ≠ .committed ∧ phases (s.lockWaiters lock) id = [phase] := by
  have shown := phases_of_status inv lock id
  have status : s.status lock.table id = .registered := by
    unfold State.status Post.status
    rw [registered]
    exact if_pos rfl
  rw [status] at shown
  exact shown

theorem handed_congr (waiters : s'.lockWaiters lock = s.lockWaiters lock)
    (granted : s'.post id = .granted lock.table ↔ s.post id = .granted lock.table) :
    s'.handed lock id ↔ s.handed lock id := by
  unfold State.handed
  rw [waiters, granted]

theorem grants_congr (holds : s'.holds lock.table id = s.holds lock.table id)
    (handed : s'.handed lock id ↔ s.handed lock id) : s'.grants lock id = s.grants lock id := by
  unfold State.grants
  simp only [holds, handed]

theorem LockInv.step_one (locks : LockInv s) (only : OnlyLock s s' lock)
    (balance : ∀ id, (s'.grants lock id : Int) = if s'.owner lock = some id then s'.lockCount lock else 0)
    (fits : ∀ id, s'.owner lock = some id → 1 ≤ s'.lockCount lock ∧ s'.lockCount lock ≤ int32Max)
    (idle : s'.owner lock = none → s'.waiting lock = []) : LockInv s' where
  balance := by
    intro other id
    by_cases same : other = lock
    · rw [same]
      exact balance id
    · rw [grants_congr (congrFun (only.holds other same) id)
        (handed_congr (only.waiters other same) (only.granted other same id)), only.owner other same,
        only.count other same]
      exact locks.balance other id
  fits := by
    intro other id owned
    by_cases same : other = lock
    · subst same
      exact fits id owned
    · rw [only.owner other same] at owned
      rw [only.count other same]
      exact locks.fits other id owned
  idle := by
    intro other free
    by_cases same : other = lock
    · subst same
      exact idle free
    · rw [only.owner other same] at free
      rw [State.waiting, only.waiters other same]
      exact locks.idle other free

theorem Holds.self {count : Nat} (holds : Holds s s' lock id count) : s'.holds lock.table id = count := by
  rw [holds, Function.update_self]

theorem Holds.other {count waiter : Nat} (holds : Holds s s' lock id count) (apart : waiter ≠ id) :
    s'.holds lock.table waiter = s.holds lock.table waiter := by
  rw [holds, Function.update_of_ne apart]

theorem LockInv.nothing (locks : LockInv s) (other : s.owner lock ≠ some id) :
    s.holds lock.table id = 0 ∧ ¬ s.handed lock id := by
  have balance := locks.balance lock id
  rw [if_neg other] at balance
  unfold State.grants at balance
  by_cases handed : s.handed lock id
  · rw [if_pos handed] at balance
    omega
  · rw [if_neg handed] at balance
    exact ⟨by omega, handed⟩

theorem LockInv.held (inv : Inv s) (locks : LockInv s) (runs : s.control id = .on carrier .running)
    (owned : s.owner lock = some id) : (s.holds lock.table id : Int) = s.lockCount lock := by
  have balance := locks.balance lock id
  rw [if_pos owned] at balance
  unfold State.grants at balance
  rw [if_neg (not_handed_of_free inv lock (inv.free runs))] at balance
  exact balance

theorem LockInv.enters (inv : Inv s) (locks : LockInv s) (runs : s.control id = .on carrier .running)
    (nests : s.owner lock = some id → s.lockCount lock < int32Max) (only : OnlyLock s s' lock)
    (enters : Enters s s' lock id) : LockInv s' := by
  cases enters with
  | takes free owner count waiters holds post =>
    have handed : ∀ waiter, s'.handed lock waiter ↔ s.handed lock waiter := fun waiter =>
      handed_congr waiters (by rw [post])
    have before : ∀ waiter, s.holds lock.table waiter = 0 ∧ ¬ s.handed lock waiter := fun waiter =>
      locks.nothing (by simp [free])
    refine locks.step_one only (fun waiter => ?_) (fun waiter owned => ?_) fun none => ?_
    · unfold State.grants
      rw [if_neg (fun later => (before waiter).2 ((handed waiter).mp later)), owner, count]
      by_cases same : waiter = id
      · subst same
        rw [holds.self, (before waiter).1, if_pos rfl]
        rfl
      · rw [holds.other same, (before waiter).1, if_neg fun equal => same (Option.some.inj equal).symm]
        rfl
    · rw [count]
      decide
    · cases owner.symm.trans none
  | reenters owned owner count waiters holds post =>
    have handed : ∀ waiter, s'.handed lock waiter ↔ s.handed lock waiter := fun waiter =>
      handed_congr waiters (by rw [post])
    obtain ⟨positive, -⟩ := locks.fits lock id owned
    have limit := nests owned
    have count : s'.lockCount lock = s.lockCount lock + 1 := by
      rw [count, int32_of_inside (by simp only [int32Max] at limit ⊢; omega) (by omega)]
    refine locks.step_one only (fun waiter => ?_) (fun waiter _ => ?_) fun none => ?_
    · by_cases same : waiter = id
      · subst same
        have held := locks.held inv runs owned
        unfold State.grants
        rw [if_neg (fun later => not_handed_of_free inv lock (inv.free runs) ((handed waiter).mp later)), owner,
          if_pos rfl, holds.self, count]
        omega
      · rw [grants_congr (holds.other same) (handed waiter), owner, ← owned, locks.balance lock waiter, owned,
          if_neg fun equal => same (Option.some.inj equal).symm,
          if_neg fun equal => same (Option.some.inj equal).symm]
    · rw [count]
      exact ⟨by omega, by omega⟩
    · cases owner.symm.trans none
  | queues owned owner count waiters holds post =>
    have handed : ∀ waiter, s'.handed lock waiter ↔ s.handed lock waiter := by
      intro waiter
      unfold State.handed
      rw [post, waiters, phases_register]
      by_cases same : waiter = id
      · subst same
        rw [Function.update_self, if_pos rfl, inv.free runs, List.mem_append, List.mem_singleton]
        simp
      · rw [Function.update_of_ne same, if_neg same]
    refine locks.step_one only (fun waiter => ?_) (fun waiter mine => ?_) fun none => ?_
    · rw [grants_congr (congrFun holds waiter) (handed waiter), owner, count]
      exact locks.balance lock waiter
    · rw [count]
      exact locks.fits lock waiter (owner ▸ mine)
    · exact absurd (owner.symm.trans none) owned

theorem LockInv.last (locks : LockInv s) (owned : s.owner lock = some id)
    (last : ¬ 0 < int32 (s.lockCount lock - 1)) : s.lockCount lock = 1 := by
  obtain ⟨positive, fits⟩ := locks.fits lock id owned
  rw [int32_of_inside (by simp only [int32Max]; omega) (by omega)] at last
  omega

theorem handed_next (inv : Inv s) {next : SyncWaiter} {left : List SyncWaiter}
    (found : handOff (s.lockWaiters lock) = some (next, left)) (waiters : s'.lockWaiters lock = left)
    (post : s'.post = fun waiter => if waiter ∈ next.wakes.toList then .granted lock.table else s.post waiter) :
    s'.handed lock next.contextId ∧
      ∀ waiter, waiter ≠ next.contextId → (s'.handed lock waiter ↔ s.handed lock waiter) := by
  obtain ⟨member, live⟩ := handOff_live found
  obtain ⟨single, -, -⟩ := (inv.lockRows lock).status_of_mem member
  obtain ⟨-, after⟩ := phases_handOff found single
  refine ⟨?_, fun waiter apart => ?_⟩
  · obtain ⟨contextId, phase⟩ := next
    unfold State.handed
    rw [post, waiters, after]
    cases phase with
    | committed => exact .inl (if_pos (List.mem_singleton_self _))
    | pending => exact .inr (List.mem_singleton_self _)
    | acquired => cases live
  · have unwoken : waiter ∉ next.wakes.toList := by
      intro woken
      obtain ⟨contextId, phase⟩ := next
      cases phase with
      | committed => exact apart (List.mem_singleton.mp woken)
      | pending => cases woken
      | acquired => cases woken
    unfold State.handed
    rw [post, waiters, phases_handOff_of_ne found apart]
    simp only [if_neg unwoken]

theorem LockInv.gives (inv : Inv s) (locks : LockInv s) (runs : s.control id = .on carrier .running)
    (only : OnlyLock s s' lock) (gives : Gives s s' lock id) : LockInv s' := by
  have unhanded := not_handed_of_free inv lock (inv.free runs)
  cases gives with
  | unnests owned nested owner count waiters holds post =>
    have handed : ∀ waiter, s'.handed lock waiter ↔ s.handed lock waiter := fun waiter =>
      handed_congr waiters (by rw [post])
    obtain ⟨positive, fits⟩ := locks.fits lock id owned
    have exactly : int32 (s.lockCount lock - 1) = s.lockCount lock - 1 :=
      int32_of_inside (by simp only [int32Max]; omega) (by omega)
    rw [exactly] at nested count
    refine locks.step_one only (fun waiter => ?_) (fun waiter _ => ?_) fun none => ?_
    · by_cases same : waiter = id
      · subst same
        have held := locks.held inv runs owned
        unfold State.grants
        rw [if_neg fun later => unhanded ((handed waiter).mp later), owner, if_pos rfl, holds.self, count]
        omega
      · rw [grants_congr (holds.other same) (handed waiter), owner, ← owned, locks.balance lock waiter, owned,
          if_neg fun equal => same (Option.some.inj equal).symm,
          if_neg fun equal => same (Option.some.inj equal).symm]
    · rw [count]
      exact ⟨by omega, by omega⟩
    · cases owner.symm.trans none
  | frees owned last found owner waiters holds post =>
    have handed : ∀ waiter, s'.handed lock waiter ↔ s.handed lock waiter := fun waiter =>
      handed_congr waiters (by rw [post])
    have held := locks.held inv runs owned
    rw [locks.last owned last] at held
    refine locks.step_one only (fun waiter => ?_) (fun waiter mine => ?_) fun _ => ?_
    · rw [owner, if_neg (by simp)]
      by_cases same : waiter = id
      · subst same
        unfold State.grants
        rw [if_neg fun later => unhanded ((handed waiter).mp later), holds.self]
        omega
      · obtain ⟨none, apart⟩ := @LockInv.nothing s waiter lock locks fun mine =>
          same (Option.some.inj (owned.symm.trans mine)).symm
        unfold State.grants
        rw [if_neg fun later => apart ((handed waiter).mp later), holds.other same, none]
        rfl
    · cases owner.symm.trans mine
    · rw [State.waiting, waiters]
      exact queued_eq_nil.mpr found
  | hands next left owned last found owner count waiters holds post =>
    obtain ⟨now, others⟩ := handed_next inv found waiters post
    have held := locks.held inv runs owned
    rw [locks.last owned last] at held
    -- the owner itself does not wait
    have apart : next.contextId ≠ id := by
      intro same
      obtain ⟨single, -, -⟩ := (inv.lockRows lock).status_of_mem (handOff_live found).1
      have nowhere := phases_of_free inv lock (.inl (inv.free runs))
      rw [← same] at nowhere
      cases nowhere.symm.trans single
    refine locks.step_one only (fun waiter => ?_) (fun waiter _ => ?_) fun none => ?_
    · rw [owner, count]
      by_cases served : waiter = next.contextId
      · subst served
        obtain ⟨none, -⟩ := @LockInv.nothing s next.contextId lock locks fun mine =>
          apart (Option.some.inj (owned.symm.trans mine)).symm
        unfold State.grants
        rw [if_pos now, if_pos rfl, holds.other apart, none]
        rfl
      · rw [if_neg fun equal => served (Option.some.inj equal).symm]
        unfold State.grants
        by_cases same : waiter = id
        · subst same
          rw [if_neg fun later => unhanded ((others waiter served).mp later), holds.self]
          omega
        · obtain ⟨none, unserved⟩ := @LockInv.nothing s waiter lock locks fun mine =>
            same (Option.some.inj (owned.symm.trans mine)).symm
          rw [if_neg fun later => unserved ((others waiter served).mp later), holds.other same, none]
          rfl
    · rw [count]
      decide
    · cases owner.symm.trans none

theorem LockInv.resumes (inv : Inv s) (locks : LockInv s) (only : OnlyLock s s' lock)
    (resumes : Resumes s s' lock id) : LockInv s' := by
  cases resumes with
  | rechecks result left registered found owner count waiters holds post =>
    obtain ⟨phase, open_entry, single⟩ := phases_of_registered inv registered
    obtain ⟨_, stamp, own, others, order⟩ := consumeSyncWaiterStamp_single single
    rw [stamp] at found
    cases found
    have handed : ∀ waiter, s'.handed lock waiter ↔ s.handed lock waiter := by
      intro waiter
      unfold State.handed
      rw [post, waiters]
      by_cases same : waiter = id
      · subst same
        rw [Function.update_self, own, single, registered]
        cases phase with
        | pending => simp
        | acquired => simp
        | committed => exact absurd rfl open_entry
      · rw [Function.update_of_ne same, others waiter same]
    refine locks.step_one only (fun waiter => ?_) (fun waiter mine => ?_) fun none => ?_
    · rw [grants_congr (congrFun holds waiter) (handed waiter), owner, count]
      exact locks.balance lock waiter
    · rw [count]
      exact locks.fits lock waiter (owner ▸ mine)
    · rw [State.waiting, waiters, order open_entry]
      exact locks.idle lock (owner ▸ none)
  | returns granted owner count waiters holds post =>
    have nowhere := phases_of_free inv lock (.inr ⟨_, granted⟩)
    refine locks.step_one only (fun waiter => ?_) (fun waiter mine => ?_) fun none => ?_
    · rw [owner, count, ← locks.balance lock waiter]
      by_cases same : waiter = id
      · subst same
        have before : s.handed lock waiter := .inl granted
        have after : ¬ s'.handed lock waiter := by
          unfold State.handed
          rw [post, waiters, nowhere, Function.update_self]
          simp
        unfold State.grants
        rw [if_pos before, if_neg after, holds.self]
      · rw [grants_congr (holds.other same) (handed_congr waiters (by rw [post, Function.update_of_ne same]))]
    · rw [count]
      exact locks.fits lock waiter (owner ▸ mine)
    · rw [State.waiting, waiters]
      exact locks.idle lock (owner ▸ none)

theorem LockInv.step {action : Action} (inv : Inv s) (locks : LockInv s) (nests : s.Nests action)
    (effect : LockEffect s action s') : LockInv s' := by
  cases effect with
  | elsewhere mutexes rmutexes holds reposts =>
    have same : ∀ lock, s'.owner lock = s.owner lock ∧ s'.lockCount lock = s.lockCount lock ∧
        s'.lockWaiters lock = s.lockWaiters lock := by
      intro lock
      cases lock with
      | mutex handle => simp [State.owner, State.lockCount, State.lockWaiters, mutexes]
      | rmutex handle => simp [State.owner, State.lockCount, State.lockWaiters, rmutexes]
    have granted : ∀ (lock : Lock) id, s'.post id = .granted lock.table ↔ s.post id = .granted lock.table := by
      intro lock id
      obtain same | ⟨before, after⟩ := reposts id
      · rw [same]
      · exact ⟨fun now => absurd now (after lock), fun now => absurd now (before lock)⟩
    refine ⟨fun lock id => ?_, fun lock id owned => ?_, fun lock none => ?_⟩
    · rw [grants_congr (by rw [holds]) (handed_congr (same lock).2.2 (granted lock id)), (same lock).1, (same lock).2.1]
      exact locks.balance lock id
    · rw [(same lock).2.1]
      exact locks.fits lock id ((same lock).1 ▸ owned)
    · rw [State.waiting, (same lock).2.2]
      exact locks.idle lock ((same lock).1 ▸ none)
  | entered lock carrier id asks runs only enters =>
    exact locks.enters inv runs (nests lock carrier id asks runs) only enters
  | left lock carrier id _ runs only gives => exact locks.gives inv runs only gives
  | resumed lock id only resumes => exact locks.resumes inv only resumes

inductive HandsOn (s : State) (action : Action) (s' : State) (lock : Lock) : Prop where
  | unchanged : s'.owner lock = s.owner lock → s'.waiting lock = s.waiting lock → HandsOn s action s' lock
  | taken (carrier id : Nat) : s.control id = .on carrier .running → s.owner lock = none → s'.owner lock = some id →
      s.waiting lock = [] → s'.waiting lock = [] → HandsOn s action s' lock
  | queued (carrier id : Nat) : s.control id = .on carrier .running → s.owner lock ≠ none →
      s'.owner lock = s.owner lock → s'.waiting lock = s.waiting lock ++ [id] → HandsOn s action s' lock
  | released (carrier id : Nat) : action = lock.unlock carrier → s.control id = .on carrier .running →
      s.owner lock = some id → s'.holds lock.table id = 0 → s'.owner lock = (s.waiting lock).head? →
      s'.waiting lock = (s.waiting lock).tail → HandsOn s action s' lock

structure LockSafe (s : State) : Prop where
  owned : ∀ lock id, 0 < s.holds lock.table id → s.owner lock = some id
  once : ∀ lock, (s.waiting lock).Nodup
  live : ∀ lock id, id ∈ s.waiting lock → s.post id = .registered lock.table ∨ s.post id = .committed lock.table
  kept : ∀ lock id, s.post id = .registered lock.table ∨ s.post id = .committed lock.table →
    id ∈ s.waiting lock ∨ s.owner lock = some id ∧ s.handed lock id
  idle : ∀ lock, s.owner lock = none → s.waiting lock = []
  steps : ∀ action s' lock, s.step action = some s' → HandsOn s action s' lock
  unlocks : ∀ lock carrier id s', s.running carrier = some id → s.owner lock = some id →
    s.step (lock.unlock carrier) = some s' →
    s'.holds lock.table id + 1 = s.holds lock.table id ∧ (s'.owner lock ≠ some id ↔ s'.holds lock.table id = 0)
  refuses : ∀ lock carrier id, s.running carrier = some id → s.owner lock ≠ some id →
    s.unlockRaises id lock ∧ s.step (lock.unlock carrier) = some s

theorem queued_of_phases {waiters : List SyncWaiter} {id : Nat} :
    id ∈ queued waiters ↔ .pending ∈ phases waiters id ∨ .committed ∈ phases waiters id := by
  unfold queued phases fields
  simp only [List.mem_filterMap, List.mem_map, List.mem_filter, decide_eq_true_eq]
  constructor
  · rintro ⟨⟨own, phase⟩, member, shown⟩
    cases phase with
    | pending =>
      cases shown
      exact .inl ⟨_, ⟨member, rfl⟩, rfl⟩
    | committed =>
      cases shown
      exact .inr ⟨_, ⟨member, rfl⟩, rfl⟩
    | acquired => cases shown
  · rintro (⟨⟨own, phase⟩, ⟨member, rfl⟩, rfl⟩ | ⟨⟨own, phase⟩, ⟨member, rfl⟩, rfl⟩)
    · exact ⟨_, member, rfl⟩
    · exact ⟨_, member, rfl⟩

theorem status_post {table : Table} {post : Post} (waits : post.status table ≠ .absent) :
    post = .registered table ∨ post = .committed table := by
  unfold Post.status at waits
  cases post with
  | free => exact absurd rfl waits
  | granted own => exact absurd rfl waits
  | registered own =>
    by_cases same : own = table
    · exact .inl (congrArg Post.registered same)
    · exact absurd (if_neg same) waits
  | committed own =>
    by_cases same : own = table
    · exact .inr (congrArg Post.committed same)
    · exact absurd (if_neg same) waits

theorem LockInv.kept (inv : Inv s) (locks : LockInv s)
    (waits : s.post id = .registered lock.table ∨ s.post id = .committed lock.table) :
    id ∈ s.waiting lock ∨ s.owner lock = some id ∧ s.handed lock id := by
  obtain registered | committed := waits
  · obtain ⟨phase, open_entry, single⟩ := phases_of_registered inv registered
    cases phase with
    | pending => exact .inl (queued_of_phases.mpr (.inl (single ▸ List.mem_singleton_self _)))
    | committed => exact absurd rfl open_entry
    | acquired =>
      have handed : s.handed lock id := .inr (single ▸ List.mem_singleton_self _)
      refine .inr ⟨?_, handed⟩
      by_contra other
      exact (locks.nothing other).2 handed
  · refine .inl (queued_of_phases.mpr (.inr ?_))
    have shown := phases_of_status inv lock id
    have status : s.status lock.table id = .parked := by
      unfold State.status Post.status
      rw [committed]
      exact if_pos rfl
    rw [status] at shown
    rw [show phases (s.lockWaiters lock) id = [.committed] from shown]
    exact List.mem_singleton_self _

theorem LockInv.handsOn {action : Action} (inv : Inv s) (locks : LockInv s) (effect : LockEffect s action s')
    (lock : Lock) : HandsOn s action s' lock := by
  cases effect with
  | elsewhere mutexes rmutexes holds reposts =>
    cases lock with
    | mutex handle => exact .unchanged (by simp [State.owner, mutexes]) (by simp [State.waiting, State.lockWaiters, mutexes])
    | rmutex handle =>
      exact .unchanged (by simp [State.owner, rmutexes]) (by simp [State.waiting, State.lockWaiters, rmutexes])
  | entered own carrier id asks runs only enters =>
    by_cases same : lock = own
    · subst same
      cases enters with
      | takes free owner count waiters =>
        have empty := locks.idle lock free
        exact .taken carrier id runs free owner empty (by rw [State.waiting, waiters]; exact empty)
      | reenters owned owner count waiters => exact .unchanged (owner.trans owned.symm) (congrArg queued waiters)
      | queues owned owner count waiters =>
        exact .queued carrier id runs owned owner (by rw [State.waiting, waiters, queued_register]; rfl)
    · exact .unchanged (only.owner lock same) (congrArg queued (only.waiters lock same))
  | left own carrier id acts runs only gives =>
    by_cases same : lock = own
    · subst same
      cases gives with
      | unnests owned _ owner count waiters => exact .unchanged (owner.trans owned.symm) (congrArg queued waiters)
      | frees owned last found owner waiters holds =>
        have held := locks.held inv runs owned
        rw [locks.last owned last] at held
        have empty := queued_eq_nil.mpr found
        refine .released carrier id acts runs owned (by rw [holds.self]; omega) ?_ ?_
        · rw [owner, State.waiting, empty]
          rfl
        · rw [State.waiting, State.waiting, waiters, empty]
          rfl
      | hands next left owned last found owner count waiters holds =>
        have held := locks.held inv runs owned
        rw [locks.last owned last] at held
        have order := queued_handOff found
        refine .released carrier id acts runs owned (by rw [holds.self]; omega) ?_ ?_
        · rw [owner, State.waiting, order]
          rfl
        · rw [State.waiting, State.waiting, waiters, order]
          rfl
    · exact .unchanged (only.owner lock same) (congrArg queued (only.waiters lock same))
  | resumed own id only resumes =>
    by_cases same : lock = own
    · subst same
      cases resumes with
      | rechecks result left registered found owner count waiters =>
        obtain ⟨phase, open_entry, single⟩ := phases_of_registered inv registered
        obtain ⟨_, stamp, -, -, order⟩ := consumeSyncWaiterStamp_single single
        rw [stamp] at found
        cases found
        exact .unchanged owner (by rw [State.waiting, waiters]; exact order open_entry)
      | returns granted owner count waiters => exact .unchanged owner (congrArg queued waiters)
    · exact .unchanged (only.owner lock same) (congrArg queued (only.waiters lock same))

theorem LockInv.unlocks (inv : Inv s) (locks : LockInv s) (runs : s.running carrier = some id)
    (owned : s.owner lock = some id) (taken : s.step (lock.unlock carrier) = some s') :
    s'.holds lock.table id + 1 = s.holds lock.table id ∧ (s'.owner lock ≠ some id ↔ s'.holds lock.table id = 0) := by
  obtain ⟨only, gives⟩ := unlock_gives inv runs owned taken
  have held := locks.held inv (running_eq runs).2 owned
  obtain ⟨positive, fits⟩ := locks.fits lock id owned
  cases gives with
  | unnests _ nested owner count waiters holds =>
    rw [int32_of_inside (by simp only [int32Max]; omega) (by omega)] at nested
    rw [holds.self, owner]
    exact ⟨by omega, fun changed => absurd rfl changed, fun none => by omega⟩
  | frees _ last found owner waiters holds =>
    rw [locks.last owned last] at held
    rw [holds.self, owner]
    exact ⟨by omega, fun _ => by omega, fun _ => by simp⟩
  | hands next left _ last found owner count waiters holds =>
    rw [locks.last owned last] at held
    rw [holds.self, owner]
    refine ⟨by omega, fun _ => by omega, fun _ same => ?_⟩
    -- the owner itself does not wait
    obtain ⟨single, -, -⟩ := (inv.lockRows lock).status_of_mem (handOff_live found).1
    have nowhere := phases_of_free inv lock (.inl (inv.free (running_eq runs).2))
    rw [← Option.some.inj same] at nowhere
    cases nowhere.symm.trans single

theorem LockInv.safe (inv : Inv s) (locks : LockInv s) : LockSafe s where
  owned := by
    intro lock id holds
    by_contra other
    have none := (locks.nothing other).1
    omega
  once := by
    intro lock
    rw [State.waiting, queued_eq]
    exact (inv.lockRows lock).keys_nodup SyncWaiter.live
  live := by
    intro lock id member
    refine status_post fun absent => ?_
    have shown := phases_of_status inv lock id
    rw [show s.status lock.table id = .absent from absent] at shown
    have present := queued_of_phases.mp member
    rw [show phases (s.lockWaiters lock) id = [] from shown] at present
    simp at present
  kept := fun _ _ => locks.kept inv
  idle := locks.idle
  steps := fun _ _ lock taken => locks.handsOn inv (inv.lockEffect taken) lock
  unlocks := fun _ _ _ _ => locks.unlocks inv
  refuses := fun _ _ _ => unlock_refused

theorem LockInv.start : LockInv State.start := by
  have free : ∀ lock, State.start.owner lock = none := fun lock => by cases lock <;> rfl
  have empty : ∀ lock, State.start.lockWaiters lock = [] := fun lock => by cases lock <;> rfl
  refine ⟨fun lock id => ?_, fun lock id owned => ?_, fun lock _ => ?_⟩
  · have unhanded : ¬ State.start.handed lock id := by
      rintro (granted | stamped)
      · cases granted
      · rw [empty] at stamped
        cases stamped
    unfold State.grants
    rw [if_neg unhanded, free, if_neg (by simp)]
    rfl
  · rw [free] at owned
    cases owned
  · rw [State.waiting, empty]
    rfl

/-- While frames land and no count of a reentrant mutex is full, locks are handed over in order and never shared. -/
theorem locks_handed_over (run : Run State.step (fun s action => s.Lands action ∧ s.Nests action) State.start s) :
    LockSafe s := by
  obtain ⟨inv, locks⟩ := run.invariant (fun s => Inv s ∧ LockInv s) ⟨.start, .start⟩
    fun s action s' ⟨inv, locks⟩ ⟨lands, nests⟩ taken =>
      ⟨inv.step lands taken, locks.step inv nests (inv.lockEffect taken)⟩
  exact locks.safe inv

theorem locks_handed_over_stamped :
    ∃ s, Run State.step (fun s action => s.Lands action ∧ s.Nests action) State.start s ∧
      s.owner (.mutex 5) = some 1 ∧ s.holds (.mutex 5) 1 = 1 ∧ s.holds (.mutex 5) 0 = 0 ∧ LockSafe s := by
  have allowed : ∀ action ∈ [Action.pop 0, .resume 0, .spawn 0 7, .mutexLock 0 5 true, .pop 1, .resume 1,
      .mutexLock 1 5 true, .mutexUnlock 0 5, .migrate 1, .recheck 1, .abort 1],
      ∀ s : State, s.Lands action ∧ s.Nests action := by
    simp only [List.forall_mem_cons]
    refine ⟨?_, ?_, ?_, ?_, ?_, ?_, ?_, ?_, ?_, ?_, ?_, by simp⟩
    all_goals
      refine fun s => ⟨trivial, fun lock carrier id asks _ _ => ?_⟩
      cases asks
    all_goals
      show (1 : Int) < int32Max
      decide
  have run := Run.refl.actions allowed
    (show [Action.pop 0, .resume 0, .spawn 0 7, .mutexLock 0 5 true, .pop 1, .resume 1, .mutexLock 1 5 true,
      .mutexUnlock 0 5, .migrate 1, .recheck 1, .abort 1].foldlM State.step State.start = some _ from rfl)
  exact ⟨_, run, rfl, rfl, rfl, locks_handed_over run⟩

def nested (s : State) (count : Nat) : State :=
  { s with
    rmutexes := Function.update s.rmutexes 0 { ownerId := some 0, count := int32 count }
    holds := Function.update s.holds (.rmutex 0) (Function.update (s.holds (.rmutex 0)) 0 count) }

theorem nested_first (runs : s.running 0 = some 0) (idle : s.rmutexes 0 = {}) (free : s.holds (.rmutex 0) 0 = 0) :
    s.step (.rmutexLock 0 0 true) = some (nested s 1) := by
  have once : int32 1 = 1 := by decide
  rw [State.step, State.act, runs, Option.map_some]
  simp [State.rmutexLock, idle, RMutexSlot.lock, State.setRMutex, State.locked, State.setHolds, free, nested, once]

theorem nested_again (count : Nat) : (nested s count).rmutexLock 0 0 0 true = nested s (count + 1) := by
  have again : int32 (int32 count + 1) = int32 (count + 1 : Nat) := by
    simp [int32, Int.bmod_add_bmod]
  simp [State.rmutexLock, nested, RMutexSlot.lock, State.setRMutex, State.locked, State.setHolds, again]

theorem nested_run (runs : s.running 0 = some 0) {start : State}
    (first : Run State.step State.Lands start (nested s 1)) (count : Nat) :
    Run State.step State.Lands start (nested s (count + 1)) := by
  induction count with
  | zero => exact first
  | succ count ih =>
    have runs : (nested s (count + 1)).running 0 = some 0 := runs
    refine @Run.tail _ _ _ _ _ _ _ (.rmutexLock 0 0 true) ih trivial ?_
    rw [State.step, State.act, runs, Option.map_some, nested_again]

theorem nested_released (runs : s.running 0 = some 0) :
    ∃ s', (nested s 2147483649).step (.rmutexUnlock 0 0) = some s' ∧ s'.owner (.rmutex 0) ≠ some 0 ∧
      s'.holds (.rmutex 0) 0 = 2147483648 := by
  have runs : (nested s 2147483649).running 0 = some 0 := runs
  have last : ¬ 0 < int32 (int32 2147483649 - 1) := by decide
  refine ⟨(nested s 2147483649).rmutexUnlock 0 0, by rw [State.step, State.act, runs, Option.map_some], ?_⟩
  simp [State.rmutexUnlock, nested, RMutexSlot.unlock, last, handOff, takeFirst, State.owner, State.setRMutex,
    State.unlocked, State.setHolds, State.serve]

theorem nested_unsafe (runs : s.running 0 = some 0) : ¬ LockSafe (nested s 2147483649) := by
  intro counted
  have owned : (nested s 2147483649).owner (.rmutex 0) = some 0 := by simp [nested, State.owner]
  obtain ⟨s', taken, left, held⟩ := nested_released runs
  have released := (counted.unlocks (.rmutex 0) 0 0 s' runs owned taken).2.mp left
  cases released.symm.trans held

theorem nested_locks_released : ¬ ∀ s, Run State.step State.Lands State.start s → LockSafe s := by
  intro claim
  have dispatched : Run State.step State.Lands State.start _ :=
    Run.refl.actions (by simp [State.Lands])
      (show [Action.pop 0, .resume 0].foldlM State.step State.start = some _ from rfl)
  have first : Run State.step State.Lands State.start (nested _ 1) :=
    .tail dispatched (show State.Lands _ (.rmutexLock 0 0 true) from trivial) (nested_first rfl rfl rfl)
  refine nested_unsafe ?_ (claim _ (nested_run rfl first 2147483648))
  rfl

end NLang.Vm.Dispatch
