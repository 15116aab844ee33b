import NLang.Library.Runs
import NLang.Vm.SyncPrimitives

/-!
# Permits of a semaphore

Any contexts run the sections of `acquire`, `tryAcquire`, `release` and the rechecks of parking acquirers on one
semaphore, in any order: no order between the sections of one call is assumed, so that the scheduler's calls
between them are covered however they fall.
-/

namespace NLang.Vm.Semaphore
open NLang.Library NLang.Library.Runs NLang.Vm.Sync

structure State where
  slot : SemaphoreSlot
  granted : Nat
  releases : Nat

inductive Action where
  | acquire (selfId : Nat) (suspensionAllowed : Bool)
  | recheck (selfId : Nat)
  | tryAcquire (selfId : Nat)
  | release (selfId : Nat)

def State.step (s : State) : Action → Option State
  | .acquire selfId suspensionAllowed =>
    match s.slot.acquire selfId suspensionAllowed with
    | .error _ => some s
    | .ok (true, slot) => some { s with slot }
    | .ok (false, slot) => some { s with slot, granted := s.granted + 1 }
  | .recheck selfId =>
    match consumeSyncWaiterStamp s.slot.waiters selfId with
    | .error _ => some s
    | .ok (_, waiters) => some { s with slot := { s.slot with waiters } }
  | .tryAcquire _ =>
    match s.slot.tryAcquire with
    | (true, slot) => some { s with slot, granted := s.granted + 1 }
    | (false, slot) => some { s with slot }
  | .release _ =>
    some {
      slot := s.slot.release.2
      granted := s.granted + if (handOff s.slot.waiters).isSome then 1 else 0
      releases := s.releases + 1 }

def State.start (slot : SemaphoreSlot) : State := { slot, granted := 0, releases := 0 }

structure Conserves (initial : Int) (s : State) : Prop where
  bounded : (s.granted : Int) ≤ initial + s.releases
  balance : s.slot.count + s.granted - s.releases = initial
  served : ¬ (0 < s.slot.count ∧ ∃ waiter ∈ s.slot.waiters, waiter.live = true)

def BelowLimit (s : State) (action : Action) : Prop :=
  ∀ selfId, action = .release selfId → (∀ waiter ∈ s.slot.waiters, waiter.live = false) →
    s.slot.count < int32Max

structure Inv (initial : Int) (s : State) : Prop where
  balance : s.slot.count + s.granted - s.releases = initial
  positive : 0 ≤ s.slot.count
  fits : s.slot.count ≤ int32Max
  served : 0 < s.slot.count → queued s.slot.waiters = []

theorem Inv.conserves {initial : Int} {s : State} (inv : Inv initial s) : Conserves initial s where
  bounded := by
    have := inv.balance
    have := inv.positive
    omega
  balance := inv.balance
  served := by
    rintro ⟨available, waiter, member, live⟩
    have stale := handOff_none.mp (queued_eq_nil.mp (inv.served available)) waiter member
    rw [live] at stale
    cases stale

theorem Inv.construct {initial : Int} {slot : SemaphoreSlot} (built : SemaphoreSlot.construct initial = .ok slot)
    (fits : initial ≤ int32Max) : Inv initial (State.start slot) := by
  unfold SemaphoreSlot.construct at built
  by_cases negative : initial < 0
  · rw [if_pos negative] at built
    cases built
  · rw [if_neg negative] at built
    cases built
    exact {
      balance := by simp [State.start]
      positive := Int.not_lt.mp negative
      fits
      served := fun _ => rfl }

theorem Inv.take {initial : Int} {s : State} (inv : Inv initial s) (available : 0 < s.slot.count) :
    Inv initial { s with slot := { s.slot with count := int32 (s.slot.count - 1) }, granted := s.granted + 1 } := by
  have fits := inv.fits
  have balance := inv.balance
  have exact_count : int32 (s.slot.count - 1) = s.slot.count - 1 :=
    int32_of_inside (by simp only [int32Max]; omega) (by omega)
  exact {
    balance := by
      change int32 (s.slot.count - 1) + ((s.granted + 1 : Nat) : Int) - s.releases = initial
      rw [exact_count]
      push_cast
      omega
    positive := by
      change 0 ≤ int32 (s.slot.count - 1)
      omega
    fits := by
      change int32 (s.slot.count - 1) ≤ int32Max
      omega
    served := fun _ => inv.served available }

theorem Inv.acquire {initial : Int} {s s' : State} {selfId : Nat} {suspensionAllowed : Bool}
    (inv : Inv initial s) (taken : s.step (.acquire selfId suspensionAllowed) = some s') : Inv initial s' := by
  by_cases available : 0 < s.slot.count
  · simp only [State.step, SemaphoreSlot.acquire, if_pos available] at taken
    cases taken
    exact inv.take available
  · simp only [State.step, SemaphoreSlot.acquire, if_neg available] at taken
    cases suspensionAllowed with
    | false =>
      cases taken
      exact inv
    | true =>
      cases taken
      exact { inv with served := fun now => absurd now available }

theorem Inv.recheck {initial : Int} {s s' : State} {selfId : Nat}
    (inv : Inv initial s) (taken : s.step (.recheck selfId) = some s') : Inv initial s' := by
  simp only [State.step] at taken
  cases result : consumeSyncWaiterStamp s.slot.waiters selfId with
  | error _ =>
    rw [result] at taken
    cases taken
    exact inv
  | ok found =>
    rw [result] at taken
    cases taken
    refine { inv with served := fun available => ?_ }
    -- an empty queue stays empty: the recheck makes no stamped entry live again
    have stale := handOff_none.mp (queued_eq_nil.mp (inv.served available))
    exact queued_eq_nil.mpr (handOff_none.mpr (stale_recheck result stale))

theorem Inv.tryAcquire {initial : Int} {s s' : State} {selfId : Nat}
    (inv : Inv initial s) (taken : s.step (.tryAcquire selfId) = some s') : Inv initial s' := by
  by_cases available : 0 < s.slot.count
  · simp only [State.step, SemaphoreSlot.tryAcquire, if_pos available] at taken
    cases taken
    exact inv.take available
  · simp only [State.step, SemaphoreSlot.tryAcquire, if_neg available] at taken
    cases taken
    exact inv

theorem Inv.release {initial : Int} {s s' : State} {selfId : Nat} (inv : Inv initial s)
    (below : BelowLimit s (.release selfId)) (taken : s.step (.release selfId) = some s') : Inv initial s' := by
  have balance := inv.balance
  have positive := inv.positive
  have fits := inv.fits
  cases handed : handOff s.slot.waiters with
  | none =>
    have limit := below selfId rfl (handOff_none.mp handed)
    have exact_count : int32 (s.slot.count + 1) = s.slot.count + 1 :=
      int32_of_inside (by simp only [int32Max]; omega) (by omega)
    simp only [State.step, SemaphoreSlot.release, handed, exact_count] at taken
    cases taken
    exact {
      balance := by simp; omega
      positive := by simp; omega
      fits := by simp; omega
      served := fun _ => queued_eq_nil.mpr handed }
  | some result =>
    obtain ⟨next, left⟩ := result
    have busy : ¬ 0 < s.slot.count := fun available => by
      have empty := queued_eq_nil.mp (inv.served available)
      rw [handed] at empty
      cases empty
    simp only [State.step, SemaphoreSlot.release, handed] at taken
    cases taken
    exact {
      balance := by simp; omega
      positive, fits
      served := fun available => absurd available busy }

/-- While no release meets a full count, permits are neither lost nor made. -/
theorem semaphore_conserves {initial : Int} {slot : SemaphoreSlot} {s : State} (fits : initial ≤ int32Max)
    (built : SemaphoreSlot.construct initial = .ok slot) (run : Run State.step BelowLimit (State.start slot) s) :
    Conserves initial s := by
  refine Inv.conserves (run.invariant (Inv initial) (Inv.construct built fits) ?_)
  intro s action s' inv below taken
  cases action with
  | acquire => exact inv.acquire taken
  | recheck => exact inv.recheck taken
  | tryAcquire => exact inv.tryAcquire taken
  | release => exact inv.release below taken

theorem semaphore_conserves_stamped :
    ∃ s, Run State.step BelowLimit (State.start { count := 0 }) s ∧ s.granted = 1 ∧ s.slot.waiters = [] ∧
      Conserves 0 s := by
  have registered : Run State.step BelowLimit (State.start { count := 0 }) _ :=
    @Run.tail _ _ _ _ _ _ _ (.acquire 0 true) .refl (fun _ kind => by cases kind) rfl
  have handed : Run State.step BelowLimit (State.start { count := 0 }) _ :=
    @Run.tail _ _ _ _ _ _ _ (.release 1) registered (fun _ _ _ => by decide) rfl
  have aborted : Run State.step BelowLimit (State.start { count := 0 }) _ :=
    @Run.tail _ _ _ _ _ _ _ (.recheck 0) handed (fun _ kind => by cases kind) rfl
  exact ⟨_, aborted, rfl, rfl, semaphore_conserves (by decide) rfl aborted⟩

theorem release_wraps :
    ¬ ∀ (initial : Int) (slot : SemaphoreSlot) (s : State), initial ≤ int32Max →
      SemaphoreSlot.construct initial = .ok slot → Run State.step (fun _ _ => True) (State.start slot) s →
      Conserves initial s := by
  intro claim
  have conserves := claim int32Max _ _ (by decide) rfl (@Run.tail _ _ _ _ _ _ _ (.release 0) .refl trivial rfl)
  exact absurd conserves.balance (by decide)

end NLang.Vm.Semaphore
