import NLang.Vm.RunScheduler

/-!
# Runs on one scheduler

`Reset` before a run against the construction of a scheduler, as far as any later sequence of operations tells
them apart.
-/

namespace NLang.Vm.VmScheduler

def Isolated (s : VmScheduler) : Prop :=
  ∀ operations, s.reset.observe operations = (construct s.threads).observe operations

/-- Nobody waits for io, no pump and no carrier is in flight and nothing is frozen. -/
structure Settled (s : VmScheduler) : Prop where
  ioWaits : s.ioWaits = []
  ioPollerRegistered : s.ioPollerRegistered = []
  debugFreezeDepth : s.debugFreezeDepth = 0
  activePumpCount : s.activePumpCount = 0
  activeCarrierCount : s.activeCarrierCount = 0

variable {s : VmScheduler}

theorem reset_of_settled (settled : Settled s) : s.reset = construct s.threads := by
  obtain ⟨sched, stopRequested, idle, blocked, carriers, pumps, registered, nextToken⟩ := s
  obtain ⟨ioWaits, unregistered, unfrozen, noPumps, noCarriers⟩ := settled
  simp only at ioWaits unregistered unfrozen noPumps noCarriers
  simp [reset, construct, threads, ioWaits, unregistered, unfrozen, noPumps, noCarriers]

theorem answers_of_observe {t : VmScheduler} (same : ∀ operations, s.observe operations = t.observe operations)
    (history : List Operation) (operation : Operation) :
    ((s.after history).apply operation).1 = ((t.after history).apply operation).1 := by
  induction history generalizing s t with
  | nil =>
    have first := same [operation]
    simp only [observe, List.cons.injEq, Prod.mk.injEq, and_true] at first
    exact first.1
  | cons earlier history ih =>
    refine ih fun later => ?_
    have both := same (earlier :: later)
    simp only [observe, List.cons.injEq] at both
    exact both.2

theorem deadlock_answered {thread : Nat} {amCarrier : Bool} (runs : s.stopRequested = false) :
    (s.apply (.waitForWorkOrStop thread amCarrier)).1 = .pass .deadlock ↔ s.deadlocked thread amCarrier = true := by
  simp only [apply, waitForWorkOrStop, runs, Bool.false_eq_true, if_false]
  by_cases verdict : s.deadlocked thread amCarrier = true
  · simp [verdict]
  · simp [verdict]

theorem Isolated.alone (isolated : Isolated s) :
    s.activePumpCount = 0 ∧ s.ioWaits = [] ∧ s.activeCarrierCount + 1 ≤ 1 := by
  have answers := answers_of_observe isolated [.installSelfCarrier 0, .carrierEnters] (.waitForWorkOrStop 0 true)
  have fresh : ((construct s.threads).after [.installSelfCarrier 0, .carrierEnters]).deadlocked 0 true = true := by
    simp [after, apply, deadlocked, otherPumps, construct]
  have verdict := (deadlock_answered rfl).mp (answers.trans ((deadlock_answered rfl).mpr fresh))
  simpa [after, apply, deadlocked, otherPumps, reset] using verdict

theorem Isolated.paired (isolated : Isolated s) : ¬ s.activeCarrierCount + 1 + 1 ≤ 1 := by
  intro few
  obtain ⟨pumps, ioWaits, -⟩ := isolated.alone
  have answers := answers_of_observe isolated [.installSelfCarrier 0, .carrierEnters, .carrierEnters]
    (.waitForWorkOrStop 0 true)
  have verdict : (s.reset.after [.installSelfCarrier 0, .carrierEnters, .carrierEnters]).deadlocked 0 true = true := by
    simpa [after, apply, deadlocked, otherPumps, reset, pumps, ioWaits] using few
  have fresh := (deadlock_answered rfl).mp (answers.symm.trans ((deadlock_answered rfl).mpr verdict))
  simp [after, apply, deadlocked, otherPumps, construct] at fresh

theorem Isolated.unfrozen (isolated : Isolated s) : s.debugFreezeDepth = 0 := by
  by_contra frozen
  have gate := answers_of_observe isolated [] (.popNextRunnable 0)
  have closed : 0 < s.reset.debugFreezeDepth ∧ s.reset.stopRequested = false := ⟨Nat.pos_of_ne_zero frozen, rfl⟩
  have waits : s.reset.popNextRunnable 0 = (.waitsFrozen, s.reset) := if_pos closed
  have fresh : (construct s.threads).popNextRunnable 0 = (construct s.threads).waitForWorkOrStop 0 true := rfl
  simp only [after, List.foldl_nil, apply, waits, fresh] at gate
  unfold waitForWorkOrStop at gate
  split at gate
  · cases gate
  · split at gate <;> cases gate

theorem Isolated.unregistered (isolated : Isolated s) : s.ioPollerRegistered = [] := by
  have polls := answers_of_observe isolated [] .syncPollerInterest
  simpa [after, apply, syncPollerInterest, reset, construct, isolated.alone.2.1, wantedInterest] using polls

theorem Isolated.settled (isolated : Isolated s) : Settled s where
  ioWaits := isolated.alone.2.1
  ioPollerRegistered := isolated.unregistered
  debugFreezeDepth := isolated.unfrozen
  activePumpCount := isolated.alone.1
  activeCarrierCount := by
    have atMost := isolated.alone.2.2
    have atLeast := isolated.paired
    omega

/-- `Reset` isolates the next run from a history just if the history left nothing that `Reset` does not clear. -/
theorem reset_isolates_iff (threads : Threads) (history : List Operation) :
    Isolated ((construct threads).after history) ↔ Settled ((construct threads).after history) := by
  constructor
  · exact Isolated.settled
  · intro settled operations
    rw [reset_of_settled settled]

def noThreads : Threads := { currentContextId := fun _ => none, pumpToken := fun _ => 0, nextToken := 4096 }

def spawnsWaiter (fd : Nat) (deadline : Option Nat) : List Operation :=
  [.carrierEnters, .installSelfCarrier 0, .registerContext [], .popNextRunnable 0, .registerContext [9],
    .parkFor 0 0 .parkedMutex, .parkContextFrames 0 0 [7], .popNextRunnable 0, .parkForIo 0 1 (some fd) 1 deadline,
    .parkContextFrames 0 1 [9]]

def leavesWaiter : List Operation :=
  spawnsWaiter 3 (some 5) ++ [.wakeFor 0, .popNextRunnable 0, .markFinished 0 0 0, .popNextRunnable 0,
    .carrierLeaves]

def waitsAgain : List Operation := spawnsWaiter 4 none ++ [.harvestIoEvents [] 5]

theorem old_wait_wakes_next_run : ¬ ∀ threads history, Isolated ((construct threads).after history) := by
  intro isolated
  have same := isolated noThreads leavesWaiter waitsAgain
  have old : (((construct noThreads).after leavesWaiter).reset.observe waitsAgain).getLast?.map (·.2) = some [1] := rfl
  have fresh : ((construct ((construct noThreads).after leavesWaiter).threads).observe waitsAgain).getLast?.map (·.2) =
      some [] := rfl
  rw [same, fresh] at old
  cases old

end NLang.Vm.VmScheduler
