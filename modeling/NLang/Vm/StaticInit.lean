import Mathlib

/-!
# Lazy static initialisation

The gate, Done, Fail and `ReleaseContextClaims` over the initialisation machines, one atomic access or one
critical section of the waiters mutex a step. Class owners, interface owners and static-local slots each own a
machine of the same kind; a machine's index stands for whichever of the three it is.
-/

namespace NLang.Vm.StaticInit

inductive Phase where
  | uninitialized
  | initializing
  | done
  deriving DecidableEq

structure Machine where
  phase : Phase
  ownerCtxId : Option Nat
  waiters : List Nat

inductive GateKind where
  | classGate
  | slotGate
  deriving DecidableEq

inductive Outcome where
  | done
  | fail
  deriving DecidableEq

def Outcome.phase : Outcome → Phase
  | .done => .done
  | .fail => .uninitialized

inductive Control where
  | running
  | loadPhase (kind : GateKind) (slot : Nat)
  | loadOwner (kind : GateKind) (slot : Nat)
  | exchange (kind : GateKind) (slot : Nat) (loaded : Phase)
  | storeOwner (slot : Nat)
  | lockWaiters (kind : GateKind) (slot : Nat)
  | recheck (kind : GateKind) (slot : Nat)
  | register (kind : GateKind) (slot : Nat)
  | parked (kind : GateKind) (slot : Nat)
  | publish (slot : Nat) (outcome : Outcome)
  | takeWaiters (slot : Nat)
  | wake (waiters : List Nat) (alive : Bool)
  | release (next : Nat) (woken : List Nat)
  | dead
  deriving DecidableEq

structure State where
  count : Nat
  machines : Nat → Machine
  mutex : Option Nat
  control : Nat → Control
  claims : Nat → List Nat
  doneCount : Nat → Nat

def State.initial (count : Nat) : State where
  count := count
  machines := fun _ => ⟨.uninitialized, none, []⟩
  mutex := none
  control := fun _ => .running
  claims := fun _ => []
  doneCount := fun _ => 0

inductive Action where
  | enterGate (ctx : Nat) (kind : GateKind) (slot : Nat)
  | advance (ctx : Nat)
  | settle (ctx slot : Nat) (outcome : Outcome)
  | fail (ctx : Nat)
  | finish (ctx : Nat)

namespace State

def goTo (s : State) (ctx : Nat) (control : Control) : State :=
  { s with control := Function.update s.control ctx control }

def setMachine (s : State) (slot : Nat) (machine : Machine) : State :=
  { s with machines := Function.update s.machines slot machine }

def wakeForClassInit (s : State) (ctx : Nat) : State :=
  match s.control ctx with
  | .parked kind slot => s.goTo ctx (.loadPhase kind slot)
  | _ => s

def resetClaimedMachine (machine : Machine) (ctx : Nat) : Machine × List Nat :=
  if machine.phase = .initializing ∧ machine.ownerCtxId = some ctx then
    (⟨.uninitialized, none, []⟩, machine.waiters)
  else (machine, [])

/-- The next step of a context inside the protocol; `none` where it waits for the mutex or for a wake. -/
def advance (s : State) (ctx : Nat) : Option State :=
  match s.control ctx with
  | .running | .parked .. | .dead => none
  | .loadPhase kind slot =>
    match (s.machines slot).phase with
    | .done => some (s.goTo ctx .running)
    | .initializing => some (s.goTo ctx (.loadOwner kind slot))
    | .uninitialized => some (s.goTo ctx (.exchange kind slot .uninitialized))
  | .loadOwner kind slot =>
    if (s.machines slot).ownerCtxId = some ctx then some (s.goTo ctx .running)
    else match kind with
      | .classGate => some (s.goTo ctx (.lockWaiters kind slot))
      | .slotGate => some (s.goTo ctx (.exchange kind slot .initializing))
  | .exchange kind slot loaded =>
    if (s.machines slot).phase = .uninitialized then
      some { (s.setMachine slot { s.machines slot with phase := .initializing }).goTo ctx (.storeOwner slot) with
        claims := Function.update s.claims ctx (slot :: s.claims ctx) }
    else if loaded = .initializing then some (s.goTo ctx (.lockWaiters kind slot))
    else some (s.goTo ctx (.loadPhase kind slot))
  | .storeOwner slot =>
    some ((s.setMachine slot { s.machines slot with ownerCtxId := some ctx }).goTo ctx .running)
  | .lockWaiters kind slot =>
    if s.mutex = none then some { s.goTo ctx (.recheck kind slot) with mutex := some ctx } else none
  | .recheck kind slot =>
    if (s.machines slot).phase = .initializing then some (s.goTo ctx (.register kind slot))
    else some { s.goTo ctx (.loadPhase kind slot) with mutex := none }
  | .register kind slot =>
    some { (s.setMachine slot { s.machines slot with waiters := (s.machines slot).waiters ++ [ctx] }).goTo ctx
        (.parked kind slot) with mutex := none }
  | .publish slot outcome =>
    some { (s.setMachine slot { s.machines slot with phase := outcome.phase }).goTo ctx (.takeWaiters slot) with
      claims := Function.update s.claims ctx ((s.claims ctx).erase slot)
      doneCount := if outcome = .done then Function.update s.doneCount slot (s.doneCount slot + 1)
        else s.doneCount }
  | .takeWaiters slot =>
    if s.mutex = none then
      some ((s.setMachine slot { s.machines slot with waiters := [] }).goTo ctx
        (.wake (s.machines slot).waiters true))
    else none
  | .wake [] alive => some (s.goTo ctx (if alive then .running else .dead))
  | .wake (waiter :: rest) alive => some ((s.wakeForClassInit waiter).goTo ctx (.wake rest alive))
  | .release next woken =>
    if next < s.count then
      let (machine, waiters) := resetClaimedMachine (s.machines next) ctx
      some { (s.setMachine next machine).goTo ctx (.release (next + 1) (woken ++ waiters)) with
        claims := Function.update s.claims ctx ((s.claims ctx).erase next) }
    else some { s.goTo ctx (.wake woken false) with mutex := none }

def step (s : State) : Action → Option State
  | .enterGate ctx kind slot =>
    if s.control ctx = .running ∧ slot < s.count then some (s.goTo ctx (.loadPhase kind slot)) else none
  | .advance ctx => s.advance ctx
  | .settle ctx slot outcome =>
    if s.control ctx = .running ∧ slot ∈ s.claims ctx then
      some ((s.setMachine slot { s.machines slot with ownerCtxId := none }).goTo ctx (.publish slot outcome))
    else none
  | .fail ctx =>
    if s.control ctx = .running ∧ s.mutex = none then
      some { s.goTo ctx (.release 0 []) with mutex := some ctx }
    else none
  | .finish ctx => if s.control ctx = .running then some (s.goTo ctx .dead) else none

end State
end NLang.Vm.StaticInit
