import NLang.Vm.SyncPrimitives

/-!
# Channels

What the sections of `send`, `recv` and `close` under the Sync domain do to a channel's slot. Values are handles
of boxed elements, which no section looks into.
-/

namespace NLang.Vm.Sync
open NLang.Library.Queues

inductive ChannelPhase where
  | pending
  | value
  | closed
  | committed
  deriving DecidableEq

def ChannelPhase.live : ChannelPhase → Bool
  | .pending => true
  | .committed => true
  | .value => false
  | .closed => false

structure ChannelWaiter where
  contextId : Nat
  phase : ChannelPhase := .pending

structure PendingSend (V : Type) where
  value : V
  senderId : Nat
  phase : ChannelPhase := .pending

structure ChannelSlot (V : Type) where
  buffered : List V := []
  waiters : List ChannelWaiter := []
  closed : Bool := false
  capacity : Nat := 0
  pending : List (PendingSend V) := []

variable {V : Type}

def ChannelSlot.construct (capacity : Int) : Except String (ChannelSlot V) :=
  if capacity < 0 then .error "channel capacity must be 0 (unbounded) or at least 1"
  else .ok { capacity := capacity.toNat }

def ChannelPhase.served : ChannelPhase → Option ChannelPhase
  | .committed => none
  | _ => some .value

def ChannelWaiter.live (waiter : ChannelWaiter) : Bool := waiter.phase.live

def PendingSend.live (sender : PendingSend V) : Bool := sender.phase.live

def ChannelWaiter.wakes (waiter : ChannelWaiter) : Option Nat :=
  if waiter.phase = .committed then some waiter.contextId else none

def PendingSend.wakes (sender : PendingSend V) : Option Nat :=
  if sender.phase = .committed then some sender.senderId else none

def ChannelWaiter.served (waiter : ChannelWaiter) : Option ChannelWaiter :=
  waiter.phase.served.map fun phase => { waiter with phase }

def PendingSend.served (sender : PendingSend V) : Option (PendingSend V) :=
  sender.phase.served.map fun phase => { sender with phase }

def ChannelSlot.handoffToLiveWaiter (slot : ChannelSlot V) : Option (ChannelWaiter × ChannelSlot V) :=
  (takeFirst ChannelWaiter.live ChannelWaiter.served slot.waiters).map fun (waiter, waiters) =>
    (waiter, { slot with waiters })

def ChannelSlot.stagePendingSend (slot : ChannelSlot V) : Option (PendingSend V) × ChannelSlot V :=
  match takeFirst PendingSend.live PendingSend.served slot.pending with
  | none => (none, slot)
  | some (sender, pending) => (some sender, { slot with buffered := slot.buffered ++ [sender.value], pending })

inductive SendOutcome where
  | handed (receiver : ChannelWaiter)
  | buffered
  | mustPark

def ChannelSlot.send (slot : ChannelSlot V) (selfId : Nat) (value : V) (suspensionAllowed : Bool) :
    Except String (SendOutcome × ChannelSlot V) :=
  if slot.closed then .error "send on a closed channel"
  else
    match slot.handoffToLiveWaiter with
    | some (receiver, slot) => .ok (.handed receiver, slot)
    | none =>
      if 0 < slot.capacity ∧ slot.capacity ≤ slot.buffered.length then
        if suspensionAllowed then
          .ok (.mustPark, { slot with pending := slot.pending ++ [{ value, senderId := selfId }] })
        else .error suspensionRejected
      else .ok (.buffered, { slot with buffered := slot.buffered ++ [value] })

inductive RecvOutcome (V : Type) where
  | value (value : V) (staged : Option (PendingSend V))
  | mustPark

def ChannelSlot.recv (slot : ChannelSlot V) (selfId : Nat) (suspensionAllowed : Bool) :
    Except String (RecvOutcome V × ChannelSlot V) :=
  match slot.buffered with
  | value :: rest =>
    let (staged, slot) := { slot with buffered := rest }.stagePendingSend
    .ok (.value value staged, slot)
  | [] =>
    if slot.closed then .error "recv on a closed and drained channel"
    else if suspensionAllowed then
      .ok (.mustPark, { slot with waiters := slot.waiters ++ [{ contextId := selfId }] })
    else .error suspensionRejected

theorem ChannelSlot.recv_empty {slot : ChannelSlot V} (drained : slot.buffered = []) (selfId : Nat)
    (suspensionAllowed : Bool) :
    slot.recv selfId suspensionAllowed =
      if slot.closed then .error "recv on a closed and drained channel"
      else if suspensionAllowed then
        .ok (.mustPark, { slot with waiters := slot.waiters ++ [{ contextId := selfId }] })
      else .error suspensionRejected := by
  rw [ChannelSlot.recv, drained]

structure ClosedRecvs (V : Type) where
  waiters : List ChannelWaiter := []
  buffered : List V
  written : List (Nat × V) := []
  valueWoken : List Nat := []
  closedRecvs : List Nat := []

def collectClosedRecvOutcomes : List ChannelWaiter → List V → ClosedRecvs V
  | [], buffered => { buffered }
  | waiter :: rest, buffered =>
    match waiter.phase, buffered with
    | .committed, value :: buffered =>
      let later := collectClosedRecvOutcomes rest buffered
      { later with
        written := (waiter.contextId, value) :: later.written
        valueWoken := waiter.contextId :: later.valueWoken }
    | .committed, [] =>
      let later := collectClosedRecvOutcomes rest []
      { later with closedRecvs := waiter.contextId :: later.closedRecvs }
    | .pending, value :: buffered =>
      let later := collectClosedRecvOutcomes rest buffered
      { later with
        waiters := { waiter with phase := .value } :: later.waiters
        written := (waiter.contextId, value) :: later.written }
    | .pending, [] =>
      let later := collectClosedRecvOutcomes rest []
      { later with waiters := { waiter with phase := .closed } :: later.waiters }
    | _, buffered =>
      let later := collectClosedRecvOutcomes rest buffered
      { later with waiters := waiter :: later.waiters }

def ChannelPhase.swept : ChannelPhase → Option ChannelPhase
  | .committed => none
  | .pending => some .closed
  | stamped => some stamped

def ChannelWaiter.swept (waiter : ChannelWaiter) : Option ChannelWaiter :=
  waiter.phase.swept.map fun phase => { waiter with phase }

def PendingSend.swept (sender : PendingSend V) : Option (PendingSend V) :=
  sender.phase.swept.map fun phase => { sender with phase }

def collectClosedSenders (pending : List (PendingSend V)) : List (PendingSend V) × List Nat :=
  (pending.filterMap PendingSend.swept, (pending.filter (·.phase = .committed)).map (·.senderId))

def ChannelSlot.close (slot : ChannelSlot V) : ChannelSlot V × List (Nat × V) × List Nat × List Nat :=
  if slot.closed then (slot, [], [], [])
  else
    let recvs := collectClosedRecvOutcomes slot.waiters slot.buffered
    let (pending, closedSenders) := collectClosedSenders slot.pending
    ({ slot with closed := true, waiters := recvs.waiters, buffered := recvs.buffered, pending },
      recvs.written, recvs.closedRecvs ++ recvs.valueWoken, closedSenders)

def ChannelPhase.rechecked : ChannelPhase → Option ChannelPhase
  | .pending => some .committed
  | _ => none

def ChannelWaiter.rechecked (waiter : ChannelWaiter) : Option ChannelWaiter :=
  waiter.phase.rechecked.map fun phase => { waiter with phase }

def PendingSend.rechecked (sender : PendingSend V) : Option (PendingSend V) :=
  sender.phase.rechecked.map fun phase => { sender with phase }

inductive AbortOutcome where
  | value
  | closed

def ChannelPhase.outcome : ChannelPhase → Option AbortOutcome
  | .pending => none
  | .closed => some .closed
  | _ => some .value

def ChannelSlot.commitOrAbortChanRecv (slot : ChannelSlot V) (selfId : Nat) :
    Except String (Option AbortOutcome × ChannelSlot V) :=
  match takeFirst (·.contextId = selfId) ChannelWaiter.rechecked slot.waiters with
  | some (own, waiters) => .ok (own.phase.outcome, { slot with waiters })
  | none => .error "NLang VM: channel waiter entry vanished"

def ChannelSlot.commitOrAbortChanSend (slot : ChannelSlot V) (selfId : Nat) :
    Except String (Option AbortOutcome × ChannelSlot V) :=
  match takeFirst (·.senderId = selfId) PendingSend.rechecked slot.pending with
  | some (own, pending) => .ok (own.phase.outcome, { slot with pending })
  | none => .error "NLang VM: channel sender entry vanished"

def liveReceivers (waiters : List ChannelWaiter) : List Nat :=
  waiters.filterMap fun waiter => if waiter.live then some waiter.contextId else none

def liveValues (pending : List (PendingSend V)) : List V :=
  pending.filterMap fun sender => if sender.live then some sender.value else none

theorem liveReceivers_eq_nil {waiters : List ChannelWaiter} :
    liveReceivers waiters = [] ↔ ∀ waiter ∈ waiters, waiter.live = false := by
  rw [liveReceivers, List.filterMap_eq_nil_iff]
  simp

theorem liveValues_eq_nil {pending : List (PendingSend V)} :
    liveValues pending = [] ↔ ∀ sender ∈ pending, sender.live = false := by
  rw [liveValues, List.filterMap_eq_nil_iff]
  simp

theorem ChannelPhase.served_some {phase after : ChannelPhase} (serves : phase.served = some after) :
    after.live = false ∧ after ≠ .committed := by
  cases phase <;> cases serves <;> exact ⟨rfl, ChannelPhase.noConfusion⟩

theorem ChannelPhase.served_eq_none {phase : ChannelPhase} : phase.served = none ↔ phase = .committed := by
  cases phase <;> simp [ChannelPhase.served]

theorem ChannelPhase.swept_some {phase after : ChannelPhase} (sweeps : phase.swept = some after) :
    after.live = false ∧ after ≠ .committed := by
  cases phase <;> cases sweeps <;> exact ⟨rfl, ChannelPhase.noConfusion⟩

theorem ChannelPhase.swept_eq_none {phase : ChannelPhase} : phase.swept = none ↔ phase = .committed := by
  cases phase <;> simp [ChannelPhase.swept]

theorem ChannelPhase.rechecked_some {phase after : ChannelPhase} (rechecks : phase.rechecked = some after) :
    phase = .pending ∧ after = .committed := by
  cases phase <;> cases rechecks
  exact ⟨rfl, rfl⟩

theorem ChannelWaiter.served_some {waiter after : ChannelWaiter} (serves : waiter.served = some after) :
    after.live = false ∧ after.contextId = waiter.contextId ∧ after.phase ≠ .committed := by
  obtain ⟨phase, served, rfl⟩ := Option.map_eq_some_iff.mp serves
  exact ⟨(ChannelPhase.served_some served).1, rfl, (ChannelPhase.served_some served).2⟩

theorem PendingSend.served_some {sender after : PendingSend V} (serves : sender.served = some after) :
    after.live = false ∧ after.senderId = sender.senderId ∧ after.phase ≠ .committed := by
  obtain ⟨phase, served, rfl⟩ := Option.map_eq_some_iff.mp serves
  exact ⟨(ChannelPhase.served_some served).1, rfl, (ChannelPhase.served_some served).2⟩

theorem ChannelWaiter.swept_some {waiter after : ChannelWaiter} (sweeps : waiter.swept = some after) :
    after.live = false ∧ after.contextId = waiter.contextId ∧ after.phase ≠ .committed := by
  obtain ⟨phase, swept, rfl⟩ := Option.map_eq_some_iff.mp sweeps
  exact ⟨(ChannelPhase.swept_some swept).1, rfl, (ChannelPhase.swept_some swept).2⟩

theorem PendingSend.swept_some {sender after : PendingSend V} (sweeps : sender.swept = some after) :
    after.live = false ∧ after.senderId = sender.senderId ∧ after.phase ≠ .committed := by
  obtain ⟨phase, swept, rfl⟩ := Option.map_eq_some_iff.mp sweeps
  exact ⟨(ChannelPhase.swept_some swept).1, rfl, (ChannelPhase.swept_some swept).2⟩

theorem ChannelWaiter.rechecked_some {waiter after : ChannelWaiter} (rechecks : waiter.rechecked = some after) :
    after.contextId = waiter.contextId ∧ after.phase = .committed := by
  obtain ⟨phase, rechecked, rfl⟩ := Option.map_eq_some_iff.mp rechecks
  exact ⟨rfl, (ChannelPhase.rechecked_some rechecked).2⟩

theorem PendingSend.rechecked_some {sender after : PendingSend V} (rechecks : sender.rechecked = some after) :
    after.senderId = sender.senderId ∧ after.phase = .committed := by
  obtain ⟨phase, rechecked, rfl⟩ := Option.map_eq_some_iff.mp rechecks
  exact ⟨rfl, (ChannelPhase.rechecked_some rechecked).2⟩

theorem liveReceivers_recheck {waiters left : List ChannelWaiter} {own : ChannelWaiter} {selfId : Nat}
    (found : takeFirst (·.contextId = selfId) ChannelWaiter.rechecked waiters = some (own, left))
    (waiting : own.phase ≠ .committed) : liveReceivers left = liveReceivers waiters := by
  refine filterMap_takeFirst _ found ?_
  obtain ⟨contextId, phase⟩ := own
  cases phase <;> first | rfl | exact absurd rfl waiting

theorem liveValues_recheck {pending left : List (PendingSend V)} {own : PendingSend V} {selfId : Nat}
    (found : takeFirst (·.senderId = selfId) PendingSend.rechecked pending = some (own, left))
    (waiting : own.phase ≠ .committed) : liveValues left = liveValues pending := by
  refine filterMap_takeFirst _ found ?_
  obtain ⟨value, senderId, phase⟩ := own
  cases phase <;> first | rfl | exact absurd rfl waiting

theorem collectClosedRecvOutcomes_nothing_written {waiters : List ChannelWaiter} {buffered : List V}
    (exclusive : liveReceivers waiters ≠ [] → buffered = []) :
    collectClosedRecvOutcomes waiters buffered =
      { waiters := waiters.filterMap ChannelWaiter.swept
        buffered
        closedRecvs := (waiters.filter (·.phase = .committed)).map (·.contextId) } := by
  induction waiters with
  | nil => rfl
  | cons waiter rest ih =>
    have later := ih fun waits => exclusive fun empty => waits (by
      rw [liveReceivers_eq_nil] at empty ⊢
      exact fun other member => empty other (List.mem_cons_of_mem _ member))
    obtain ⟨contextId, phase⟩ := waiter
    cases phase with
    | committed =>
      have drained : buffered = [] := exclusive (by simp [liveReceivers, ChannelWaiter.live, ChannelPhase.live])
      subst drained
      simp [collectClosedRecvOutcomes, later, List.filterMap_cons, ChannelWaiter.swept, ChannelPhase.swept]
    | pending =>
      have drained : buffered = [] := exclusive (by simp [liveReceivers, ChannelWaiter.live, ChannelPhase.live])
      subst drained
      simp [collectClosedRecvOutcomes, later, ChannelWaiter.swept, ChannelPhase.swept]
    | value => simp [collectClosedRecvOutcomes, later, ChannelWaiter.swept, ChannelPhase.swept]
    | closed => simp [collectClosedRecvOutcomes, later, ChannelWaiter.swept, ChannelPhase.swept]

end NLang.Vm.Sync
