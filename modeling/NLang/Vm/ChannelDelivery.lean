import NLang.Library.ParkTables
import NLang.Library.Runs
import NLang.Vm.ChannelSlots

/-!
# Delivery over a channel

Any contexts run the sections of `send`, `recv` and `close` on one channel. A context whose call parks does
nothing more on the channel until a section removes its entry.
-/

namespace NLang.Vm.Channel
open NLang.Library NLang.Library.Queues NLang.Library.ParkTables NLang.Library.Runs NLang.Vm.Sync

variable {V : Type}

inductive Control where
  | running
  | recvRegistered
  | recvParked
  | sendRegistered
  | sendParked
  deriving DecidableEq

structure State (V : Type) where
  slot : ChannelSlot V
  control : Nat → Control
  offered : List V
  accepted : List V
  received : List (Nat × V)
  dropped : List V
  vanished : Bool

inductive Action (V : Type) where
  | send (selfId : Nat) (value : V) (suspensionAllowed : Bool)
  | recv (selfId : Nat) (suspensionAllowed : Bool)
  | close (selfId : Nat)
  | recheckRecv (selfId : Nat)
  | recheckSend (selfId : Nat)

def resume (control : Nat → Control) (woken : List Nat) (id : Nat) : Control :=
  if id ∈ woken then .running else control id

def State.step (s : State V) : Action V → Option (State V)
  | .send selfId value suspensionAllowed =>
    if s.control selfId ≠ .running then none
    else
      match s.slot.send selfId value suspensionAllowed with
      | .error _ => some s
      | .ok (.handed receiver, slot) =>
        some { s with
          slot
          control := resume s.control receiver.wakes.toList
          offered := s.offered ++ [value]
          accepted := s.accepted ++ [value]
          received := s.received ++ [(receiver.contextId, value)] }
      | .ok (.buffered, slot) =>
        some { s with slot, offered := s.offered ++ [value], accepted := s.accepted ++ [value] }
      | .ok (.mustPark, slot) =>
        some { s with
          slot
          control := Function.update s.control selfId .sendRegistered
          offered := s.offered ++ [value] }
  | .recv selfId suspensionAllowed =>
    if s.control selfId ≠ .running then none
    else
      match s.slot.recv selfId suspensionAllowed with
      | .error _ => some s
      | .ok (.value value staged, slot) =>
        some { s with
          slot
          control := resume s.control (staged.bind PendingSend.wakes).toList
          accepted := s.accepted ++ (staged.map (·.value)).toList
          received := s.received ++ [(selfId, value)] }
      | .ok (.mustPark, slot) =>
        some { s with slot, control := Function.update s.control selfId .recvRegistered }
  | .close selfId =>
    if s.control selfId ≠ .running then none
    else
      let (slot, written, receivers, senders) := s.slot.close
      some { s with
        slot
        control := resume s.control (receivers ++ senders)
        received := s.received ++ written
        dropped := s.dropped ++ if s.slot.closed then [] else liveValues s.slot.pending }
  | .recheckRecv selfId =>
    if s.control selfId ≠ .recvRegistered then none
    else
      match s.slot.commitOrAbortChanRecv selfId with
      | .error _ => some { s with vanished := true }
      | .ok (none, slot) => some { s with slot, control := Function.update s.control selfId .recvParked }
      | .ok (some _, slot) => some { s with slot, control := Function.update s.control selfId .running }
  | .recheckSend selfId =>
    if s.control selfId ≠ .sendRegistered then none
    else
      match s.slot.commitOrAbortChanSend selfId with
      | .error _ => some { s with vanished := true }
      | .ok (none, slot) => some { s with slot, control := Function.update s.control selfId .sendParked }
      | .ok (some _, slot) => some { s with slot, control := Function.update s.control selfId .running }

def State.start (slot : ChannelSlot V) : State V :=
  { slot, control := fun _ => .running, offered := [], accepted := [], received := [], dropped := [],
    vanished := false }

structure Delivers (s : State V) : Prop where
  inOrder : s.accepted = s.received.map (·.2) ++ s.slot.buffered
  kept : s.offered = s.accepted ++ s.dropped ++ liveValues s.slot.pending
  openKeeps : s.slot.closed = false → s.dropped = []
  receivers : (∃ waiter ∈ s.slot.waiters, waiter.live = true) →
    s.slot.buffered = [] ∧ ∀ sender ∈ s.slot.pending, sender.live = false
  senders : (∃ sender ∈ s.slot.pending, sender.live = true) →
    0 < s.slot.capacity ∧ s.slot.buffered.length = s.slot.capacity
  closing : ∀ selfId s', s.step (.close selfId) = some s' →
    s'.slot.buffered = s.slot.buffered ∧ s'.received = s.received ∧ s'.accepted = s.accepted
  found : s.vanished = false

def Control.recvStatus : Control → Status
  | .recvRegistered => .registered
  | .recvParked => .parked
  | _ => .absent

def Control.sendStatus : Control → Status
  | .sendRegistered => .registered
  | .sendParked => .parked
  | _ => .absent

abbrev RecvTable (waiters : List ChannelWaiter) (status : Nat → Status) : Prop :=
  Matches ChannelWaiter.contextId ChannelWaiter.phase .committed waiters status

abbrev SendTable (pending : List (PendingSend V)) (status : Nat → Status) : Prop :=
  Matches PendingSend.senderId PendingSend.phase .committed pending status

structure Inv (s : State V) : Prop where
  inOrder : s.accepted = s.received.map (·.2) ++ s.slot.buffered
  kept : s.offered = s.accepted ++ s.dropped ++ liveValues s.slot.pending
  openKeeps : s.slot.closed = false → s.dropped = []
  shut : s.slot.closed = true → liveReceivers s.slot.waiters = [] ∧ liveValues s.slot.pending = []
  exclusive : liveReceivers s.slot.waiters ≠ [] → s.slot.buffered = [] ∧ liveValues s.slot.pending = []
  full : liveValues s.slot.pending ≠ [] → 0 < s.slot.capacity ∧ s.slot.buffered.length = s.slot.capacity
  bounded : 0 < s.slot.capacity → s.slot.buffered.length ≤ s.slot.capacity
  recvs : RecvTable s.slot.waiters (Control.recvStatus ∘ s.control)
  sends : SendTable s.slot.pending (Control.sendStatus ∘ s.control)
  found : s.vanished = false

theorem Inv.close_nothing_written {s : State V} (inv : Inv s) : s.slot.close.2.1 = [] := by
  unfold ChannelSlot.close
  cases s.slot.closed with
  | true => rfl
  | false =>
    simp only [Bool.false_eq_true, if_false]
    rw [collectClosedRecvOutcomes_nothing_written fun waits => (inv.exclusive waits).1]

theorem Inv.close_buffered {s : State V} (inv : Inv s) : s.slot.close.1.buffered = s.slot.buffered := by
  unfold ChannelSlot.close
  cases s.slot.closed with
  | true => rfl
  | false =>
    simp only [Bool.false_eq_true, if_false]
    rw [collectClosedRecvOutcomes_nothing_written fun waits => (inv.exclusive waits).1]

theorem Inv.delivers {s : State V} (inv : Inv s) : Delivers s where
  inOrder := inv.inOrder
  kept := inv.kept
  openKeeps := inv.openKeeps
  receivers := by
    rintro ⟨waiter, member, live⟩
    have waits : liveReceivers s.slot.waiters ≠ [] := fun empty => by
      rw [liveReceivers_eq_nil.mp empty waiter member] at live
      cases live
    exact ⟨(inv.exclusive waits).1, liveValues_eq_nil.mp (inv.exclusive waits).2⟩
  senders := by
    rintro ⟨sender, member, live⟩
    refine inv.full fun empty => ?_
    rw [liveValues_eq_nil.mp empty sender member] at live
    cases live
  closing := by
    intro selfId s' taken
    unfold State.step at taken
    by_cases runs : s.control selfId ≠ .running
    · simp only [if_pos runs] at taken
      cases taken
    · simp only [if_neg runs] at taken
      cases taken
      exact ⟨inv.close_buffered, by simp [inv.close_nothing_written], rfl⟩
  found := inv.found

theorem Inv.start {capacity : Int} {slot : ChannelSlot V} (built : ChannelSlot.construct capacity = .ok slot) :
    Inv (State.start slot) := by
  unfold ChannelSlot.construct at built
  by_cases negative : capacity < 0
  · rw [if_pos negative] at built
    cases built
  · rw [if_neg negative] at built
    cases built
    exact {
      inOrder := rfl
      kept := rfl
      openKeeps := fun _ => rfl
      shut := fun closed => by cases closed
      exclusive := fun waits => absurd rfl waits
      full := fun waits => absurd rfl waits
      bounded := fun _ => Nat.zero_le _
      recvs := Matches.start
      sends := Matches.start
      found := rfl }

theorem resume_nil (control : Nat → Control) : resume control [] = control := by
  funext id
  simp [resume]

theorem resume_single (control : Nat → Control) (id : Nat) :
    resume control [id] = Function.update control id .running := by
  funext other
  simp [resume, Function.update_apply]

theorem recvStatus_update (control : Nat → Control) (id : Nat) (now : Control) :
    Control.recvStatus ∘ Function.update control id now =
      Function.update (Control.recvStatus ∘ control) id now.recvStatus := Function.comp_update _ _ _ _

theorem sendStatus_update (control : Nat → Control) (id : Nat) (now : Control) :
    Control.sendStatus ∘ Function.update control id now =
      Function.update (Control.sendStatus ∘ control) id now.sendStatus := Function.comp_update _ _ _ _

theorem recvStatus_unchanged {control : Nat → Control} {id : Nat} {now : Control}
    (same : now.recvStatus = (control id).recvStatus) :
    Control.recvStatus ∘ Function.update control id now = Control.recvStatus ∘ control := by
  rw [recvStatus_update, same]
  exact Function.update_eq_self id _

theorem sendStatus_unchanged {control : Nat → Control} {id : Nat} {now : Control}
    (same : now.sendStatus = (control id).sendStatus) :
    Control.sendStatus ∘ Function.update control id now = Control.sendStatus ∘ control := by
  rw [sendStatus_update, same]
  exact Function.update_eq_self id _

theorem recvStatus_parked {control : Control} (parked : control.recvStatus = .parked) : control = .recvParked := by
  cases control <;> first | rfl | cases parked

theorem sendStatus_parked {control : Control} (parked : control.sendStatus = .parked) : control = .sendParked := by
  cases control <;> first | rfl | cases parked

theorem handoff_none {slot : ChannelSlot V} (nobody : slot.handoffToLiveWaiter = none) :
    liveReceivers slot.waiters = [] := by
  unfold ChannelSlot.handoffToLiveWaiter at nobody
  exact liveReceivers_eq_nil.mpr (takeFirst_none.mp (Option.map_eq_none_iff.mp nobody))

theorem handoff_some {slot after : ChannelSlot V} {receiver : ChannelWaiter} {control : Nat → Control}
    (handed : slot.handoffToLiveWaiter = some (receiver, after))
    (recvs : RecvTable slot.waiters (Control.recvStatus ∘ control)) :
    after = { slot with waiters := after.waiters } ∧
      liveReceivers slot.waiters = receiver.contextId :: liveReceivers after.waiters ∧
      RecvTable after.waiters (Control.recvStatus ∘ resume control receiver.wakes.toList) ∧
      Control.sendStatus ∘ resume control receiver.wakes.toList = Control.sendStatus ∘ control := by
  unfold ChannelSlot.handoffToLiveWaiter at handed
  obtain ⟨⟨_, left⟩, found, equal⟩ := Option.map_eq_some_iff.mp handed
  cases equal
  obtain ⟨-, -, -, -, live, -⟩ := takeFirst_some found
  refine ⟨rfl, ?_, ?_⟩
  · exact filterMap_served found (fun waiter stale => by simp [stale]) (by simp [live])
      fun entry serves => (ChannelWaiter.served_some serves).1
  · obtain ⟨ifParked, ifWaiting⟩ := recvs.served found (fun entry serves => (ChannelWaiter.served_some serves).2)
      (Option.map_eq_none_iff.trans ChannelPhase.served_eq_none)
    unfold ChannelWaiter.wakes
    by_cases parked : receiver.phase = .committed
    · obtain ⟨stands, table⟩ := ifParked parked
      rw [if_pos parked, Option.toList_some, resume_single, recvStatus_update]
      exact ⟨table, sendStatus_unchanged (by rw [recvStatus_parked stands]; rfl)⟩
    · rw [if_neg parked, Option.toList_none, resume_nil]
      exact ⟨(ifWaiting parked).2, rfl⟩

theorem stage_none {slot after : ChannelSlot V} (nobody : slot.stagePendingSend = (none, after)) :
    after = slot ∧ liveValues slot.pending = [] := by
  unfold ChannelSlot.stagePendingSend at nobody
  cases found : takeFirst PendingSend.live PendingSend.served slot.pending with
  | none =>
    rw [found] at nobody
    cases nobody
    exact ⟨rfl, liveValues_eq_nil.mpr (takeFirst_none.mp found)⟩
  | some result =>
    rw [found] at nobody
    cases nobody

theorem stage_some {slot after : ChannelSlot V} {sender : PendingSend V} {control : Nat → Control}
    (staged : slot.stagePendingSend = (some sender, after))
    (sends : SendTable slot.pending (Control.sendStatus ∘ control)) :
    after = { slot with buffered := slot.buffered ++ [sender.value], pending := after.pending } ∧
      liveValues slot.pending = sender.value :: liveValues after.pending ∧
      SendTable after.pending (Control.sendStatus ∘ resume control sender.wakes.toList) ∧
      Control.recvStatus ∘ resume control sender.wakes.toList = Control.recvStatus ∘ control := by
  unfold ChannelSlot.stagePendingSend at staged
  cases found : takeFirst PendingSend.live PendingSend.served slot.pending with
  | none =>
    rw [found] at staged
    cases staged
  | some result =>
    obtain ⟨_, left⟩ := result
    rw [found] at staged
    cases staged
    obtain ⟨-, -, -, -, live, -⟩ := takeFirst_some found
    refine ⟨rfl, ?_, ?_⟩
    · exact filterMap_served found (fun waiter stale => by simp [stale]) (by simp [live])
        fun entry serves => (PendingSend.served_some serves).1
    · obtain ⟨ifParked, ifWaiting⟩ := sends.served found (fun entry serves => (PendingSend.served_some serves).2)
        (Option.map_eq_none_iff.trans ChannelPhase.served_eq_none)
      unfold PendingSend.wakes
      by_cases parked : sender.phase = .committed
      · obtain ⟨stands, table⟩ := ifParked parked
        rw [if_pos parked, Option.toList_some, resume_single, sendStatus_update]
        exact ⟨table, recvStatus_unchanged (by rw [sendStatus_parked stands]; rfl)⟩
      · rw [if_neg parked, Option.toList_none, resume_nil]
        exact ⟨(ifWaiting parked).2, rfl⟩

theorem Inv.register_recv {s : State V} {selfId : Nat} (inv : Inv s) (running : s.control selfId = .running)
    (opened : s.slot.closed ≠ true) (drained : s.slot.buffered = []) :
    Inv { s with
      slot := { s.slot with waiters := s.slot.waiters ++ [{ contextId := selfId }] }
      control := Function.update s.control selfId .recvRegistered } := by
  have nobody : liveValues s.slot.pending = [] := by
    by_contra waits
    obtain ⟨positive, filled⟩ := inv.full waits
    rw [drained] at filled
    exact absurd filled.symm (Nat.ne_of_gt positive)
  refine { inv with
    shut := fun closed => absurd closed opened
    exclusive := fun _ => ⟨drained, nobody⟩
    recvs := ?_
    sends := ?_ }
  · rw [recvStatus_update]
    exact inv.recvs.register (by simp [Control.recvStatus, running]) ChannelPhase.noConfusion
  · rw [sendStatus_unchanged (by rw [running]; rfl)]
    exact inv.sends

theorem Inv.register_send {s : State V} {selfId : Nat} {value : V} (inv : Inv s)
    (running : s.control selfId = .running) (opened : s.slot.closed ≠ true)
    (nobody : liveReceivers s.slot.waiters = [])
    (filled : 0 < s.slot.capacity ∧ s.slot.capacity ≤ s.slot.buffered.length) :
    Inv { s with
      slot := { s.slot with pending := s.slot.pending ++ [{ value, senderId := selfId }] }
      control := Function.update s.control selfId .sendRegistered
      offered := s.offered ++ [value] } := by
  have joins : liveValues (s.slot.pending ++ [{ value, senderId := selfId }]) = liveValues s.slot.pending ++ [value] := by
    rw [liveValues, List.filterMap_append]
    rfl
  refine { inv with
    kept := ?_
    shut := fun closed => absurd closed opened
    exclusive := fun waits => absurd nobody waits
    full := fun _ => ⟨filled.1, Nat.le_antisymm (inv.bounded filled.1) filled.2⟩
    recvs := ?_
    sends := ?_ }
  · change s.offered ++ [value] = s.accepted ++ s.dropped ++ liveValues (s.slot.pending ++ _)
    rw [joins, inv.kept, List.append_assoc]
  · rw [recvStatus_unchanged (by rw [running]; rfl)]
    exact inv.recvs
  · rw [sendStatus_update]
    exact inv.sends.register (by simp [Control.sendStatus, running]) ChannelPhase.noConfusion

theorem Inv.send {s s' : State V} {selfId : Nat} {value : V} {suspensionAllowed : Bool} (inv : Inv s)
    (taken : s.step (.send selfId value suspensionAllowed) = some s') : Inv s' := by
  by_cases busy : s.control selfId ≠ .running
  · simp only [State.step, if_pos busy] at taken
    cases taken
  simp only [State.step, if_neg busy, ChannelSlot.send] at taken
  have running : s.control selfId = .running := not_not.mp busy
  by_cases opened : s.slot.closed = true
  · simp only [if_pos opened] at taken
    cases taken
    exact inv
  · simp only [if_neg opened] at taken
    have intact := inv.openKeeps (eq_false_of_ne_true opened)
    cases handed : s.slot.handoffToLiveWaiter with
    | some result =>
      -- the receiver takes the value at once: nothing is buffered and no sender waits
      obtain ⟨receiver, after⟩ := result
      rw [handed] at taken
      cases taken
      obtain ⟨frame, served, recvs, sends⟩ := handoff_some handed inv.recvs
      obtain ⟨drained, nobody⟩ := inv.exclusive (by rw [served]; exact List.cons_ne_nil _ _)
      rw [frame]
      exact {
        inOrder := by simp [inv.inOrder, drained]
        kept := by simp [inv.kept, intact, nobody]
        openKeeps := inv.openKeeps
        shut := fun closed => absurd closed opened
        exclusive := fun _ => ⟨drained, nobody⟩
        full := inv.full
        bounded := inv.bounded
        recvs
        sends := by rw [sends]; exact inv.sends
        found := inv.found }
    | none =>
      rw [handed] at taken
      have nobody := handoff_none handed
      by_cases filled : 0 < s.slot.capacity ∧ s.slot.capacity ≤ s.slot.buffered.length
      · simp only [if_pos filled] at taken
        cases suspensionAllowed with
        | false =>
          cases taken
          exact inv
        | true =>
          cases taken
          exact inv.register_send running opened nobody filled
      · simp only [if_neg filled] at taken
        cases taken
        have unsent : liveValues s.slot.pending = [] := by
          by_contra waits
          obtain ⟨positive, equal⟩ := inv.full waits
          exact filled ⟨positive, Nat.le_of_eq equal.symm⟩
        exact { inv with
          inOrder := by simp [inv.inOrder]
          kept := by simp [inv.kept, intact, unsent]
          exclusive := fun waits => absurd nobody waits
          full := fun waits => absurd unsent waits
          bounded := fun positive => by
            have room : ¬ s.slot.capacity ≤ s.slot.buffered.length := fun reached => filled ⟨positive, reached⟩
            simp only [List.length_append, List.length_singleton]
            exact Nat.lt_of_not_le room }

theorem Inv.recv {s s' : State V} {selfId : Nat} {suspensionAllowed : Bool} (inv : Inv s)
    (taken : s.step (.recv selfId suspensionAllowed) = some s') : Inv s' := by
  by_cases busy : s.control selfId ≠ .running
  · simp only [State.step, if_pos busy] at taken
    cases taken
  simp only [State.step, if_neg busy] at taken
  cases holds : s.slot.buffered with
  | nil =>
    rw [ChannelSlot.recv_empty holds] at taken
    by_cases opened : s.slot.closed = true
    · simp only [if_pos opened] at taken
      cases taken
      exact inv
    · simp only [if_neg opened] at taken
      cases suspensionAllowed with
      | false =>
        cases taken
        exact inv
      | true =>
        cases taken
        exact inv.register_recv (not_not.mp busy) opened holds
  | cons value rest =>
    simp only [ChannelSlot.recv, holds] at taken
    have nobody : liveReceivers s.slot.waiters = [] := by
      by_contra waits
      have drained := (inv.exclusive waits).1
      rw [holds] at drained
      cases drained
    have bounded := inv.bounded
    have full := inv.full
    rw [holds] at bounded full
    cases staging : { s.slot with buffered := rest }.stagePendingSend with
    | mk staged after =>
      simp only [staging] at taken
      cases taken
      cases staged with
      | none =>
        obtain ⟨rfl, unsent⟩ := stage_none staging
        rw [Option.bind_none, Option.toList_none, resume_nil]
        exact { inv with
          inOrder := by simp [inv.inOrder, holds]
          kept := by simp [inv.kept]
          exclusive := fun waits => absurd nobody waits
          full := fun waits => absurd unsent waits
          bounded := fun positive => Nat.le_of_succ_le (bounded positive) }
      | some sender =>
        -- the freed place goes to the sender that waited longest
        obtain ⟨frame, served, sends, recvs⟩ := stage_some staging inv.sends
        obtain ⟨positive, equal⟩ := full (by rw [served]; exact List.cons_ne_nil _ _)
        rw [frame, Option.bind_some]
        have refilled : (rest ++ [sender.value]).length = s.slot.capacity := by
          rw [List.length_append, List.length_singleton]
          exact equal
        exact {
          inOrder := by simp [inv.inOrder, holds]
          kept := by
            have before : s.offered = _ := inv.kept
            rw [show liveValues s.slot.pending = sender.value :: liveValues after.pending from served] at before
            have intact : s.dropped = [] := by
              refine inv.openKeeps ?_
              cases opened : s.slot.closed with
              | false => rfl
              | true =>
                have unsent := (inv.shut opened).2
                rw [show liveValues s.slot.pending = sender.value :: liveValues after.pending from served] at unsent
                cases unsent
            simp [before, intact]
          openKeeps := inv.openKeeps
          shut := fun closed => by
            have unsent := (inv.shut closed).2
            rw [show liveValues s.slot.pending = sender.value :: liveValues after.pending from served] at unsent
            cases unsent
          exclusive := fun waits => absurd nobody waits
          full := fun _ => ⟨positive, refilled⟩
          bounded := fun _ => Nat.le_of_eq refilled
          recvs := by rw [recvs]; exact inv.recvs
          sends
          found := inv.found }

theorem resume_closed {waiters : List ChannelWaiter} {pending : List (PendingSend V)} {control : Nat → Control}
    (recvs : RecvTable waiters (Control.recvStatus ∘ control))
    (sends : SendTable pending (Control.sendStatus ∘ control)) (id : Nat) :
    resume control ((waiters.filter (·.phase = .committed)).map (·.contextId) ++
        (pending.filter (·.phase = .committed)).map (·.senderId)) id =
      match control id with
      | .recvParked => .running
      | .sendParked => .running
      | going => going := by
  have received : id ∈ (waiters.filter (·.phase = .committed)).map (·.contextId) ↔
      (control id).recvStatus = .parked := by
    rw [show (control id).recvStatus = (Control.recvStatus ∘ control) id from rfl, recvs.parked_iff]
    simp [and_assoc]
  have sent : id ∈ (pending.filter (·.phase = .committed)).map (·.senderId) ↔
      (control id).sendStatus = .parked := by
    rw [show (control id).sendStatus = (Control.sendStatus ∘ control) id from rfl, sends.parked_iff]
    simp [and_assoc]
  simp only [resume, List.mem_append, received, sent]
  cases control id <;> simp [Control.recvStatus, Control.sendStatus]

theorem Inv.close {s s' : State V} {selfId : Nat} (inv : Inv s)
    (taken : s.step (.close selfId) = some s') : Inv s' := by
  by_cases busy : s.control selfId ≠ .running
  · simp only [State.step, if_pos busy] at taken
    cases taken
  by_cases shut : s.slot.closed = true
  · simp only [State.step, if_neg busy, ChannelSlot.close, if_pos shut, resume_nil, List.append_nil] at taken
    cases taken
    exact inv
  · have silent := collectClosedRecvOutcomes_nothing_written fun waits => (inv.exclusive waits).1
    simp only [State.step, if_neg busy, ChannelSlot.close, if_neg shut, silent, collectClosedSenders,
      List.append_nil] at taken
    cases taken
    have resumed := resume_closed inv.recvs inv.sends
    have noReceiver : liveReceivers (s.slot.waiters.filterMap ChannelWaiter.swept) = [] := by
      refine liveReceivers_eq_nil.mpr fun waiter member => ?_
      obtain ⟨before, -, sweeps⟩ := List.mem_filterMap.mp member
      exact (ChannelWaiter.swept_some sweeps).1
    have noSender : liveValues (s.slot.pending.filterMap PendingSend.swept) = [] := by
      refine liveValues_eq_nil.mpr fun sender member => ?_
      obtain ⟨before, -, sweeps⟩ := List.mem_filterMap.mp member
      exact (PendingSend.swept_some sweeps).1
    exact {
      inOrder := inv.inOrder
      kept := by simp [inv.kept, noSender]
      openKeeps := fun opened => by cases opened
      shut := fun _ => ⟨noReceiver, noSender⟩
      exclusive := fun waits => absurd noReceiver waits
      full := fun waits => absurd noSender waits
      bounded := inv.bounded
      recvs := by
        refine (inv.recvs.swept (fun _ _ sweeps => (ChannelWaiter.swept_some sweeps).2)
          fun _ => Option.map_eq_none_iff.trans ChannelPhase.swept_eq_none).congr fun id => ?_
        simp only [Function.comp_apply, resumed]
        cases s.control id <;> rfl
      sends := by
        refine (inv.sends.swept (fun _ _ sweeps => (PendingSend.swept_some sweeps).2)
          fun _ => Option.map_eq_none_iff.trans ChannelPhase.swept_eq_none).congr fun id => ?_
        simp only [Function.comp_apply, resumed]
        cases s.control id <;> rfl
      found := inv.found }

theorem Inv.recheck {s : State V} {waiters : List ChannelWaiter} {pending : List (PendingSend V)}
    {control : Nat → Control} (inv : Inv s) (receivers : liveReceivers waiters = liveReceivers s.slot.waiters)
    (values : liveValues pending = liveValues s.slot.pending)
    (recvs : RecvTable waiters (Control.recvStatus ∘ control))
    (sends : SendTable pending (Control.sendStatus ∘ control)) :
    Inv { s with slot := { s.slot with waiters, pending }, control } where
  inOrder := inv.inOrder
  kept := by
    change s.offered = s.accepted ++ s.dropped ++ liveValues pending
    rw [values]
    exact inv.kept
  openKeeps := inv.openKeeps
  shut := fun closed => by
    change liveReceivers waiters = [] ∧ liveValues pending = []
    rw [receivers, values]
    exact inv.shut closed
  exclusive := fun waits => by
    change s.slot.buffered = [] ∧ liveValues pending = []
    rw [values]
    exact inv.exclusive (receivers ▸ waits)
  full := fun waits => inv.full (values ▸ waits)
  bounded := inv.bounded
  recvs
  sends
  found := inv.found

theorem Inv.recheckRecv {s s' : State V} {selfId : Nat} (inv : Inv s)
    (taken : s.step (.recheckRecv selfId) = some s') : Inv s' := by
  by_cases elsewhere : s.control selfId ≠ .recvRegistered
  · simp only [State.step, if_pos elsewhere] at taken
    cases taken
  have registered : s.control selfId = .recvRegistered := not_not.mp elsewhere
  obtain ⟨own, left, found, -, waiting, table⟩ := inv.recvs.recheck
    (show Control.recvStatus (s.control selfId) = .registered by rw [registered]; rfl) fun _ _ => ChannelWaiter.rechecked_some
  have receivers := liveReceivers_recheck found waiting
  simp only [State.step, if_neg elsewhere, ChannelSlot.commitOrAbortChanRecv, found] at taken
  obtain ⟨contextId, phase⟩ := own
  cases phase with
  | committed => exact absurd rfl waiting
  | pending =>
    cases taken
    refine inv.recheck receivers rfl ?_ ?_
    · rw [recvStatus_update]
      exact table
    · rw [sendStatus_unchanged (by rw [registered]; rfl)]
      exact inv.sends
  | value =>
    cases taken
    refine inv.recheck receivers rfl ?_ ?_
    · rw [recvStatus_update]
      exact table
    · rw [sendStatus_unchanged (by rw [registered]; rfl)]
      exact inv.sends
  | closed =>
    cases taken
    refine inv.recheck receivers rfl ?_ ?_
    · rw [recvStatus_update]
      exact table
    · rw [sendStatus_unchanged (by rw [registered]; rfl)]
      exact inv.sends

theorem Inv.recheckSend {s s' : State V} {selfId : Nat} (inv : Inv s)
    (taken : s.step (.recheckSend selfId) = some s') : Inv s' := by
  by_cases elsewhere : s.control selfId ≠ .sendRegistered
  · simp only [State.step, if_pos elsewhere] at taken
    cases taken
  have registered : s.control selfId = .sendRegistered := not_not.mp elsewhere
  obtain ⟨own, left, found, -, waiting, table⟩ := inv.sends.recheck
    (show Control.sendStatus (s.control selfId) = .registered by rw [registered]; rfl) fun _ _ => PendingSend.rechecked_some
  have values := liveValues_recheck found waiting
  simp only [State.step, if_neg elsewhere, ChannelSlot.commitOrAbortChanSend, found] at taken
  obtain ⟨value, senderId, phase⟩ := own
  cases phase with
  | committed => exact absurd rfl waiting
  | pending =>
    cases taken
    refine inv.recheck rfl values ?_ ?_
    · rw [recvStatus_unchanged (by rw [registered]; rfl)]
      exact inv.recvs
    · rw [sendStatus_update]
      exact table
  | value =>
    cases taken
    refine inv.recheck rfl values ?_ ?_
    · rw [recvStatus_unchanged (by rw [registered]; rfl)]
      exact inv.recvs
    · rw [sendStatus_update]
      exact table
  | closed =>
    cases taken
    refine inv.recheck rfl values ?_ ?_
    · rw [recvStatus_unchanged (by rw [registered]; rfl)]
      exact inv.recvs
    · rw [sendStatus_update]
      exact table

/-- In every state of every run, what was received and what is buffered is what was accepted, in that order. -/
theorem channel_delivers {capacity : Int} {slot : ChannelSlot V} {s : State V}
    (built : ChannelSlot.construct capacity = .ok slot)
    (run : Run State.step (fun _ _ => True) (State.start slot) s) : Delivers s := by
  refine Inv.delivers (run.invariant Inv (Inv.start built) ?_)
  intro s action s' inv _ taken
  cases action with
  | send => exact inv.send taken
  | recv => exact inv.recv taken
  | close => exact inv.close taken
  | recheckRecv => exact inv.recheckRecv taken
  | recheckSend => exact inv.recheckSend taken

theorem channel_delivers_closed :
    ∃ s : State Nat, s.received.map (·.2) = [7] ∧ s.dropped = [8] ∧ Delivers s := by
  have run : Run State.step (fun _ _ => True) (State.start ({ capacity := 1 } : ChannelSlot Nat)) _ :=
    Run.refl.actions (fun _ _ _ => trivial)
      (show [Action.send 0 7 true, .send 1 8 true, .recheckSend 1, .close 0, .recv 2 true].foldlM State.step
        (State.start ({ capacity := 1 } : ChannelSlot Nat)) = some _ from rfl)
  exact ⟨_, rfl, rfl, @channel_delivers _ 1 _ _ rfl run⟩

end NLang.Vm.Channel
