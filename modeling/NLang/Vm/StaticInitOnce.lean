import NLang.Library.Runs
import NLang.Vm.StaticInit

/-!
# One initialiser a machine, and no waiter forgotten
-/

namespace NLang.Vm.StaticInit
open NLang.Library.Runs

namespace Control

def settling : Control → Option Nat
  | .storeOwner slot | .publish slot _ => some slot
  | _ => none

def gateSlot : Control → Option Nat
  | .loadPhase _ slot | .loadOwner _ slot | .exchange _ slot _ | .lockWaiters _ slot | .recheck _ slot
  | .register _ slot | .parked _ slot => some slot
  | _ => none

def holdsMutex : Control → Bool
  | .recheck .. | .register .. | .release .. => true
  | _ => false

def toWake : Control → List Nat
  | .wake waiters _ | .release _ waiters => waiters
  | _ => []

def parkedOn : Control → Option Nat
  | .parked _ slot => some slot
  | _ => none

def taking : Control → Option Nat
  | .takeWaiters slot => some slot
  | _ => none

def registering : Control → Option Nat
  | .register _ slot => some slot
  | _ => none

end Control

def Pending (s : State) (slot : Nat) : Prop :=
  (s.machines slot).phase = .initializing ∨ ∃ ctx, (s.control ctx).taking = some slot

structure Claims (s : State) : Prop where
  inTable : ∀ ctx slot, slot ∈ s.claims ctx → slot < s.count
  phase : ∀ ctx slot, slot ∈ s.claims ctx → (s.machines slot).phase = .initializing
  sole : ∀ ctx ctx' slot, slot ∈ s.claims ctx → slot ∈ s.claims ctx' → ctx = ctx'
  once : ∀ ctx, (s.claims ctx).Nodup
  claimed : ∀ slot, (s.machines slot).phase = .initializing → ∃ ctx, slot ∈ s.claims ctx
  owner : ∀ ctx slot, (s.machines slot).ownerCtxId = some ctx ↔
    slot ∈ s.claims ctx ∧ (s.control ctx).settling ≠ some slot
  settling : ∀ ctx slot, (s.control ctx).settling = some slot → slot ∈ s.claims ctx
  done : ∀ slot, s.doneCount slot = if (s.machines slot).phase = .done then 1 else 0
  gate : ∀ ctx slot, (s.control ctx).gateSlot = some slot → slot < s.count
  released : ∀ ctx next woken, s.control ctx = .release next woken → ∀ slot ∈ s.claims ctx, next ≤ slot
  relinquished : ∀ ctx woken, s.control ctx = .wake woken false → s.claims ctx = []

def MutexHeld (s : State) : Prop := ∀ ctx, s.mutex = some ctx ↔ (s.control ctx).holdsMutex = true

structure Waiting (s : State) : Prop where
  waiting : ∀ waiter slot, waiter ∈ (s.machines slot).waiters → (s.control waiter).parkedOn = some slot
  waitingOnce : ∀ slot, (s.machines slot).waiters.Nodup
  pending : ∀ slot, (s.machines slot).waiters ≠ [] → Pending s slot
  registering : ∀ ctx slot, (s.control ctx).registering = some slot → Pending s slot
  woken : ∀ ctx waiter, waiter ∈ (s.control ctx).toWake → (s.control waiter).parkedOn ≠ none
  wokenOnce : ∀ ctx, (s.control ctx).toWake.Nodup
  wokenSole : ∀ ctx ctx' waiter, waiter ∈ (s.control ctx).toWake → waiter ∈ (s.control ctx').toWake → ctx = ctx'
  apart : ∀ ctx waiter slot, waiter ∈ (s.control ctx).toWake → waiter ∉ (s.machines slot).waiters
  parked : ∀ waiter slot, (s.control waiter).parkedOn = some slot →
    waiter ∈ (s.machines slot).waiters ∨ ∃ ctx, waiter ∈ (s.control ctx).toWake

structure Invariant (s : State) : Prop where
  claims : Claims s
  mutex : MutexHeld s
  waiting : Waiting s

theorem invariant_initial (count : Nat) : Invariant (State.initial count) where
  claims :=
    { inTable := fun _ _ member => by cases member
      phase := fun _ _ member => by cases member
      sole := fun _ _ _ member _ => by cases member
      once := fun _ => List.nodup_nil
      claimed := fun _ phase => by cases phase
      owner := fun _ _ => by
        constructor
        · intro owned
          cases owned
        · intro claimed
          cases claimed.1
      settling := fun _ _ settling => by cases settling
      done := fun _ => rfl
      gate := fun _ _ gate => by cases gate
      released := fun _ _ _ control => by cases control
      relinquished := fun _ _ control => by cases control }
  mutex := fun _ => by
    constructor
    · intro held
      cases held
    · intro held
      cases held
  waiting :=
    { waiting := fun _ _ member => by cases member
      waitingOnce := fun _ => List.nodup_nil
      pending := fun _ some => absurd rfl some
      registering := fun _ _ registering => by cases registering
      woken := fun _ _ member => by cases member
      wokenOnce := fun _ => List.nodup_nil
      wokenSole := fun _ _ _ member _ => by cases member
      apart := fun _ _ _ member => by cases member
      parked := fun _ _ parked => by cases parked }

variable {s s' : State} {ctx slot : Nat} {control : Control}

theorem view_update {β : Type} (view : Control → β) (other : Nat) :
    view (Function.update s.control ctx control other) =
      if other = ctx then view control else view (s.control other) := by
  by_cases same : other = ctx
  · rw [same, Function.update_self, if_pos rfl]
  · rw [Function.update_of_ne same, if_neg same]

theorem view_kept {β : Type} {view : Control → β} (kept : view control = view (s.control ctx)) (other : Nat) :
    view (Function.update s.control ctx control other) = view (s.control other) := by
  rw [view_update view]
  split
  · next same => rw [same, kept]
  · rfl

theorem Claims.goTo (claims : Claims s)
    (phases : ∀ slot, (s'.machines slot).phase = (s.machines slot).phase)
    (owners : ∀ slot, (s'.machines slot).ownerCtxId = (s.machines slot).ownerCtxId)
    (count : s'.count = s.count) (same : s'.claims = s.claims) (doneCount : s'.doneCount = s.doneCount)
    (moved : s'.control = Function.update s.control ctx control)
    (settling : control.settling = (s.control ctx).settling)
    (gate : ∀ slot, control.gateSlot = some slot → slot < s.count)
    (released : ∀ next woken, control = .release next woken → ∀ slot ∈ s.claims ctx, next ≤ slot)
    (relinquished : ∀ woken, control = .wake woken false → s.claims ctx = []) : Claims s' where
  inTable := by rw [same, count]; exact claims.inTable
  phase := by
    intro other slot member
    rw [phases]
    exact claims.phase other slot (same ▸ member)
  sole := by rw [same]; exact claims.sole
  once := by rw [same]; exact claims.once
  claimed := by
    intro slot phase
    rw [same]
    exact claims.claimed slot ((phases slot).symm.trans phase)
  owner := by
    intro other slot
    rw [owners, same, moved, view_kept settling]
    exact claims.owner other slot
  settling := by
    intro other slot there
    rw [moved, view_kept settling] at there
    rw [same]
    exact claims.settling other slot there
  done := by
    intro slot
    rw [doneCount, phases]
    exact claims.done slot
  gate := by
    intro other slot there
    rw [moved, view_update Control.gateSlot] at there
    rw [count]
    split at there
    · exact gate slot there
    · exact claims.gate other slot there
  released := by
    intro other next woken there
    rw [moved] at there
    rw [same]
    by_cases equal : other = ctx
    · rw [equal, Function.update_self] at there
      rw [equal]
      exact released next woken there
    · rw [Function.update_of_ne equal] at there
      exact claims.released other next woken there
  relinquished := by
    intro other woken there
    rw [moved] at there
    rw [same]
    by_cases equal : other = ctx
    · rw [equal, Function.update_self] at there
      rw [equal]
      exact relinquished woken there
    · rw [Function.update_of_ne equal] at there
      exact claims.relinquished other woken there

theorem MutexHeld.goTo (held : MutexHeld s) (mutex : s'.mutex = s.mutex)
    (moved : s'.control = Function.update s.control ctx control)
    (view : control.holdsMutex = (s.control ctx).holdsMutex) : MutexHeld s' := by
  intro other
  rw [mutex, moved, view_kept view]
  exact held other

theorem MutexHeld.acquire (held : MutexHeld s) (free : s.mutex = none) (mutex : s'.mutex = some ctx)
    (moved : s'.control = Function.update s.control ctx control) (holds : control.holdsMutex = true) :
    MutexHeld s' := by
  intro other
  rw [mutex, moved, view_update Control.holdsMutex]
  by_cases same : other = ctx
  · rw [same, if_pos rfl]
    exact iff_of_true rfl holds
  · rw [if_neg same]
    refine iff_of_false (fun equal => same (Option.some.inj equal).symm) fun holder => ?_
    have taken := (held other).mpr holder
    rw [free] at taken
    cases taken

theorem MutexHeld.release (held : MutexHeld s) (holder : (s.control ctx).holdsMutex = true)
    (mutex : s'.mutex = none) (moved : s'.control = Function.update s.control ctx control)
    (leaves : control.holdsMutex = false) : MutexHeld s' := by
  intro other
  rw [mutex, moved, view_update Control.holdsMutex]
  by_cases same : other = ctx
  · rw [same, if_pos rfl, leaves]
    exact iff_of_false (fun equal => by cases equal) Bool.false_ne_true
  · rw [if_neg same]
    refine iff_of_false (fun equal => by cases equal) fun second => same ?_
    exact Option.some.inj (((held other).mpr second).symm.trans ((held ctx).mpr holder))

theorem Waiting.goTo (waiting : Waiting s)
    (lists : ∀ slot, (s'.machines slot).waiters = (s.machines slot).waiters)
    (moved : s'.control = Function.update s.control ctx control)
    (parkedOn : control.parkedOn = (s.control ctx).parkedOn) (toWake : control.toWake = (s.control ctx).toWake)
    (pending : ∀ slot, Pending s slot → Pending s' slot)
    (registering : ∀ slot, control.registering = some slot → Pending s' slot) : Waiting s' where
  waiting := by
    intro waiter slot member
    rw [moved, view_kept parkedOn]
    exact waiting.waiting waiter slot (lists slot ▸ member)
  waitingOnce := by
    intro slot
    rw [lists]
    exact waiting.waitingOnce slot
  pending := by
    intro slot some
    rw [lists] at some
    exact pending slot (waiting.pending slot some)
  registering := by
    intro other slot there
    rw [moved, view_update Control.registering] at there
    split at there
    · exact registering slot there
    · exact pending slot (waiting.registering other slot there)
  woken := by
    intro other waiter member
    rw [moved, view_kept toWake] at member
    rw [moved, view_kept parkedOn]
    exact waiting.woken other waiter member
  wokenOnce := by
    intro other
    rw [moved, view_kept toWake]
    exact waiting.wokenOnce other
  wokenSole := by
    intro one two waiter first second
    rw [moved, view_kept toWake] at first second
    exact waiting.wokenSole one two waiter first second
  apart := by
    intro other waiter slot member
    rw [moved, view_kept toWake] at member
    rw [lists]
    exact waiting.apart other waiter slot member
  parked := by
    intro waiter slot there
    rw [moved, view_kept parkedOn] at there
    rw [lists]
    rcases waiting.parked waiter slot there with listed | ⟨other, member⟩
    · exact .inl listed
    · refine .inr ⟨other, ?_⟩
      rw [moved, view_kept toWake]
      exact member

theorem machine_update (machine : Machine) (other : Nat) :
    Function.update s.machines slot machine other = if other = slot then machine else s.machines other := by
  by_cases same : other = slot
  · rw [same, Function.update_self, if_pos rfl]
  · rw [Function.update_of_ne same, if_neg same]

theorem Claims.unclaimed (claims : Claims s) (idle : (s.machines slot).phase ≠ .initializing) (other : Nat) :
    slot ∉ s.claims other ∧ (s.machines slot).ownerCtxId ≠ some other := by
  have outside : slot ∉ s.claims other := fun member => idle (claims.phase other slot member)
  exact ⟨outside, fun owned => outside ((claims.owner other slot).mp owned).1⟩

theorem Claims.unowned (claims : Claims s) (settling : (s.control ctx).settling = some slot) (other : Nat) :
    (s.machines slot).ownerCtxId ≠ some other := by
  intro owned
  obtain ⟨claimed, elsewhere⟩ := (claims.owner other slot).mp owned
  have same := claims.sole other ctx slot claimed (claims.settling ctx slot settling)
  exact elsewhere (same ▸ settling)

theorem Claims.claim (claims : Claims s) (idle : (s.machines slot).phase = .uninitialized)
    (bound : slot < s.count) (settled : (s.control ctx).settling = none) :
    Claims { (s.setMachine slot { s.machines slot with phase := .initializing }).goTo ctx (.storeOwner slot) with
      claims := Function.update s.claims ctx (slot :: s.claims ctx) } := by
  have unclaimed := claims.unclaimed (by rw [idle]; exact Phase.noConfusion)
  have members : ∀ other place, place ∈ Function.update s.claims ctx (slot :: s.claims ctx) other ↔
      (other = ctx ∧ place = slot) ∨ place ∈ s.claims other := by
    intro other place
    by_cases same : other = ctx
    · rw [same, Function.update_self, List.mem_cons]
      simp only [true_and]
    · rw [Function.update_of_ne same]
      simp only [same, false_and, false_or]
  exact {
    inTable := by
      intro other place member
      rcases (members other place).mp member with ⟨_, rfl⟩ | old
      · exact bound
      · exact claims.inTable other place old
    phase := by
      intro other place member
      simp only [State.goTo, State.setMachine, machine_update]
      by_cases same : place = slot
      · rw [if_pos same]
      · rw [if_neg same]
        rcases (members other place).mp member with ⟨_, equal⟩ | old
        · exact absurd equal same
        · exact claims.phase other place old
    sole := by
      intro one two place first second
      rcases (members one place).mp first with ⟨mine, rfl⟩ | old
      · rcases (members two place).mp second with ⟨theirs, _⟩ | other
        · rw [mine, theirs]
        · exact absurd other (unclaimed two).1
      · rcases (members two place).mp second with ⟨_, rfl⟩ | other
        · exact absurd old (unclaimed one).1
        · exact claims.sole one two place old other
    once := by
      intro other
      show (Function.update s.claims ctx (slot :: s.claims ctx) other).Nodup
      by_cases same : other = ctx
      · rw [same, Function.update_self]
        exact List.nodup_cons.mpr ⟨(unclaimed ctx).1, claims.once ctx⟩
      · rw [Function.update_of_ne same]
        exact claims.once other
    claimed := by
      intro place phase
      simp only [State.goTo, State.setMachine, machine_update] at phase
      by_cases same : place = slot
      · exact ⟨ctx, (members ctx place).mpr (.inl ⟨rfl, same⟩)⟩
      · rw [if_neg same] at phase
        obtain ⟨owner, member⟩ := claims.claimed place phase
        exact ⟨owner, (members owner place).mpr (.inr member)⟩
    owner := by
      intro other place
      simp only [State.goTo, State.setMachine, machine_update]
      rw [view_update Control.settling, members]
      by_cases same : place = slot
      · subst same
        rw [if_pos rfl]
        refine iff_of_false (unclaimed other).2 ?_
        rintro ⟨⟨rfl, _⟩ | old, elsewhere⟩
        · rw [if_pos rfl] at elsewhere
          exact elsewhere rfl
        · exact (unclaimed other).1 old
      · rw [if_neg same, claims.owner]
        simp only [same, and_false, false_or]
        by_cases mine : other = ctx
        · rw [if_pos mine, mine, settled]
          exact and_congr_right fun _ =>
            iff_of_true (fun equal => by cases equal) fun equal => same (Option.some.inj equal).symm
        · rw [if_neg mine]
    settling := by
      intro other place there
      simp only [State.goTo] at there
      rw [view_update Control.settling] at there
      split at there
      · next mine => exact (members other place).mpr (.inl ⟨mine, (Option.some.inj there).symm⟩)
      · exact (members other place).mpr (.inr (claims.settling other place there))
    done := by
      intro place
      simp only [State.goTo, State.setMachine, machine_update]
      by_cases same : place = slot
      · rw [if_pos same, claims.done, same, idle, if_neg Phase.noConfusion, if_neg Phase.noConfusion]
      · rw [if_neg same]
        exact claims.done place
    gate := by
      intro other place there
      simp only [State.goTo] at there
      rw [view_update Control.gateSlot] at there
      split at there
      · cases there
      · exact claims.gate other place there
    released := by
      intro other next woken there place member
      simp only [State.goTo] at there
      by_cases mine : other = ctx
      · rw [mine, Function.update_self] at there
        cases there
      · rw [Function.update_of_ne mine] at there
        rcases (members other place).mp member with ⟨equal, _⟩ | old
        · exact absurd equal mine
        · exact claims.released other next woken there place old
    relinquished := by
      intro other woken there
      simp only [State.goTo] at there
      by_cases mine : other = ctx
      · rw [mine, Function.update_self] at there
        cases there
      · rw [Function.update_of_ne mine] at there
        show Function.update s.claims ctx (slot :: s.claims ctx) other = []
        rw [Function.update_of_ne mine]
        exact claims.relinquished other woken there }

theorem Claims.storeOwner (claims : Claims s) {owner : Option Nat} (claimed : slot ∈ s.claims ctx)
    (here : (s.control ctx).settling = none ∨ (s.control ctx).settling = some slot)
    (settles : control.settling = none ∧ owner = some ctx ∨ control.settling = some slot ∧ owner = none)
    (gate : control.gateSlot = none) (released : ∀ next woken, control ≠ .release next woken)
    (relinquished : ∀ woken, control ≠ .wake woken false) :
    Claims ((s.setMachine slot { s.machines slot with ownerCtxId := owner }).goTo ctx control) := by
  have phases : ∀ place, (Function.update s.machines slot { s.machines slot with ownerCtxId := owner } place).phase =
      (s.machines place).phase := by
    intro place
    rw [machine_update]
    split
    · next same => rw [same]
    · rfl
  exact {
    inTable := claims.inTable
    phase := by
      intro other place member
      exact (phases place).trans (claims.phase other place member)
    sole := claims.sole
    once := claims.once
    claimed := by
      intro place phase
      exact claims.claimed place ((phases place).symm.trans phase)
    owner := by
      intro other place
      simp only [State.goTo, State.setMachine, machine_update]
      rw [view_update Control.settling]
      by_cases same : place = slot
      · subst same
        rw [if_pos rfl]
        rcases settles with ⟨settled, rfl⟩ | ⟨between, rfl⟩
        · by_cases mine : other = ctx
          · rw [if_pos mine, mine, settled]
            exact iff_of_true rfl ⟨claimed, fun equal => by cases equal⟩
          · rw [if_neg mine]
            refine iff_of_false (fun equal => mine (Option.some.inj equal).symm) fun both => mine ?_
            exact claims.sole other ctx place both.1 claimed
        · refine iff_of_false (fun equal => by cases equal) ?_
          rintro ⟨theirs, elsewhere⟩
          rw [claims.sole other ctx place theirs claimed, if_pos rfl] at elsewhere
          exact elsewhere between
      · rw [if_neg same, claims.owner]
        by_cases mine : other = ctx
        · rw [if_pos mine, mine]
          have before : (s.control ctx).settling ≠ some place := by
            rcases here with none | some
            · rw [none]
              exact fun equal => by cases equal
            · rw [some]
              exact fun equal => same (Option.some.inj equal).symm
          have after : control.settling ≠ some place := by
            rcases settles with ⟨none, _⟩ | ⟨some, _⟩
            · rw [none]
              exact fun equal => by cases equal
            · rw [some]
              exact fun equal => same (Option.some.inj equal).symm
          exact and_congr_right fun _ => iff_of_true before after
        · rw [if_neg mine]
    settling := by
      intro other place there
      simp only [State.goTo] at there
      rw [view_update Control.settling] at there
      split at there
      · next mine =>
          rcases settles with ⟨none, _⟩ | ⟨some, _⟩
          · rw [none] at there
            cases there
          · rw [some] at there
            cases there
            exact mine ▸ claimed
      · exact claims.settling other place there
    done := by
      intro place
      simp only [State.goTo, State.setMachine, phases]
      exact claims.done place
    gate := by
      intro other place there
      simp only [State.goTo] at there
      rw [view_update Control.gateSlot] at there
      split at there
      · rw [gate] at there
        cases there
      · exact claims.gate other place there
    released := by
      intro other next woken there
      simp only [State.goTo] at there
      by_cases mine : other = ctx
      · rw [mine, Function.update_self] at there
        exact absurd there (released next woken)
      · rw [Function.update_of_ne mine] at there
        exact claims.released other next woken there
    relinquished := by
      intro other woken there
      simp only [State.goTo] at there
      by_cases mine : other = ctx
      · rw [mine, Function.update_self] at there
        exact absurd there (relinquished woken)
      · rw [Function.update_of_ne mine] at there
        exact claims.relinquished other woken there }

theorem Claims.drop (claims : Claims s) {machine : Machine} {doneCount : Nat → Nat}
    (claimed : slot ∈ s.claims ctx) (phase : machine.phase ≠ .initializing)
    (owner : machine.ownerCtxId = none)
    (before : ∀ place, place ≠ slot → (s.control ctx).settling ≠ some place)
    (after : control.settling = none) (gate : control.gateSlot = none)
    (released : ∀ next woken, control = .release next woken → ∀ place ∈ s.claims ctx, place ≠ slot → next ≤ place)
    (relinquished : ∀ woken, control ≠ .wake woken false)
    (done : ∀ place, doneCount place =
      if place = slot then (if machine.phase = .done then 1 else 0) else s.doneCount place) :
    Claims { (s.setMachine slot machine).goTo ctx control with
      claims := Function.update s.claims ctx ((s.claims ctx).erase slot)
      doneCount := doneCount } := by
  have members : ∀ other place, place ∈ Function.update s.claims ctx ((s.claims ctx).erase slot) other ↔
      place ≠ slot ∧ place ∈ s.claims other := by
    intro other place
    by_cases mine : other = ctx
    · rw [mine, Function.update_self, (claims.once ctx).mem_erase_iff]
    · rw [Function.update_of_ne mine]
      refine ⟨fun member => ⟨?_, member⟩, And.right⟩
      rintro rfl
      exact mine (claims.sole other ctx place member claimed)
  exact {
    inTable := fun other place member => claims.inTable other place ((members other place).mp member).2
    phase := by
      intro other place member
      obtain ⟨different, old⟩ := (members other place).mp member
      simp only [State.goTo, State.setMachine, machine_update, if_neg different]
      exact claims.phase other place old
    sole := fun one two place first second =>
      claims.sole one two place ((members one place).mp first).2 ((members two place).mp second).2
    once := by
      intro other
      show (Function.update s.claims ctx ((s.claims ctx).erase slot) other).Nodup
      by_cases mine : other = ctx
      · rw [mine, Function.update_self]
        exact (claims.once ctx).erase slot
      · rw [Function.update_of_ne mine]
        exact claims.once other
    claimed := by
      intro place there
      simp only [State.goTo, State.setMachine, machine_update] at there
      by_cases same : place = slot
      · rw [if_pos same] at there
        exact absurd there phase
      · rw [if_neg same] at there
        obtain ⟨owner, member⟩ := claims.claimed place there
        exact ⟨owner, (members owner place).mpr ⟨same, member⟩⟩
    owner := by
      intro other place
      simp only [State.goTo, State.setMachine, machine_update]
      rw [view_update Control.settling, members]
      by_cases same : place = slot
      · rw [if_pos same, owner]
        exact iff_of_false (fun equal => by cases equal) fun both => both.1.1 same
      · rw [if_neg same, claims.owner]
        by_cases mine : other = ctx
        · rw [if_pos mine, mine, after]
          refine ⟨fun both => ⟨⟨same, both.1⟩, fun equal => by cases equal⟩, fun both => ⟨both.1.2, before place same⟩⟩
        · rw [if_neg mine]
          exact ⟨fun both => ⟨⟨same, both.1⟩, both.2⟩, fun both => ⟨both.1.2, both.2⟩⟩
    settling := by
      intro other place there
      simp only [State.goTo] at there
      rw [view_update Control.settling] at there
      split at there
      · rw [after] at there
        cases there
      · next mine =>
          have old := claims.settling other place there
          refine (members other place).mpr ⟨?_, old⟩
          rintro rfl
          exact mine (claims.sole other ctx place old claimed)
    done := by
      intro place
      simp only [State.goTo, State.setMachine, machine_update, done]
      split
      · rfl
      · exact claims.done place
    gate := by
      intro other place there
      simp only [State.goTo] at there
      rw [view_update Control.gateSlot] at there
      split at there
      · rw [gate] at there
        cases there
      · exact claims.gate other place there
    released := by
      intro other next woken there place member
      simp only [State.goTo] at there
      obtain ⟨different, old⟩ := (members other place).mp member
      by_cases mine : other = ctx
      · rw [mine, Function.update_self] at there
        exact released next woken there place (mine ▸ old) different
      · rw [Function.update_of_ne mine] at there
        exact claims.released other next woken there place old
    relinquished := by
      intro other woken there
      simp only [State.goTo] at there
      by_cases mine : other = ctx
      · rw [mine, Function.update_self] at there
        exact absurd there (relinquished woken)
      · rw [Function.update_of_ne mine] at there
        show Function.update s.claims ctx ((s.claims ctx).erase slot) other = []
        rw [Function.update_of_ne mine]
        exact claims.relinquished other woken there }

theorem Waiting.register {kind : GateKind} (waiting : Waiting s) (here : s.control ctx = .register kind slot) :
    Waiting { (s.setMachine slot { s.machines slot with waiters := (s.machines slot).waiters ++ [ctx] }).goTo ctx
      (.parked kind slot) with mutex := none } := by
  have outside : ∀ place, ctx ∉ (s.machines place).waiters := by
    intro place member
    have parked := waiting.waiting ctx place member
    rw [here] at parked
    cases parked
  have asleep : ∀ other, ctx ∉ (s.control other).toWake := by
    intro other member
    exact waiting.woken other ctx member (by rw [here]; rfl)
  have lists : ∀ waiter place, waiter ∈ (Function.update s.machines slot
      { s.machines slot with waiters := (s.machines slot).waiters ++ [ctx] } place).waiters ↔
        (waiter = ctx ∧ place = slot) ∨ waiter ∈ (s.machines place).waiters := by
    intro waiter place
    rw [machine_update]
    by_cases same : place = slot
    · rw [if_pos same, same, List.mem_append, List.mem_singleton]
      simp only [and_true]
      exact or_comm
    · rw [if_neg same]
      simp only [same, and_false, false_or]
  have toWake : ∀ other, (Function.update s.control ctx (Control.parked kind slot) other).toWake =
      (s.control other).toWake := view_kept (by rw [here]; rfl)
  have pending : ∀ place, Pending s place → Pending { (s.setMachine slot { s.machines slot with
      waiters := (s.machines slot).waiters ++ [ctx] }).goTo ctx (.parked kind slot) with mutex := none } place := by
    rintro place (phase | ⟨other, taking⟩)
    · refine .inl ?_
      simp only [State.goTo, State.setMachine, machine_update]
      split
      · next same => exact same ▸ phase
      · exact phase
    · refine .inr ⟨other, ?_⟩
      simp only [State.goTo, State.setMachine]
      rw [view_kept (show Control.taking _ = Control.taking _ by rw [here]; rfl)]
      exact taking
  exact {
    waiting := by
      intro waiter place member
      rcases (lists waiter place).mp member with ⟨rfl, rfl⟩ | old
      · simp only [State.goTo, State.setMachine, Function.update_self]
        rfl
      · have different : waiter ≠ ctx := by
          rintro rfl
          exact outside place old
        simp only [State.goTo, State.setMachine, Function.update_of_ne different]
        exact waiting.waiting waiter place old
    waitingOnce := by
      intro place
      simp only [State.goTo, State.setMachine, machine_update]
      split
      · exact List.nodup_append.mpr ⟨waiting.waitingOnce slot, List.nodup_singleton ctx,
          fun a member b single equal => outside slot (List.mem_singleton.mp single ▸ equal ▸ member)⟩
      · exact waiting.waitingOnce place
    pending := by
      intro place some
      apply pending
      by_cases same : place = slot
      · rw [same]
        exact waiting.registering ctx slot (by rw [here]; rfl)
      · apply waiting.pending
        simpa only [State.goTo, State.setMachine, machine_update, if_neg same] using some
    registering := by
      intro other place there
      simp only [State.goTo, State.setMachine] at there
      rw [view_update Control.registering] at there
      split at there
      · cases there
      · exact pending place (waiting.registering other place there)
    woken := by
      intro other waiter member
      simp only [State.goTo, State.setMachine] at member ⊢
      rw [toWake] at member
      have different : waiter ≠ ctx := by
        rintro rfl
        exact asleep other member
      rw [Function.update_of_ne different]
      exact waiting.woken other waiter member
    wokenOnce := by
      intro other
      simp only [State.goTo, State.setMachine]
      rw [toWake]
      exact waiting.wokenOnce other
    wokenSole := by
      intro one two waiter first second
      simp only [State.goTo, State.setMachine] at first second
      rw [toWake] at first second
      exact waiting.wokenSole one two waiter first second
    apart := by
      intro other waiter place member listed
      simp only [State.goTo, State.setMachine] at member
      rw [toWake] at member
      rcases (lists waiter place).mp listed with ⟨rfl, _⟩ | old
      · exact asleep other member
      · exact waiting.apart other waiter place member old
    parked := by
      intro waiter place there
      simp only [State.goTo, State.setMachine] at there
      by_cases mine : waiter = ctx
      · rw [mine, Function.update_self] at there
        cases there
        exact .inl ((lists waiter slot).mpr (.inl ⟨mine, rfl⟩))
      · rw [Function.update_of_ne mine] at there
        rcases waiting.parked waiter place there with listed | ⟨other, member⟩
        · exact .inl ((lists waiter place).mpr (.inr listed))
        · refine .inr ⟨other, ?_⟩
          simp only [State.goTo, State.setMachine]
          rw [toWake]
          exact member }

theorem Waiting.handOff (waiting : Waiting s) {machine : Machine}
    (machines : s'.machines = Function.update s.machines slot machine)
    (moved : s'.control = Function.update s.control ctx control) (emptied : machine.waiters = [])
    (nobody : ∀ other, (s.control other).registering = none) (registering : control.registering = none)
    (awake : (s.control ctx).parkedOn = none) (stays : control.parkedOn = none)
    (toWake : control.toWake = (s.control ctx).toWake ++ (s.machines slot).waiters)
    (pending : ∀ place, place ≠ slot → Pending s place → Pending s' place) : Waiting s' := by
  have lists : ∀ waiter place, waiter ∈ (s'.machines place).waiters ↔
      place ≠ slot ∧ waiter ∈ (s.machines place).waiters := by
    intro waiter place
    rw [machines, machine_update]
    by_cases same : place = slot
    · rw [if_pos same, emptied]
      simp only [List.not_mem_nil, same, ne_eq, not_true, false_and]
    · rw [if_neg same]
      simp only [same, ne_eq, not_false_eq_true, true_and]
  have parkedOn : ∀ other, (s'.control other).parkedOn = (s.control other).parkedOn := by
    intro other
    rw [moved, view_kept (stays.trans awake.symm)]
  have wakes : ∀ other waiter, waiter ∈ (s'.control other).toWake ↔
      waiter ∈ (s.control other).toWake ∨ (other = ctx ∧ waiter ∈ (s.machines slot).waiters) := by
    intro other waiter
    rw [moved, view_update Control.toWake]
    by_cases mine : other = ctx
    · rw [if_pos mine, mine, toWake, List.mem_append]
      simp only [true_and]
    · rw [if_neg mine]
      simp only [mine, false_and, or_false]
  exact {
    waiting := by
      intro waiter place member
      rw [parkedOn]
      exact waiting.waiting waiter place ((lists waiter place).mp member).2
    waitingOnce := by
      intro place
      rw [machines, machine_update]
      split
      · rw [emptied]
        exact List.nodup_nil
      · exact waiting.waitingOnce place
    pending := by
      intro place some
      rw [machines, machine_update] at some
      by_cases same : place = slot
      · rw [if_pos same] at some
        exact absurd emptied some
      · rw [if_neg same] at some
        exact pending place same (waiting.pending place some)
    registering := by
      intro other place there
      rw [moved, view_update Control.registering] at there
      split at there
      · rw [registering] at there
        cases there
      · rw [nobody] at there
        cases there
    woken := by
      intro other waiter member
      rw [parkedOn]
      rcases (wakes other waiter).mp member with old | ⟨_, listed⟩
      · exact waiting.woken other waiter old
      · rw [waiting.waiting waiter slot listed]
        exact Option.some_ne_none slot
    wokenOnce := by
      intro other
      rw [moved, view_update Control.toWake]
      split
      · rw [toWake]
        exact List.nodup_append.mpr ⟨waiting.wokenOnce ctx, waiting.waitingOnce slot,
          fun a member b listed equal => waiting.apart ctx a slot member (equal ▸ listed)⟩
      · exact waiting.wokenOnce other
    wokenSole := by
      intro one two waiter first second
      rcases (wakes one waiter).mp first with old | ⟨mine, listed⟩ <;>
        rcases (wakes two waiter).mp second with other | ⟨theirs, present⟩
      · exact waiting.wokenSole one two waiter old other
      · exact absurd present (waiting.apart one waiter slot old)
      · exact absurd listed (waiting.apart two waiter slot other)
      · rw [mine, theirs]
    apart := by
      intro other waiter place member listed
      obtain ⟨different, there⟩ := (lists waiter place).mp listed
      rcases (wakes other waiter).mp member with old | ⟨_, taken⟩
      · exact waiting.apart other waiter place old there
      · have one := waiting.waiting waiter slot taken
        rw [waiting.waiting waiter place there] at one
        exact different (Option.some.inj one)
    parked := by
      intro waiter place there
      rw [parkedOn] at there
      rcases waiting.parked waiter place there with listed | ⟨other, member⟩
      · by_cases same : place = slot
        · exact .inr ⟨ctx, (wakes ctx waiter).mpr (.inr ⟨rfl, same ▸ listed⟩)⟩
        · exact .inl ((lists waiter place).mpr ⟨same, listed⟩)
      · exact .inr ⟨other, (wakes other waiter).mpr (.inl member)⟩ }

theorem Waiting.wake {waiter place : Nat} {kind : GateKind} {rest : List Nat} {alive : Bool} (waiting : Waiting s)
    (here : s.control ctx = .wake (waiter :: rest) alive) (asleep : s.control waiter = .parked kind place) :
    Waiting ((s.goTo waiter (.loadPhase kind place)).goTo ctx (.wake rest alive)) := by
  have different : waiter ≠ ctx := by
    rintro rfl
    rw [here] at asleep
    cases asleep
  have member : waiter ∈ (s.control ctx).toWake := by
    rw [here]
    exact List.mem_cons_self
  have once := waiting.wokenOnce ctx
  rw [here] at once
  obtain ⟨gone, restOnce⟩ := List.nodup_cons.mp once
  have wakes : ∀ other another, another ∈ (Function.update (Function.update s.control waiter (.loadPhase kind place))
      ctx (.wake rest alive) other).toWake ↔ another ≠ waiter ∧ another ∈ (s.control other).toWake := by
    intro other another
    by_cases mine : other = ctx
    · rw [mine, Function.update_self, here]
      simp only [Control.toWake, List.mem_cons]
      constructor
      · intro present
        exact ⟨fun equal => gone (equal ▸ present), .inr present⟩
      · rintro ⟨elsewhere, equal | present⟩
        · exact absurd equal elsewhere
        · exact present
    · rw [Function.update_of_ne mine]
      by_cases woken : other = waiter
      · rw [woken, Function.update_self, asleep]
        simp only [Control.toWake, List.not_mem_nil, and_false]
      · rw [Function.update_of_ne woken]
        refine ⟨fun present => ⟨?_, present⟩, And.right⟩
        rintro rfl
        exact mine (waiting.wokenSole other ctx another present member)
  have parkedOn : ∀ other, other ≠ waiter → (Function.update (Function.update s.control waiter (.loadPhase kind place))
      ctx (.wake rest alive) other).parkedOn = (s.control other).parkedOn := by
    intro other elsewhere
    by_cases mine : other = ctx
    · rw [mine, Function.update_self, here]
      rfl
    · rw [Function.update_of_ne mine, Function.update_of_ne elsewhere]
  have stillPending : ∀ slot, Pending s slot →
      Pending ((s.goTo waiter (.loadPhase kind place)).goTo ctx (.wake rest alive)) slot := by
    rintro slot (phase | ⟨other, taking⟩)
    · exact .inl phase
    · refine .inr ⟨other, ?_⟩
      have notCtx : other ≠ ctx := by
        rintro rfl
        rw [here] at taking
        cases taking
      have notWaiter : other ≠ waiter := by
        rintro rfl
        rw [asleep] at taking
        cases taking
      simp only [State.goTo, Function.update_of_ne notCtx, Function.update_of_ne notWaiter]
      exact taking
  exact {
    waiting := by
      intro other slot listed
      simp only [State.goTo]
      rw [parkedOn]
      · exact waiting.waiting other slot listed
      · rintro rfl
        exact waiting.apart ctx other slot member listed
    waitingOnce := waiting.waitingOnce
    pending := fun slot some => stillPending slot (waiting.pending slot some)
    registering := by
      intro other slot there
      simp only [State.goTo] at there
      by_cases mine : other = ctx
      · rw [mine, Function.update_self] at there
        cases there
      · rw [Function.update_of_ne mine] at there
        by_cases woken : other = waiter
        · rw [woken, Function.update_self] at there
          cases there
        · rw [Function.update_of_ne woken] at there
          exact stillPending slot (waiting.registering other slot there)
    woken := by
      intro other another present
      obtain ⟨elsewhere, old⟩ := (wakes other another).mp present
      simp only [State.goTo]
      rw [parkedOn another elsewhere]
      exact waiting.woken other another old
    wokenOnce := by
      intro other
      simp only [State.goTo]
      by_cases mine : other = ctx
      · rw [mine, Function.update_self]
        exact restOnce
      · rw [Function.update_of_ne mine]
        by_cases woken : other = waiter
        · rw [woken, Function.update_self]
          exact List.nodup_nil
        · rw [Function.update_of_ne woken]
          exact waiting.wokenOnce other
    wokenSole := fun one two another first second =>
      waiting.wokenSole one two another ((wakes one another).mp first).2 ((wakes two another).mp second).2
    apart := fun other another slot present =>
      waiting.apart other another slot ((wakes other another).mp present).2
    parked := by
      intro other slot there
      simp only [State.goTo] at there
      have elsewhere : other ≠ waiter := by
        rintro rfl
        rw [Function.update_of_ne different, Function.update_self] at there
        cases there
      rw [parkedOn other elsewhere] at there
      rcases waiting.parked other slot there with listed | ⟨another, present⟩
      · exact .inl listed
      · exact .inr ⟨another, (wakes another other).mpr ⟨elsewhere, present⟩⟩ }

theorem Pending.moved (pending : Pending s slot)
    (phase : (s.machines slot).phase = .initializing →
      (s'.machines slot).phase = .initializing ∨ control.taking = some slot)
    (moved : s'.control = Function.update s.control ctx control)
    (taking : (s.control ctx).taking = some slot → control.taking = some slot) : Pending s' slot := by
  have mine : control.taking = some slot → Pending s' slot := by
    intro takes
    exact .inr ⟨ctx, by rw [moved, Function.update_self]; exact takes⟩
  rcases pending with initializing | ⟨other, takes⟩
  · rcases phase initializing with still | takes
    · exact .inl still
    · exact mine takes
  · by_cases same : other = ctx
    · exact mine (taking (same ▸ takes))
    · exact .inr ⟨other, by rw [moved, Function.update_of_ne same]; exact takes⟩

theorem Invariant.goTo (inv : Invariant s) (settling : control.settling = (s.control ctx).settling)
    (gate : ∀ slot, control.gateSlot = some slot → slot < s.count)
    (released : ∀ next woken, control ≠ .release next woken)
    (relinquished : ∀ woken, control = .wake woken false → s.claims ctx = [])
    (mutex : control.holdsMutex = (s.control ctx).holdsMutex)
    (parkedOn : control.parkedOn = (s.control ctx).parkedOn) (toWake : control.toWake = (s.control ctx).toWake)
    (taking : (s.control ctx).taking = none)
    (registering : ∀ slot, control.registering = some slot → (s.machines slot).phase = .initializing) :
    Invariant (s.goTo ctx control) where
  claims := inv.claims.goTo (fun _ => rfl) (fun _ => rfl) rfl rfl rfl rfl settling gate
    (fun next woken equal => absurd equal (released next woken)) relinquished
  mutex := inv.mutex.goTo rfl rfl mutex
  waiting := inv.waiting.goTo (fun _ => rfl) rfl parkedOn toWake
    (fun _ pending => pending.moved .inl rfl fun takes => by rw [taking] at takes; cases takes)
    (fun slot there => .inl (registering slot there))

theorem Invariant.nobodyRegisters (inv : Invariant s) (free : ∀ other, s.mutex = some other → other = ctx)
    (here : (s.control ctx).registering = none) (other : Nat) : (s.control other).registering = none := by
  cases registers : (s.control other).registering with
  | none => rfl
  | some slot =>
    have holds : (s.control other).holdsMutex = true := by
      cases control : s.control other with
      | register kind place => rfl
      | _ => rw [control] at registers; cases registers
    have same := free other ((inv.mutex other).mpr holds)
    rw [same, here] at registers
    cases registers

theorem Invariant.advance_gate (inv : Invariant s) {kind : GateKind}
    (here : s.control ctx = .loadPhase kind slot ∨ s.control ctx = .loadOwner kind slot)
    (taken : s.advance ctx = some s') : Invariant s' := by
  have views : (s.control ctx).settling = none ∧ (s.control ctx).holdsMutex = false ∧
      (s.control ctx).parkedOn = none ∧ (s.control ctx).toWake = [] ∧ (s.control ctx).taking = none ∧
      (s.control ctx).gateSlot = some slot := by
    rcases here with here | here <;> rw [here] <;> exact ⟨rfl, rfl, rfl, rfl, rfl, rfl⟩
  obtain ⟨settling, mutex, parkedOn, toWake, taking, gate⟩ := views
  have bound := inv.claims.gate ctx slot gate
  -- every next control is outside the critical sections, at the same gate or past it
  have next : ∀ control : Control, control.settling = none → (∀ place, control.gateSlot = some place → place = slot) →
      (∀ n woken, control ≠ .release n woken) → (∀ woken, control ≠ .wake woken false) →
      control.holdsMutex = false → control.parkedOn = none → control.toWake = [] →
      control.registering = none → Invariant (s.goTo ctx control) := by
    intro control noSettling sameGate noRelease noWake noMutex noPark noList noRegister
    exact inv.goTo (noSettling.trans settling.symm) (fun place there => sameGate place there ▸ bound) noRelease
      (fun woken equal => absurd equal (noWake woken)) (noMutex.trans mutex.symm) (noPark.trans parkedOn.symm)
      (noList.trans toWake.symm) taking (fun place there => by rw [noRegister] at there; cases there)
  unfold State.advance at taken
  rcases here with here | here
  · rw [here] at taken
    cases phase : (s.machines slot).phase <;> simp only [phase] at taken <;> cases taken <;>
      exact next _ rfl (fun _ there => by cases there <;> rfl) (fun _ _ => Control.noConfusion)
        (fun _ => Control.noConfusion) rfl rfl rfl rfl
  · rw [here] at taken
    by_cases own : (s.machines slot).ownerCtxId = some ctx
    · simp only [own, if_true] at taken
      cases taken
      exact next _ rfl (fun _ there => by cases there) (fun _ _ => Control.noConfusion)
        (fun _ => Control.noConfusion) rfl rfl rfl rfl
    · simp only [if_neg own] at taken
      cases kind <;> cases taken <;>
        exact next _ rfl (fun _ there => by cases there; rfl) (fun _ _ => Control.noConfusion)
          (fun _ => Control.noConfusion) rfl rfl rfl rfl

theorem Invariant.advance_claim (inv : Invariant s) {kind : GateKind} {loaded : Phase}
    (here : s.control ctx = .exchange kind slot loaded) (taken : s.advance ctx = some s') : Invariant s' := by
  have bound := inv.claims.gate ctx slot (by rw [here]; rfl)
  unfold State.advance at taken
  rw [here] at taken
  by_cases idle : (s.machines slot).phase = .uninitialized
  · simp only [idle, if_true] at taken
    cases taken
    have settled : (s.control ctx).settling = none := by rw [here]; rfl
    refine ⟨inv.claims.claim idle bound settled, inv.mutex.goTo rfl rfl (by rw [here]; rfl), ?_⟩
    refine inv.waiting.goTo ?_ rfl (by rw [here]; rfl) (by rw [here]; rfl) ?_ (fun _ there => by cases there)
    · intro place
      simp only [State.goTo, State.setMachine, machine_update]
      split
      · next same => rw [same]
      · rfl
    · intro place pending
      refine pending.moved (fun phase => .inl ?_) rfl (fun takes => by rw [here] at takes; cases takes)
      simp only [State.goTo, State.setMachine, machine_update]
      split
      · rfl
      · exact phase
  · simp only [if_neg idle] at taken
    split at taken
    · cases taken
      exact inv.goTo (by rw [here]; rfl) (fun _ there => by cases there; exact bound)
        (fun _ _ => Control.noConfusion) (fun _ there => by cases there) (by rw [here]; rfl) (by rw [here]; rfl)
        (by rw [here]; rfl) (by rw [here]; rfl) (fun _ there => by cases there)
    · cases taken
      exact inv.goTo (by rw [here]; rfl) (fun _ there => by cases there; exact bound)
        (fun _ _ => Control.noConfusion) (fun _ there => by cases there) (by rw [here]; rfl) (by rw [here]; rfl)
        (by rw [here]; rfl) (by rw [here]; rfl) (fun _ there => by cases there)

theorem Invariant.storeOwner (inv : Invariant s) {owner : Option Nat}
    (claims : Claims ((s.setMachine slot { s.machines slot with ownerCtxId := owner }).goTo ctx control))
    (mutex : control.holdsMutex = (s.control ctx).holdsMutex)
    (parkedOn : control.parkedOn = (s.control ctx).parkedOn) (toWake : control.toWake = (s.control ctx).toWake)
    (taking : (s.control ctx).taking = none) (registering : control.registering = none) :
    Invariant ((s.setMachine slot { s.machines slot with ownerCtxId := owner }).goTo ctx control) := by
  refine ⟨claims, inv.mutex.goTo rfl rfl mutex, ?_⟩
  have same : ∀ place, (Function.update s.machines slot { s.machines slot with ownerCtxId := owner } place).waiters =
      (s.machines place).waiters ∧
      (Function.update s.machines slot { s.machines slot with ownerCtxId := owner } place).phase =
      (s.machines place).phase := by
    intro place
    rw [machine_update]
    split
    · next equal => rw [equal]; exact ⟨rfl, rfl⟩
    · exact ⟨rfl, rfl⟩
  refine inv.waiting.goTo (fun place => (same place).1) rfl parkedOn toWake ?_
    (fun place there => by rw [registering] at there; cases there)
  intro place pending
  exact pending.moved (fun phase => .inl ((same place).2.trans phase)) rfl
    (fun takes => by rw [taking] at takes; cases takes)

theorem Invariant.advance_storeOwner (inv : Invariant s) (here : s.control ctx = .storeOwner slot)
    (taken : s.advance ctx = some s') : Invariant s' := by
  unfold State.advance at taken
  rw [here] at taken
  cases taken
  have settling : (s.control ctx).settling = some slot := by rw [here]; rfl
  refine inv.storeOwner ?_ (by rw [here]; rfl) (by rw [here]; rfl) (by rw [here]; rfl) (by rw [here]; rfl) rfl
  exact inv.claims.storeOwner (inv.claims.settling ctx slot settling) (.inr settling) (.inl ⟨rfl, rfl⟩) rfl
    (fun _ _ => Control.noConfusion) (fun _ => Control.noConfusion)

theorem Invariant.advance_lock (inv : Invariant s) {kind : GateKind}
    (here : s.control ctx = .lockWaiters kind slot ∨ s.control ctx = .recheck kind slot)
    (taken : s.advance ctx = some s') : Invariant s' := by
  have bound := inv.claims.gate ctx slot (by rcases here with here | here <;> rw [here] <;> rfl)
  unfold State.advance at taken
  rcases here with here | here <;> rw [here] at taken
  · by_cases free : s.mutex = none
    · simp only [free, if_true] at taken
      cases taken
      refine ⟨inv.claims.goTo (fun _ => rfl) (fun _ => rfl) rfl rfl rfl rfl (by rw [here]; rfl)
        (fun _ there => by cases there; exact bound) (fun _ _ there => by cases there) (fun _ there => by cases there),
        inv.mutex.acquire free rfl rfl rfl, ?_⟩
      exact inv.waiting.goTo (fun _ => rfl) rfl (by rw [here]; rfl) (by rw [here]; rfl)
        (fun _ pending => pending.moved .inl rfl fun takes => by rw [here] at takes; cases takes)
        (fun _ there => by cases there)
    · simp only [if_neg free] at taken
      cases taken
  · by_cases still : (s.machines slot).phase = .initializing
    · simp only [still, if_true] at taken
      cases taken
      exact inv.goTo (by rw [here]; rfl) (fun _ there => by cases there; exact bound)
        (fun _ _ => Control.noConfusion) (fun _ there => by cases there) (by rw [here]; rfl) (by rw [here]; rfl)
        (by rw [here]; rfl) (by rw [here]; rfl) (fun _ there => by cases there; exact still)
    · simp only [if_neg still] at taken
      cases taken
      refine ⟨inv.claims.goTo (fun _ => rfl) (fun _ => rfl) rfl rfl rfl rfl (by rw [here]; rfl)
        (fun _ there => by cases there; exact bound) (fun _ _ there => by cases there) (fun _ there => by cases there),
        inv.mutex.release (by rw [here]; rfl) rfl rfl rfl, ?_⟩
      exact inv.waiting.goTo (fun _ => rfl) rfl (by rw [here]; rfl) (by rw [here]; rfl)
        (fun _ pending => pending.moved .inl rfl fun takes => by rw [here] at takes; cases takes)
        (fun _ there => by cases there)

theorem Invariant.advance_register (inv : Invariant s) {kind : GateKind} (here : s.control ctx = .register kind slot)
    (taken : s.advance ctx = some s') : Invariant s' := by
  have bound := inv.claims.gate ctx slot (by rw [here]; rfl)
  unfold State.advance at taken
  rw [here] at taken
  cases taken
  refine ⟨?_, inv.mutex.release (by rw [here]; rfl) rfl rfl rfl, inv.waiting.register here⟩
  have same : ∀ place, (Function.update s.machines slot
      { s.machines slot with waiters := (s.machines slot).waiters ++ [ctx] } place).phase = (s.machines place).phase ∧
      (Function.update s.machines slot
      { s.machines slot with waiters := (s.machines slot).waiters ++ [ctx] } place).ownerCtxId =
        (s.machines place).ownerCtxId := by
    intro place
    rw [machine_update]
    split
    · next equal => rw [equal]; exact ⟨rfl, rfl⟩
    · exact ⟨rfl, rfl⟩
  exact inv.claims.goTo (fun place => (same place).1) (fun place => (same place).2) rfl rfl rfl rfl
    (by rw [here]; rfl) (fun _ there => by cases there; exact bound) (fun _ _ there => by cases there)
    (fun _ there => by cases there)

theorem Invariant.advance_publish (inv : Invariant s) {outcome : Outcome} (here : s.control ctx = .publish slot outcome)
    (taken : s.advance ctx = some s') : Invariant s' := by
  have settling : (s.control ctx).settling = some slot := by rw [here]; rfl
  have claimed := inv.claims.settling ctx slot settling
  have unowned : (s.machines slot).ownerCtxId = none := by
    cases owner : (s.machines slot).ownerCtxId with
    | none => rfl
    | some other => exact absurd owner (inv.claims.unowned settling other)
  have phase := inv.claims.phase ctx slot claimed
  have undone : s.doneCount slot = 0 := by
    rw [inv.claims.done, phase, if_neg Phase.noConfusion]
  unfold State.advance at taken
  rw [here] at taken
  cases taken
  refine ⟨?_, inv.mutex.goTo rfl rfl (by rw [here]; rfl), ?_⟩
  · refine inv.claims.drop claimed ?_ unowned ?_ rfl rfl (fun _ _ there => by cases there)
      (fun _ => Control.noConfusion) ?_
    · cases outcome <;> exact Phase.noConfusion
    · intro place different equal
      rw [settling] at equal
      exact different (Option.some.inj equal).symm
    · intro place
      cases outcome with
      | done =>
        simp only [Outcome.phase, if_true]
        by_cases same : place = slot
        · rw [if_pos same, same, Function.update_self, undone]
        · rw [if_neg same, Function.update_of_ne same]
      | fail =>
        show s.doneCount place = _
        by_cases same : place = slot
        · rw [if_pos same, same, undone]
          rfl
        · rw [if_neg same]
  · refine inv.waiting.goTo ?_ rfl (by rw [here]; rfl) (by rw [here]; rfl) ?_ (fun _ there => by cases there)
    · intro place
      simp only [State.goTo, State.setMachine, machine_update]
      split
      · next same => rw [same]
      · rfl
    · intro place pending
      refine pending.moved (fun initializing => ?_) rfl (fun takes => by rw [here] at takes; cases takes)
      by_cases same : place = slot
      · exact .inr (by rw [same]; rfl)
      · refine .inl ?_
        simp only [State.goTo, State.setMachine, machine_update, if_neg same]
        exact initializing

theorem Invariant.advance_take (inv : Invariant s) (here : s.control ctx = .takeWaiters slot)
    (taken : s.advance ctx = some s') : Invariant s' := by
  unfold State.advance at taken
  rw [here] at taken
  by_cases free : s.mutex = none
  · simp only [free, if_true] at taken
    cases taken
    have same : ∀ place, (Function.update s.machines slot { s.machines slot with waiters := [] } place).phase =
        (s.machines place).phase ∧
        (Function.update s.machines slot { s.machines slot with waiters := [] } place).ownerCtxId =
        (s.machines place).ownerCtxId := by
      intro place
      rw [machine_update]
      split
      · next equal => rw [equal]; exact ⟨rfl, rfl⟩
      · exact ⟨rfl, rfl⟩
    refine ⟨?_, inv.mutex.goTo rfl rfl (by rw [here]; rfl), ?_⟩
    · exact inv.claims.goTo (fun place => (same place).1) (fun place => (same place).2) rfl rfl rfl rfl
        (by rw [here]; rfl) (fun _ there => by cases there) (fun _ _ there => by cases there)
        (fun _ there => by cases there)
    · refine inv.waiting.handOff rfl rfl rfl ?_ rfl (by rw [here]; rfl) rfl (by rw [here]; rfl) ?_
      · exact inv.nobodyRegisters (fun other held => by rw [free] at held; cases held) (by rw [here]; rfl)
      · intro place different pending
        refine pending.moved (fun phase => .inl ((same place).1.trans phase)) rfl ?_
        intro takes
        rw [here] at takes
        exact absurd (Option.some.inj takes).symm different
  · simp only [if_neg free] at taken
    cases taken

theorem Invariant.advance_wake (inv : Invariant s) {waiters : List Nat} {alive : Bool}
    (here : s.control ctx = .wake waiters alive) (taken : s.advance ctx = some s') : Invariant s' := by
  unfold State.advance at taken
  rw [here] at taken
  cases waiters with
  | nil =>
    cases alive <;> cases taken <;>
      exact inv.goTo (by rw [here]; rfl) (fun _ there => by cases there) (fun _ _ => Control.noConfusion)
        (fun _ there => by cases there) (by rw [here]; rfl) (by rw [here]; rfl) (by rw [here]; rfl)
        (by rw [here]; rfl) (fun _ there => by cases there)
  | cons waiter rest =>
    have parked := inv.waiting.woken ctx waiter (by rw [here]; exact List.mem_cons_self)
    obtain ⟨kind, place, asleep⟩ : ∃ kind place, s.control waiter = .parked kind place := by
      cases control : s.control waiter with
      | parked kind place => exact ⟨kind, place, rfl⟩
      | _ => rw [control] at parked; exact absurd rfl parked
    have different : ctx ≠ waiter := by
      rintro rfl
      rw [here] at asleep
      cases asleep
    simp only [State.wakeForClassInit, asleep] at taken
    cases taken
    have claims : Claims (s.goTo waiter (.loadPhase kind place)) := by
      refine inv.claims.goTo (fun _ => rfl) (fun _ => rfl) rfl rfl rfl rfl (by rw [asleep]; rfl) ?_
        (fun _ _ there => by cases there) (fun _ there => by cases there)
      intro slot there
      cases there
      exact inv.claims.gate waiter place (by rw [asleep]; rfl)
    have still : (s.goTo waiter (.loadPhase kind place)).control ctx = .wake (waiter :: rest) alive := by
      simp only [State.goTo, Function.update_of_ne different, here]
    have mutex : MutexHeld (s.goTo waiter (.loadPhase kind place)) :=
      inv.mutex.goTo rfl rfl (by rw [asleep]; rfl)
    refine ⟨?_, mutex.goTo rfl rfl (by rw [still]; rfl), inv.waiting.wake here asleep⟩
    refine claims.goTo (fun _ => rfl) (fun _ => rfl) rfl rfl rfl rfl (by rw [still]; rfl)
      (fun _ there => by cases there) (fun _ _ there => by cases there) ?_
    intro woken there
    cases there
    exact inv.claims.relinquished ctx _ here

theorem Claims.resettable (claims : Claims s) (settled : (s.control ctx).settling = none) :
    ((s.machines slot).phase = .initializing ∧ (s.machines slot).ownerCtxId = some ctx) ↔ slot ∈ s.claims ctx := by
  constructor
  · rintro ⟨_, owned⟩
    exact ((claims.owner ctx slot).mp owned).1
  · intro claimed
    refine ⟨claims.phase ctx slot claimed, (claims.owner ctx slot).mpr ⟨claimed, ?_⟩⟩
    rw [settled]
    exact fun equal => by cases equal

theorem Invariant.advance_release (inv : Invariant s) {next : Nat} {woken : List Nat}
    (here : s.control ctx = .release next woken) (taken : s.advance ctx = some s') : Invariant s' := by
  have settled : (s.control ctx).settling = none := by rw [here]; rfl
  have holder : (s.control ctx).holdsMutex = true := by rw [here]; rfl
  have nobody := inv.nobodyRegisters
    (fun other held => show other = ctx from Option.some.inj (held.symm.trans ((inv.mutex ctx).mpr holder))) (by rw [here]; rfl)
  have later := inv.claims.released ctx next woken here
  unfold State.advance at taken
  rw [here] at taken
  by_cases inTable : next < s.count
  · by_cases claimed : next ∈ s.claims ctx
    · have resets := (inv.claims.resettable settled).mpr claimed
      simp only [inTable, if_true, State.resetClaimedMachine, resets, and_self] at taken
      cases taken
      have undone : s.doneCount next = 0 := by
        rw [inv.claims.done, resets.1, if_neg Phase.noConfusion]
      refine ⟨?_, inv.mutex.goTo rfl rfl (by rw [here]; rfl), ?_⟩
      · refine inv.claims.drop claimed Phase.noConfusion rfl ?_ rfl rfl ?_ (fun _ => Control.noConfusion) ?_
        · intro place _
          rw [settled]
          exact fun equal => by cases equal
        · intro _ _ equal place member different
          cases equal
          exact Nat.lt_of_le_of_ne (later place member) different.symm
        · intro place
          by_cases same : place = next
          · rw [if_pos same, same]
            exact undone
          · rw [if_neg same]
            rfl
      · refine inv.waiting.handOff rfl rfl rfl nobody rfl (by rw [here]; rfl) rfl (by rw [here]; rfl) ?_
        intro place different pending
        refine pending.moved (fun phase => .inl ?_) rfl (fun takes => by rw [here] at takes; cases takes)
        simp only [State.goTo, State.setMachine, Function.update_of_ne different]
        exact phase
    · have keeps : ¬ ((s.machines next).phase = .initializing ∧ (s.machines next).ownerCtxId = some ctx) :=
        fun both => claimed ((inv.claims.resettable settled).mp both)
      simp only [inTable, if_true, State.resetClaimedMachine, if_neg keeps, List.append_nil,
        List.erase_of_not_mem claimed, State.setMachine, Function.update_eq_self] at taken
      cases taken
      refine ⟨?_, inv.mutex.goTo rfl rfl (by rw [here]; rfl), ?_⟩
      · refine inv.claims.goTo (fun _ => rfl) (fun _ => rfl) rfl rfl rfl rfl (by rw [here]; rfl)
          (fun _ there => by cases there) ?_ (fun _ there => by cases there)
        intro _ _ equal place member
        cases equal
        refine Nat.lt_of_le_of_ne (later place member) ?_
        rintro rfl
        exact claimed member
      · exact inv.waiting.goTo (fun _ => rfl) rfl (by rw [here]; rfl) (by rw [here]; rfl)
          (fun _ pending => pending.moved .inl rfl fun takes => by rw [here] at takes; cases takes)
          (fun _ there => by cases there)
  · simp only [if_neg inTable] at taken
    cases taken
    refine ⟨?_, inv.mutex.release holder rfl rfl rfl, ?_⟩
    · refine inv.claims.goTo (fun _ => rfl) (fun _ => rfl) rfl rfl rfl rfl (by rw [here]; rfl)
        (fun _ there => by cases there) (fun _ _ there => by cases there) ?_
      intro _ _
      refine List.eq_nil_iff_forall_not_mem.mpr fun place member => inTable ?_
      exact Nat.lt_of_le_of_lt (later place member) (inv.claims.inTable ctx place member)
    · exact inv.waiting.goTo (fun _ => rfl) rfl (by rw [here]; rfl) (by rw [here]; rfl)
        (fun _ pending => pending.moved .inl rfl fun takes => by rw [here] at takes; cases takes)
        (fun _ there => by cases there)

theorem Invariant.advance (inv : Invariant s) (taken : s.advance ctx = some s') : Invariant s' := by
  cases here : s.control ctx with
  | running | parked _ _ | dead =>
    unfold State.advance at taken
    rw [here] at taken
    cases taken
  | loadPhase kind slot => exact inv.advance_gate (.inl here) taken
  | loadOwner kind slot => exact inv.advance_gate (.inr here) taken
  | exchange kind slot loaded => exact inv.advance_claim here taken
  | storeOwner slot => exact inv.advance_storeOwner here taken
  | lockWaiters kind slot => exact inv.advance_lock (.inl here) taken
  | recheck kind slot => exact inv.advance_lock (.inr here) taken
  | register kind slot => exact inv.advance_register here taken
  | publish slot outcome => exact inv.advance_publish here taken
  | takeWaiters slot => exact inv.advance_take here taken
  | wake waiters alive => exact inv.advance_wake here taken
  | release next woken => exact inv.advance_release here taken

theorem Invariant.step (inv : Invariant s) {action : Action} (taken : s.step action = some s') : Invariant s' := by
  unfold State.step at taken
  cases action with
  | advance ctx => exact inv.advance taken
  | enterGate ctx kind slot =>
    by_cases enters : s.control ctx = .running ∧ slot < s.count
    · simp only [if_pos enters] at taken
      cases taken
      obtain ⟨here, bound⟩ := enters
      exact inv.goTo (by rw [here]; rfl) (fun _ there => by cases there; exact bound)
        (fun _ _ => Control.noConfusion) (fun _ there => by cases there) (by rw [here]; rfl) (by rw [here]; rfl)
        (by rw [here]; rfl) (by rw [here]; rfl) (fun _ there => by cases there)
    · simp only [if_neg enters] at taken
      cases taken
  | settle ctx slot outcome =>
    by_cases settles : s.control ctx = .running ∧ slot ∈ s.claims ctx
    · simp only [if_pos settles] at taken
      cases taken
      obtain ⟨here, claimed⟩ := settles
      refine inv.storeOwner ?_ (by rw [here]; rfl) (by rw [here]; rfl) (by rw [here]; rfl) (by rw [here]; rfl) rfl
      exact inv.claims.storeOwner claimed (.inl (by rw [here]; rfl)) (.inr ⟨rfl, rfl⟩) rfl
        (fun _ _ => Control.noConfusion) (fun _ => Control.noConfusion)
    · simp only [if_neg settles] at taken
      cases taken
  | fail ctx =>
    by_cases dies : s.control ctx = .running ∧ s.mutex = none
    · simp only [if_pos dies] at taken
      cases taken
      obtain ⟨here, free⟩ := dies
      refine ⟨inv.claims.goTo (fun _ => rfl) (fun _ => rfl) rfl rfl rfl rfl (by rw [here]; rfl)
        (fun _ there => by cases there) (fun _ _ there place _ => by cases there; exact Nat.zero_le place)
        (fun _ there => by cases there), inv.mutex.acquire free rfl rfl rfl, ?_⟩
      exact inv.waiting.goTo (fun _ => rfl) rfl (by rw [here]; rfl) (by rw [here]; rfl)
        (fun _ pending => pending.moved .inl rfl fun takes => by rw [here] at takes; cases takes)
        (fun _ there => by cases there)
    · simp only [if_neg dies] at taken
      cases taken
  | finish ctx =>
    by_cases here : s.control ctx = .running
    · simp only [if_pos here] at taken
      cases taken
      exact inv.goTo (by rw [here]; rfl) (fun _ there => by cases there) (fun _ _ => Control.noConfusion)
        (fun _ there => by cases there) (by rw [here]; rfl) (by rw [here]; rfl) (by rw [here]; rfl)
        (by rw [here]; rfl) (fun _ there => by cases there)
    · simp only [if_neg here] at taken
      cases taken

theorem Invariant.reached {count : Nat} (run : Run State.step (fun _ _ => True) (State.initial count) s) :
    Invariant s :=
  run.invariant Invariant (invariant_initial count) fun _ _ _ inv _ taken => inv.step taken

structure Safe (s : State) : Prop where
  oneInitializer : ∀ slot ctx ctx', slot ∈ s.claims ctx → slot ∈ s.claims ctx' → ctx = ctx'
  initializing : ∀ slot, (s.machines slot).phase = .initializing ↔ ∃ ctx, slot ∈ s.claims ctx
  doneOnce : ∀ slot, s.doneCount slot ≤ 1
  reentryLoads : ∀ ctx kind slot, slot ∈ s.claims ctx → s.control ctx = .loadPhase kind slot →
    s.advance ctx = some (s.goTo ctx (.loadOwner kind slot))
  reentryPasses : ∀ ctx kind slot, slot ∈ s.claims ctx → s.control ctx = .loadOwner kind slot →
    s.advance ctx = some (s.goTo ctx .running)
  waiters : ∀ waiter slot, waiter ∈ (s.machines slot).waiters →
    (∃ kind, s.control waiter = .parked kind slot) ∧
      ((s.machines slot).phase = .initializing ∨ ∃ ctx, s.control ctx = .takeWaiters slot)
  parked : ∀ waiter kind slot, s.control waiter = .parked kind slot →
    (s.machines slot).phase = .initializing ∨ (∃ ctx, s.control ctx = .takeWaiters slot) ∨
      ∃ ctx, waiter ∈ (s.control ctx).toWake
  failed : ∀ ctx slot s', s.control ctx = .publish slot .fail → s.advance ctx = some s' →
    (s'.machines slot).phase = .uninitialized ∧ s'.control ctx = .takeWaiters slot
  taken : ∀ ctx slot s', s.control ctx = .takeWaiters slot → s.advance ctx = some s' →
    (s'.machines slot).waiters = [] ∧ (s'.control ctx).toWake = (s.machines slot).waiters
  released : ∀ ctx slot woken s', s.control ctx = .release slot woken → slot ∈ s.claims ctx →
    s.advance ctx = some s' → s'.machines slot = ⟨.uninitialized, none, []⟩ ∧
      (s'.control ctx).toWake = woken ++ (s.machines slot).waiters
  releasedAll : ∀ ctx woken, s.control ctx = .wake woken false → s.claims ctx = []
  woken : ∀ ctx waiter rest alive s', s.control ctx = .wake (waiter :: rest) alive → s.advance ctx = some s' →
    ∃ kind slot, s.control waiter = .parked kind slot ∧ s'.control waiter = .loadPhase kind slot ∧
      s'.control ctx = .wake rest alive

theorem taking_iff : (∃ ctx, (s.control ctx).taking = some slot) ↔ ∃ ctx, s.control ctx = .takeWaiters slot := by
  constructor
  · rintro ⟨ctx, taking⟩
    refine ⟨ctx, ?_⟩
    cases here : s.control ctx with
    | takeWaiters place =>
      rw [here] at taking
      cases taking
      rfl
    | _ =>
      rw [here] at taking
      cases taking
  · rintro ⟨ctx, here⟩
    exact ⟨ctx, by rw [here]; rfl⟩

theorem parkedOn_some {waiter : Nat} (parked : (s.control waiter).parkedOn = some slot) :
    ∃ kind, s.control waiter = .parked kind slot := by
  cases here : s.control waiter with
  | parked kind place =>
    rw [here] at parked
    cases parked
    exact ⟨kind, rfl⟩
  | _ =>
    rw [here] at parked
    cases parked

theorem Invariant.safe (inv : Invariant s) : Safe s where
  oneInitializer slot ctx ctx' := inv.claims.sole ctx ctx' slot
  initializing slot := ⟨inv.claims.claimed slot, fun ⟨ctx, member⟩ => inv.claims.phase ctx slot member⟩
  doneOnce slot := by
    rw [inv.claims.done]
    split
    · exact Nat.le_refl 1
    · exact Nat.zero_le 1
  reentryLoads ctx kind slot claimed here := by
    simp only [State.advance, here, inv.claims.phase ctx slot claimed]
  reentryPasses ctx kind slot claimed here := by
    have owned : (s.machines slot).ownerCtxId = some ctx :=
      (inv.claims.owner ctx slot).mpr ⟨claimed, by rw [here]; exact fun equal => by cases equal⟩
    simp only [State.advance, here, owned, if_true]
  waiters waiter slot member := by
    refine ⟨parkedOn_some (inv.waiting.waiting waiter slot member), ?_⟩
    exact (inv.waiting.pending slot (List.ne_nil_of_mem member)).imp_right taking_iff.mp
  parked waiter kind slot here := by
    rcases inv.waiting.parked waiter slot (by rw [here]; rfl) with listed | woken
    · rcases inv.waiting.pending slot (List.ne_nil_of_mem listed) with initializing | taking
      · exact .inl initializing
      · exact .inr (.inl (taking_iff.mp taking))
    · exact .inr (.inr woken)
  failed ctx slot s' here advanced := by
    simp only [State.advance, here] at advanced
    cases advanced
    simp only [State.goTo, State.setMachine, Function.update_self]
    exact ⟨rfl, trivial⟩
  taken ctx slot s' here advanced := by
    simp only [State.advance, here] at advanced
    split at advanced
    · cases advanced
      simp only [State.goTo, State.setMachine, Function.update_self]
      exact ⟨trivial, rfl⟩
    · cases advanced
  released ctx slot woken s' here claimed advanced := by
    have resets := (inv.claims.resettable (by rw [here]; rfl)).mpr claimed
    simp only [State.advance, here, inv.claims.inTable ctx slot claimed, if_true, State.resetClaimedMachine, resets,
      and_self] at advanced
    cases advanced
    simp only [State.goTo, State.setMachine, Function.update_self]
    exact ⟨trivial, rfl⟩
  releasedAll := inv.claims.relinquished
  woken ctx waiter rest alive s' here advanced := by
    have parked := inv.waiting.woken ctx waiter (by rw [here]; exact List.mem_cons_self)
    obtain ⟨slot, on⟩ := Option.ne_none_iff_exists'.mp parked
    obtain ⟨kind, asleep⟩ := parkedOn_some on
    have different : waiter ≠ ctx := by
      rintro rfl
      rw [here] at asleep
      cases asleep
    simp only [State.advance, here, State.wakeForClassInit, asleep] at advanced
    cases advanced
    refine ⟨kind, slot, asleep, ?_, ?_⟩
    · simp only [State.goTo, Function.update_of_ne different, Function.update_self]
    · simp only [State.goTo, Function.update_self]

/-- In every state that any interleaving of gates, Done, Fail and the deaths of contexts reaches. -/
theorem static_init_safe {count : Nat} (run : Run State.step (fun _ _ => True) (State.initial count) s) : Safe s :=
  (Invariant.reached run).safe

def lateWaiter : List Action :=
  [.enterGate 0 .classGate 0, .advance 0, .advance 0, .advance 0, .enterGate 1 .classGate 0, .advance 1, .advance 1,
    .advance 1, .advance 1, .settle 0 0 .done, .advance 0]

def lateWaiting : State := (lateWaiter.foldlM State.step (State.initial 1)).getD (State.initial 1)

theorem lateWaiting_run : Run State.step (fun _ _ => True) (State.initial 1) lateWaiting :=
  Run.refl.actions (fun _ _ _ => trivial)
    (show lateWaiter.foldlM State.step (State.initial 1) = some lateWaiting from rfl)

theorem static_init_safe_late : lateWaiting.control 0 = .takeWaiters 0 ∧ Safe lateWaiting :=
  ⟨rfl, static_init_safe lateWaiting_run⟩

theorem waiter_recorded_when_done : ∃ s s', Run State.step (fun _ _ => True) (State.initial 1) s ∧
    (s.machines 0).phase = .done ∧ s.step (.advance 1) = some s' ∧ 1 ∉ (s.machines 0).waiters ∧
    1 ∈ (s'.machines 0).waiters ∧ (s'.machines 0).phase = .done :=
  ⟨lateWaiting, (lateWaiting.step (.advance 1)).getD lateWaiting,
    lateWaiting_run, rfl, rfl, List.not_mem_nil,
    List.mem_singleton_self 1, rfl⟩

end NLang.Vm.StaticInit
