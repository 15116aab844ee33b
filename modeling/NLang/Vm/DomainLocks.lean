import NLang.Library.Runs
import NLang.Library.WaitChains

/-!
# Domain locks

`VmDomainLocks.h`: the store locks of the executors, and the guards that threads open on them. The mask and the depths of a
thread are static members, so all lock sets share them. Guards live in scopes: the last one opened is closed first. A
tripwire ends the process, so no state follows it.
-/

namespace NLang.Vm.DomainLocks
open NLang.Library NLang.Library.Runs Relation

inductive DomainId where
  | container
  | sync
  | stream
  | strMaint
  | growth
  deriving DecidableEq

def DomainId.idx : DomainId → Nat
  | .container => 0
  | .sync => 1
  | .stream => 2
  | .strMaint => 3
  | .growth => 4

structure DomainGuard where
  set : Nat
  id : DomainId
  acquired : Bool

/-- `guards` has the innermost open guard first. A thread waits while `AcquireChecked` sleeps in `lock`. -/
structure Thread where
  heldMask : BitVec 32 := 0
  depth : DomainId → Nat := fun _ => 0
  guards : List DomainGuard := []
  waiting : Option (Nat × DomainId) := none

namespace Thread

/-- The test of `AcquireChecked`. -/
def trips (th : Thread) (id : DomainId) : Bool := th.heldMask >>> (id.idx + 1) != 0

def opened (th : Thread) (guard : DomainGuard) : Thread :=
  { th with
    depth := Function.update th.depth guard.id (th.depth guard.id + 1)
    guards := guard :: th.guards }

/-- The end of `AcquireChecked` and of the constructor behind it. -/
def locked (th : Thread) (set : Nat) (id : DomainId) : Thread :=
  { th.opened ⟨set, id, true⟩ with
    heldMask := th.heldMask ||| (1#32 <<< id.idx)
    waiting := none }

def closed (th : Thread) (guard : DomainGuard) (rest : List DomainGuard) : Thread :=
  { th with
    heldMask := if guard.acquired then th.heldMask &&& ~~~(1#32 <<< guard.id.idx) else th.heldMask
    depth := Function.update th.depth guard.id (th.depth guard.id - 1)
    guards := rest }

end Thread

/-- The owner of each mutex. -/
structure State where
  mutex : Nat → DomainId → Option Nat
  thread : Nat → Thread

def State.initial : State := ⟨fun _ _ => none, fun _ => {}⟩

inductive Action where
  | construct (t set : Nat) (id : DomainId)
  | lock (t : Nat)
  | destruct (t : Nat)

namespace State

def put (s : State) (t : Nat) (th : Thread) : State := { s with thread := Function.update s.thread t th }

def setMutex (s : State) (set : Nat) (id : DomainId) (owner : Option Nat) : State :=
  { s with mutex := fun other d => if other = set ∧ d = id then owner else s.mutex other d }

def acquire (s : State) (t set : Nat) (id : DomainId) : State :=
  (s.setMutex set id (some t)).put t ((s.thread t).locked set id)

/-- `Release` leaves the mutex of an outermost guard. -/
def release (s : State) (guard : DomainGuard) : State :=
  if guard.acquired then s.setMutex guard.set guard.id none else s

def step (s : State) : Action → Option State
  | .construct t set id =>
    let th := s.thread t
    if th.waiting.isSome then none
    else if 0 < th.depth id then some (s.put t (th.opened ⟨set, id, false⟩))
    else if th.trips id then none
    else if (s.mutex set id).isNone then some (s.acquire t set id)
    else some (s.put t { th with waiting := some (set, id) })
  | .lock t =>
    match (s.thread t).waiting with
    | none => none
    | some (set, id) => if (s.mutex set id).isNone then some (s.acquire t set id) else none
  | .destruct t =>
    let th := s.thread t
    match th.waiting, th.guards with
    | none, guard :: rest => some ((s.release guard).put t (th.closed guard rest))
    | _, _ => none

end State

/-! ## The guards of a thread -/

/-- An outermost guard lies above lower domains only; any other guard has one of its domain below it. -/
def Stacked : List DomainGuard → Prop
  | [] => True
  | guard :: rest =>
    (if guard.acquired then ∀ below ∈ rest, below.id.idx < guard.id.idx else ∃ below ∈ rest, below.id = guard.id) ∧ Stacked rest

structure Thread.Ok (th : Thread) : Prop where
  depth : ∀ id, th.depth id = th.guards.countP (·.id = id)
  mask : ∀ j, th.heldMask.getLsbD j = true ↔ ∃ guard ∈ th.guards, guard.id.idx = j
  stacked : Stacked th.guards
  waiting : ∀ set id, th.waiting = some (set, id) → ∀ guard ∈ th.guards, guard.id.idx < id.idx

theorem idx_lt (id : DomainId) : id.idx < 5 := by cases id <;> decide

theorem idx_injective {id other : DomainId} (same : id.idx = other.idx) : id = other := by
  cases id <;> cases other <;> first | rfl | cases same

theorem getLsbD_bit (id : DomainId) (j : Nat) : (1#32 <<< id.idx).getLsbD j = decide (id.idx = j) := by
  have small : id.idx < 32 := Nat.lt_trans (idx_lt id) (by decide)
  rw [← BitVec.twoPow_eq, BitVec.getLsbD_twoPow, decide_eq_true small, Bool.true_and]

namespace Thread.Ok
variable {th : Thread} (ok : th.Ok)
include ok

theorem trips_iff (id : DomainId) : th.trips id = true ↔ ∃ guard ∈ th.guards, id.idx < guard.id.idx := by
  rw [Thread.trips, bne_iff_ne, ne_eq, BitVec.eq_of_getLsbD_eq_iff, not_forall]
  constructor
  · rintro ⟨j, differs⟩
    have held : j < 32 ∧ th.heldMask.getLsbD (id.idx + 1 + j) = true := by simpa [BitVec.getLsbD_ushiftRight] using differs
    obtain ⟨guard, member, at_j⟩ := (ok.mask _).mp held.2
    exact ⟨guard, member, by omega⟩
  · rintro ⟨guard, member, above⟩
    have held := (ok.mask guard.id.idx).mpr ⟨guard, member, rfl⟩
    have small := idx_lt guard.id
    refine ⟨guard.id.idx - (id.idx + 1), ?_⟩
    rw [BitVec.getLsbD_ushiftRight, show id.idx + 1 + (guard.id.idx - (id.idx + 1)) = guard.id.idx by omega, held]
    exact fun agree => absurd (agree (by omega)) (by simp)

theorem nested {set : Nat} {id : DomainId} (free : th.waiting = none) (inside : 0 < th.depth id) :
    (th.opened ⟨set, id, false⟩).Ok where
  depth other := by
    have count := ok.depth other
    by_cases same : id = other
    · subst same
      simp [Thread.opened, count]
    · simp [Thread.opened, Function.update_of_ne (Ne.symm same), same, count]
  mask j := by
    rw [ok.depth, List.countP_pos_iff] at inside
    obtain ⟨below, member, sameId⟩ := inside
    change th.heldMask.getLsbD j = true ↔ ∃ guard ∈ ⟨set, id, false⟩ :: th.guards, guard.id.idx = j
    rw [ok.mask, List.exists_mem_cons_iff]
    exact (or_iff_right_of_imp fun at_j => ⟨below, member, by rw [of_decide_eq_true sameId]; exact at_j⟩).symm
  stacked := by
    rw [ok.depth, List.countP_pos_iff] at inside
    exact ⟨by simpa using inside, ok.stacked⟩
  waiting set id waits := by cases free.symm.trans waits

theorem locked {set : Nat} {id : DomainId} (lower : ∀ guard ∈ th.guards, guard.id.idx < id.idx) : (th.locked set id).Ok where
  depth other := by
    have count := ok.depth other
    by_cases same : id = other
    · subst same
      simp [Thread.locked, Thread.opened, count]
    · simp [Thread.locked, Thread.opened, Function.update_of_ne (Ne.symm same), same, count]
  mask j := by
    change (th.heldMask ||| 1#32 <<< id.idx).getLsbD j = true ↔ ∃ guard ∈ ⟨set, id, true⟩ :: th.guards, guard.id.idx = j
    rw [BitVec.getLsbD_or, getLsbD_bit, Bool.or_eq_true, ok.mask, decide_eq_true_iff, List.exists_mem_cons_iff, or_comm]
  stacked := ⟨by simpa using lower, ok.stacked⟩
  waiting set id waits := by cases waits

theorem waits {set : Nat} {id : DomainId} (lower : ∀ guard ∈ th.guards, guard.id.idx < id.idx) :
    { th with waiting := some (set, id) }.Ok where
  depth := ok.depth
  mask := ok.mask
  stacked := ok.stacked
  waiting other d sleeps := by
    cases sleeps
    exact lower

theorem closed {guard : DomainGuard} {rest : List DomainGuard} (free : th.waiting = none) (top : th.guards = guard :: rest) :
    (th.closed guard rest).Ok where
  depth id := by
    have count := ok.depth id
    rw [top] at count
    by_cases same : guard.id = id
    · subst same
      rw [List.countP_cons] at count
      simp [Thread.closed, count]
    · simpa [Thread.closed, Function.update_of_ne (Ne.symm same), same] using count
  mask j := by
    have mask := ok.mask j
    have stacked := ok.stacked
    rw [top] at mask stacked
    rw [List.exists_mem_cons_iff] at mask
    have upper := stacked.1
    change (if guard.acquired then th.heldMask &&& ~~~(1#32 <<< guard.id.idx) else th.heldMask).getLsbD j = true ↔ _
    cases acquired : guard.acquired with
    | false =>
      rw [acquired, if_neg Bool.false_ne_true] at upper
      obtain ⟨below, member, same⟩ := upper
      rw [if_neg Bool.false_ne_true, mask]
      exact or_iff_right_of_imp fun at_j => ⟨below, member, same ▸ at_j⟩
    | true =>
      rw [acquired, if_pos rfl] at upper
      rw [if_pos rfl, BitVec.getLsbD_and, BitVec.getLsbD_not, getLsbD_bit, Bool.and_eq_true, mask]
      constructor
      · rintro ⟨here | there, others⟩
        · simp [here] at others
        · exact there
      · rintro ⟨below, member, rfl⟩
        have apart := upper below member
        have small := idx_lt below.id
        refine ⟨.inr ⟨below, member, rfl⟩, ?_⟩
        simp
        omega
  stacked := by
    have stacked := ok.stacked
    rw [top] at stacked
    exact stacked.2
  waiting set id waits := by cases free.symm.trans waits

theorem lower_of_passes {id : DomainId} (outside : ¬ 0 < th.depth id) (passes : ¬ th.trips id = true) :
    ∀ guard ∈ th.guards, guard.id.idx < id.idx := by
  intro guard member
  have notAbove : ¬ id.idx < guard.id.idx := fun above => passes ((ok.trips_iff id).mpr ⟨guard, member, above⟩)
  have apart : guard.id.idx ≠ id.idx := fun same => outside <| by
    rw [ok.depth, List.countP_pos_iff]
    exact ⟨guard, member, decide_eq_true (idx_injective same)⟩
  omega

end Thread.Ok

/-! ## Runs -/

def Thread.Holds (th : Thread) (set : Nat) (id : DomainId) : Prop :=
  ∃ guard ∈ th.guards, guard.acquired = true ∧ guard.set = set ∧ guard.id = id

structure Inv (s : State) : Prop where
  ok : ∀ t, (s.thread t).Ok
  owners : ∀ t set id, s.mutex set id = some t ↔ (s.thread t).Holds set id

namespace Inv
variable {s s' : State} (inv : Inv s)
include inv

theorem put {t : Nat} {th : Thread} (ok : th.Ok) (holds : ∀ set id, th.Holds set id ↔ (s.thread t).Holds set id) :
    Inv (s.put t th) where
  ok other := by
    by_cases same : other = t
    · subst same
      simpa [State.put] using ok
    · simpa [State.put, Function.update_of_ne same] using inv.ok other
  owners other set id := by
    by_cases same : other = t
    · subst same
      simpa [State.put, holds] using inv.owners other set id
    · simpa [State.put, Function.update_of_ne same] using inv.owners other set id

theorem acquire {t set : Nat} {id : DomainId} (lower : ∀ guard ∈ (s.thread t).guards, guard.id.idx < id.idx)
    (free : s.mutex set id = none) : Inv (s.acquire t set id) where
  ok other := by
    by_cases same : other = t
    · subst same
      simpa [State.acquire, State.put, State.setMutex] using (inv.ok other).locked lower
    · simpa [State.acquire, State.put, State.setMutex, Function.update_of_ne same] using inv.ok other
  owners other set' id' := by
    have before := inv.owners other set' id'
    have holds : ((s.thread t).locked set id).Holds set' id' ↔ (set' = set ∧ id' = id) ∨ (s.thread t).Holds set' id' := by
      rw [Thread.Holds, show ((s.thread t).locked set id).guards = ⟨set, id, true⟩ :: (s.thread t).guards from rfl,
        List.exists_mem_cons_iff]
      refine or_congr_left ⟨?_, ?_⟩
      · rintro ⟨-, rfl, rfl⟩
        exact ⟨rfl, rfl⟩
      · rintro ⟨rfl, rfl⟩
        exact ⟨rfl, rfl, rfl⟩
    by_cases here : set' = set ∧ id' = id
    · obtain ⟨rfl, rfl⟩ := here
      by_cases same : other = t
      · subst same
        simp [State.acquire, State.put, State.setMutex, holds]
      · rw [free] at before
        simpa [State.acquire, State.put, State.setMutex, Function.update_of_ne same, Ne.symm same] using before
    · by_cases same : other = t
      · subst same
        simpa [State.acquire, State.put, State.setMutex, holds, here] using before
      · simpa [State.acquire, State.put, State.setMutex, Function.update_of_ne same, here] using before

theorem destruct {t : Nat} {guard : DomainGuard} {rest : List DomainGuard} (free : (s.thread t).waiting = none)
    (top : (s.thread t).guards = guard :: rest) : Inv ((s.release guard).put t ((s.thread t).closed guard rest)) where
  ok other := by
    have threads : (s.release guard).thread = s.thread := by
      rw [State.release]
      split <;> rfl
    by_cases same : other = t
    · subst same
      simpa [State.put] using (inv.ok other).closed free top
    · simpa [State.put, Function.update_of_ne same, threads] using inv.ok other
  owners other set id := by
    have before := inv.owners other set id
    have stacked := (inv.ok t).stacked
    rw [top] at stacked
    have upper := stacked.1
    have holds : ((s.thread t).closed guard rest).Holds set id ↔
        (s.thread t).Holds set id ∧ ¬ (guard.acquired = true ∧ set = guard.set ∧ id = guard.id) := by
      rw [Thread.Holds, Thread.Holds, top, List.exists_mem_cons_iff]
      change (∃ below ∈ rest, _) ↔ _
      constructor
      · rintro ⟨below, member, acquired, rfl, rfl⟩
        refine ⟨.inr ⟨below, member, acquired, rfl, rfl⟩, ?_⟩
        rintro ⟨outer, -, same⟩
        rw [outer, if_pos rfl] at upper
        have := upper below member
        rw [same] at this
        exact absurd this (Nat.lt_irrefl _)
      · rintro ⟨⟨acquired, rfl, rfl⟩ | later, apart⟩
        · exact absurd ⟨acquired, rfl, rfl⟩ apart
        · exact later
    have owner : guard.acquired = true → s.mutex guard.set guard.id = some t := fun acquired =>
      (inv.owners t _ _).mpr ⟨guard, by rw [top]; exact .head _, acquired, rfl, rfl⟩
    by_cases same : other = t
    · subst same
      cases acquired : guard.acquired with
      | false => simpa [State.release, State.put, holds, acquired] using before
      | true =>
        by_cases here : set = guard.set ∧ id = guard.id
        · obtain ⟨rfl, rfl⟩ := here
          simp [State.release, State.put, State.setMutex, holds, acquired]
        · simpa [State.release, State.put, State.setMutex, holds, acquired, here] using before
    · cases acquired : guard.acquired with
      | false => simpa [State.release, State.put, Function.update_of_ne same, acquired] using before
      | true =>
        by_cases here : set = guard.set ∧ id = guard.id
        · obtain ⟨rfl, rfl⟩ := here
          rw [owner acquired] at before
          simpa [State.release, State.put, State.setMutex, Function.update_of_ne same, acquired, Ne.symm same] using before
        · simpa [State.release, State.put, State.setMutex, Function.update_of_ne same, acquired, here] using before

end Inv

theorem step_inv {s s' : State} {action : Action} (inv : Inv s) (taken : s.step action = some s') : Inv s' := by
  cases action with
  | construct t set id =>
    dsimp only [State.step] at taken
    split at taken
    · cases taken
    · rename_i awake
      have free : (s.thread t).waiting = none := by simpa using awake
      split at taken
      · rename_i inside
        cases taken
        refine inv.put ((inv.ok t).nested free inside) fun other d => ?_
        rw [Thread.Holds, show ((s.thread t).opened ⟨set, id, false⟩).guards = ⟨set, id, false⟩ :: (s.thread t).guards from rfl,
          List.exists_mem_cons_iff]
        exact or_iff_right fun outer => absurd outer.1 Bool.false_ne_true
      · rename_i outside
        split at taken
        · cases taken
        · rename_i passes
          have lower := (inv.ok t).lower_of_passes outside passes
          split at taken
          · rename_i unowned
            cases taken
            exact inv.acquire lower (by simpa using unowned)
          · cases taken
            exact inv.put ((inv.ok t).waits lower) fun _ _ => Iff.rfl
  | lock t =>
    dsimp only [State.step] at taken
    split at taken
    · cases taken
    · rename_i set id waits
      split at taken
      · rename_i unowned
        cases taken
        exact inv.acquire ((inv.ok t).waiting set id waits) (by simpa using unowned)
      · cases taken
  | destruct t =>
    dsimp only [State.step] at taken
    split at taken
    · rename_i guard rest free top
      cases taken
      exact inv.destruct free top
    · cases taken

theorem initial_inv : Inv State.initial where
  ok _ :=
    { depth := fun _ => rfl
      mask := by simp [State.initial]
      stacked := trivial
      waiting := fun _ _ waits => by cases waits }
  owners _ _ _ := by simp [State.initial, Thread.Holds]

/-- The set of the outermost open guard of a domain. -/
def Thread.outermost (th : Thread) (id : DomainId) : Option Nat :=
  (th.guards.reverse.find? fun guard => guard.id = id).map (·.set)

theorem holds_iff_outermost {guards : List DomainGuard} (stacked : Stacked guards) (set : Nat) (id : DomainId) :
    (∃ guard ∈ guards, guard.acquired = true ∧ guard.set = set ∧ guard.id = id) ↔
      (guards.reverse.find? fun guard => guard.id = id).map (·.set) = some set := by
  induction guards with
  | nil => simp
  | cons guard rest ih =>
    obtain ⟨upper, stacked⟩ := stacked
    rw [List.exists_mem_cons_iff, ih stacked, List.reverse_cons, List.find?_append, Option.map_or]
    cases found : rest.reverse.find? fun guard => guard.id = id with
    | some below =>
      have sameId : below.id = id := by simpa using List.find?_some found
      have member : below ∈ rest := List.mem_reverse.mp (List.mem_of_find?_eq_some found)
      refine or_iff_right fun here => ?_
      rw [here.1, if_pos rfl] at upper
      have := upper below member
      rw [sameId, here.2.2] at this
      exact Nat.lt_irrefl _ this
    | none =>
      have absent : ∀ below ∈ rest, below.id ≠ id := by simpa using found
      by_cases same : guard.id = id
      · have outer : guard.acquired = true := by
          by_contra inner
          rw [if_neg inner] at upper
          obtain ⟨below, member, sameId⟩ := upper
          exact absent below member (sameId.trans same)
        simp [same, outer]
      · simp [same]

/-- A guard protects the store of its lock set just where the outermost guard that its thread has open on the domain is of
the same set. -/
theorem guards_protect_iff {s : State} (run : Run State.step (fun _ _ => True) State.initial s) (t set : Nat) (id : DomainId) :
    (s.mutex set id = some t ↔ (s.thread t).outermost id = some set) ∧
      ∀ other, other ≠ t → (s.thread t).outermost id = some set → (s.thread other).outermost id ≠ some set := by
  have inv : Inv s := run.invariant Inv initial_inv fun _ _ _ inv _ taken => step_inv inv taken
  have owner : ∀ t, s.mutex set id = some t ↔ (s.thread t).outermost id = some set := fun t =>
    (inv.owners t set id).trans (holds_iff_outermost (inv.ok t).stacked set id)
  refine ⟨owner t, fun other apart here there => apart ?_⟩
  exact Option.some.inj (((owner other).mpr there).symm.trans ((owner t).mpr here))

theorem nested_unprotected : ∃ s, Run State.step (fun _ _ => True) State.initial s ∧ (s.thread 0).guards.length = 2 ∧
    s.mutex 0 .container = some 0 ∧ s.mutex 1 .container ≠ some 0 := by
  have run : Run State.step (fun _ _ => True) State.initial _ :=
    .tail (.tail .refl trivial (show State.initial.step (.construct 0 0 .container) = some _ from rfl)) trivial
      (show State.step _ (.construct 0 1 .container) = some _ from rfl)
  refine ⟨_, run, rfl, (guards_protect_iff run 0 0 .container).1.mpr rfl, fun owned => ?_⟩
  have outermost := (guards_protect_iff run 0 1 .container).1.mp owned
  exact absurd outermost (by decide)

/-! ## Waiting -/

/-- Thread `t` sleeps on a mutex that `other` owns. -/
def Blocks (s : State) (t other : Nat) : Prop :=
  ∃ set id, (s.thread t).waiting = some (set, id) ∧ s.mutex set id = some other

/-- Whatever the lock sets, the waits of the threads lead to a thread that can go on: it does not sleep, or its mutex is free
by now. -/
theorem waits_end {s : State} (run : Run State.step (fun _ _ => True) State.initial s) (t : Nat) :
    ∃ last, ReflTransGen (Blocks s) t last ∧
      ((s.thread last).waiting = none ∨ ∃ s', s.step (.lock last) = some s') := by
  have inv : Inv s := run.invariant Inv initial_inv fun _ _ _ inv _ taken => step_inv inv taken
  let rank (t : Nat) : Nat := (s.thread t).waiting.elim 0 fun wait => wait.2.idx
  have climbs : ∀ a b c, Blocks s a b → Blocks s b c → rank a < rank b := by
    rintro a b c ⟨set, id, sleeps, owned⟩ ⟨set', id', sleeps', -⟩
    obtain ⟨guard, member, -, -, rfl⟩ := (inv.owners b set id).mp owned
    have := (inv.ok b).waiting set' id' sleeps' guard member
    simpa [rank, sleeps, sleeps'] using this
  have below : ∀ a b, Blocks s a b → rank a < 5 := by
    rintro a b ⟨set, id, sleeps, -⟩
    simpa [rank, sleeps] using idx_lt id
  obtain ⟨last, path, ends⟩ := WaitChains.chain_ends climbs below t
  refine ⟨last, path, ?_⟩
  cases sleeps : (s.thread last).waiting with
  | none => exact .inl rfl
  | some wait =>
    obtain ⟨set, id⟩ := wait
    refine .inr ?_
    cases owned : s.mutex set id with
    | none => exact ⟨s.acquire last set id, by simp [State.step, sleeps, owned]⟩
    | some other => exact absurd ⟨set, id, sleeps, owned⟩ (ends other)

theorem waits_end_stream : ∃ s, Run State.step (fun _ _ => True) State.initial s ∧
    (s.thread 1).waiting = some (0, .stream) ∧ ∃ last, ReflTransGen (Blocks s) 1 last ∧
      ((s.thread last).waiting = none ∨ ∃ s', s.step (.lock last) = some s') := by
  have run : Run State.step (fun _ _ => True) State.initial _ :=
    .tail (.tail .refl trivial (show State.initial.step (.construct 0 0 .stream) = some _ from rfl)) trivial
      (show State.step _ (.construct 1 0 .stream) = some _ from rfl)
  exact ⟨_, run, rfl, waits_end run 1⟩

end NLang.Vm.DomainLocks
