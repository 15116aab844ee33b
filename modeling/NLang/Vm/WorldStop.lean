import Mathlib

/-!
# The thread registry of the stop-the-world rendezvous

`GcWorldStop`: every member function is one critical section of its leaf lock, except that `BeginExecuting`
and `WaitForCompletion` sleep inside theirs and so are split where they sleep. A tripwire ends the process and
is an `.error` here.
-/

namespace NLang.Vm

structure ThreadEntry where
  executing : Bool
  live : Bool
  generation : Nat

structure GcThreadToken where
  generation : Nat
  index : Nat
  deriving DecidableEq

structure ThreadLocals where
  selfEntry : Option Nat
  selfGeneration : Nat

structure GcWorldStop where
  requestEpoch : Nat
  completedEpoch : Nat
  expected : Nat
  arrived : Nat
  threads : List ThreadEntry
  freeIndices : List Nat
  nextGeneration : Nat
  executingCount : Nat
  stopActive : Bool
  stopCount : Nat

namespace GcWorldStop

def initial : GcWorldStop where
  requestEpoch := 0
  completedEpoch := 0
  expected := 0
  arrived := 0
  threads := []
  freeIndices := []
  nextGeneration := 1
  executingCount := 0
  stopActive := false
  stopCount := 0

def self (stop : GcWorldStop) (tls : ThreadLocals) : Option ThreadEntry :=
  tls.selfEntry.bind fun index => stop.threads[index]?

def entryIsCurrent (tls : ThreadLocals) (entry : ThreadEntry) : Bool :=
  entry.live && entry.generation == tls.selfGeneration

def takeIndex (stop : GcWorldStop) : Nat × List ThreadEntry × List Nat :=
  match stop.freeIndices with
  | [] => (stop.threads.length, stop.threads ++ [⟨false, false, 0⟩], [])
  | index :: rest => (index, stop.threads, rest)

def registerThread (stop : GcWorldStop) (tls : ThreadLocals) :
    Except String (GcThreadToken × GcWorldStop × ThreadLocals) :=
  if (stop.self tls).any (·.live) then
    .error "RegisterThread (already registered)"
  else
    let generation := stop.nextGeneration
    let (index, threads, freeIndices) := stop.takeIndex
    .ok (⟨generation, index⟩,
      { stop with
        threads := threads.set index ⟨false, true, generation⟩
        freeIndices := freeIndices
        nextGeneration := generation + 1 },
      ⟨some index, generation⟩)

def unregisterThread (stop : GcWorldStop) (tls : ThreadLocals) (token : GcThreadToken) :
    Except String (GcWorldStop × ThreadLocals) :=
  if token.generation = 0 then .ok (stop, tls)
  else match stop.threads[token.index]? with
    | none => .ok (stop, tls)
    | some entry =>
      if !entry.live || entry.generation != token.generation then .ok (stop, tls)
      else if entry.executing then .error "UnregisterThread (still executing)"
      else .ok
        ({ stop with
            threads := stop.threads.set token.index { entry with live := false }
            freeIndices := token.index :: stop.freeIndices },
          if tls.selfEntry = some token.index then { tls with selfEntry := none } else tls)

def isRegistered (stop : GcWorldStop) (tls : ThreadLocals) : Bool :=
  (stop.self tls).any (·.live)

def executingSelf (stop : GcWorldStop) (tls : ThreadLocals) : Bool :=
  (stop.self tls).any fun entry => entry.live && entry.executing

def beginEntry (stop : GcWorldStop) (tls : ThreadLocals) : Except String Bool :=
  match stop.self tls with
  | none => .error "BeginExecuting"
  | some entry => .ok (entryIsCurrent tls entry)

def beginFlip (stop : GcWorldStop) (tls : ThreadLocals) : Option GcWorldStop :=
  if stop.stopActive then none
  else some { stop with
    executingCount := stop.executingCount + 1
    threads := match tls.selfEntry with
      | some index => stop.threads.modify index fun entry => { entry with executing := true }
      | none => stop.threads }

def flipOff (stop : GcWorldStop) (tls : ThreadLocals) : GcWorldStop :=
  { stop with
    executingCount := stop.executingCount - 1
    threads := match tls.selfEntry with
      | some index => stop.threads.modify index fun entry => { entry with executing := false }
      | none => stop.threads }

def arrive (stop : GcWorldStop) : Bool × GcWorldStop :=
  (stop.arrived + 1 == stop.expected, { stop with arrived := stop.arrived + 1 })

def endExecuting (stop : GcWorldStop) (tls : ThreadLocals) : Except String (Bool × GcWorldStop) :=
  match stop.self tls with
  | none => .error "EndExecuting"
  | some entry =>
    if !entryIsCurrent tls entry then .ok (false, stop)
    else if !entry.executing then .error "EndExecuting (not executing)"
    else
      let off := stop.flipOff tls
      .ok (if off.stopActive then off.arrive else (false, off))

def openStop (stop : GcWorldStop) : GcWorldStop :=
  if stop.stopActive then stop
  else { stop with
    requestEpoch := stop.requestEpoch + 1
    stopActive := true
    expected := stop.executingCount
    arrived := 0 }

def initiateAndArrive (stop : GcWorldStop) (tls : ThreadLocals) : Except String (Bool × GcWorldStop) :=
  match stop.self tls with
  | none => .error "InitiateAndArrive"
  | some entry =>
    if !entryIsCurrent tls entry then .error "InitiateAndArrive"
    else if !entry.executing then .error "InitiateAndArrive (not executing)"
    else .ok ((stop.openStop.flipOff tls).arrive)

def completionSeen (stop : GcWorldStop) (epoch : Nat) : Bool := epoch ≤ stop.completedEpoch

def assertAllArrived (stop : GcWorldStop) : Except String Unit :=
  if !stop.stopActive || stop.arrived != stop.expected then
    .error "AssertAllArrived (rendezvous not quiesced)"
  else .ok ()

def complete (stop : GcWorldStop) : GcWorldStop :=
  { stop with
    completedEpoch := max stop.completedEpoch stop.requestEpoch
    stopActive := false
    stopCount := stop.stopCount + 1 }

def reset (stop : GcWorldStop) : GcWorldStop :=
  { stop with
    requestEpoch := 0
    completedEpoch := 0
    expected := 0
    arrived := 0
    executingCount := 0
    stopActive := false
    stopCount := 0
    threads := stop.threads.map fun entry => { entry with live := false }
    freeIndices := List.range stop.threads.length }

theorem modify_of_entry {threads : List ThreadEntry} {index : Nat} {entry : ThreadEntry}
    (f : ThreadEntry → ThreadEntry) (found : threads[index]? = some entry) :
    threads.modify index f = threads.set index (f entry) := by
  apply List.ext_getElem?
  intro other
  by_cases same : index = other
  · subst same
    have bound : index < threads.length := (List.getElem?_eq_some_iff.mp found).1
    rw [List.getElem?_modify_eq, found, List.getElem?_set_self bound]
    rfl
  · rw [List.getElem?_modify_ne _ _ same, List.getElem?_set_ne same]

variable {stop : GcWorldStop} {tls : ThreadLocals} {index : Nat} {entry : ThreadEntry}

theorem self_of_entry (named : tls.selfEntry = some index) (found : stop.threads[index]? = some entry) :
    stop.self tls = some entry := by
  simp only [self, named, Option.bind_some, found]

theorem beginFlip_of_entry (named : tls.selfEntry = some index) (found : stop.threads[index]? = some entry)
    (clear : stop.stopActive = false) :
    stop.beginFlip tls = some { stop with
      executingCount := stop.executingCount + 1
      threads := stop.threads.set index { entry with executing := true } } := by
  simp only [beginFlip, clear, named, modify_of_entry _ found]
  rfl

theorem flipOff_of_entry (named : tls.selfEntry = some index) (found : stop.threads[index]? = some entry) :
    stop.flipOff tls = { stop with
      executingCount := stop.executingCount - 1
      threads := stop.threads.set index { entry with executing := false } } := by
  simp only [flipOff, named, modify_of_entry _ found]

theorem openStop_table : stop.openStop.threads = stop.threads ∧
    stop.openStop.freeIndices = stop.freeIndices ∧ stop.openStop.nextGeneration = stop.nextGeneration := by
  unfold openStop
  split <;> exact ⟨rfl, rfl, rfl⟩

theorem takeIndex_spec {threads : List ThreadEntry} {rest : List Nat}
    (free : ∀ index ∈ stop.freeIndices, ∃ entry : ThreadEntry,
      stop.threads[index]? = some entry ∧ entry.live = false)
    (distinct : stop.freeIndices.Nodup) (taken : stop.takeIndex = (index, threads, rest)) :
    (∃ entry : ThreadEntry, threads[index]? = some entry ∧ entry.live = false ∧
        (entry ∈ stop.threads ∨ entry = ⟨false, false, 0⟩)) ∧
      (∀ entry, stop.threads[index]? = some entry → entry.live = false) ∧
      (∀ other, other ≠ index → threads[other]? = stop.threads[other]?) ∧
      (∀ other ∈ rest, other ≠ index ∧ other ∈ stop.freeIndices) ∧ rest.Nodup ∧
      threads.countP (·.executing) = stop.threads.countP (·.executing) := by
  unfold takeIndex at taken
  cases list : stop.freeIndices with
  | nil =>
    rw [list] at taken
    cases taken
    refine ⟨⟨⟨false, false, 0⟩, List.getElem?_concat_length, rfl, .inr rfl⟩, ?_, ?_, ?_, List.nodup_nil, ?_⟩
    · intro entry found
      rw [List.getElem?_eq_none (Nat.le_refl _)] at found
      cases found
    · intro other different
      rcases Nat.lt_or_gt_of_ne different with below | above
      · exact List.getElem?_append_left below
      · rw [List.getElem?_eq_none (Nat.le_of_lt above), List.getElem?_eq_none]
        rw [List.length_append]
        exact above
    · intro other member
      cases member
    · rw [List.countP_append]
      rfl
  | cons first others =>
    rw [list] at taken distinct free
    cases taken
    obtain ⟨entry, found, gone⟩ := free index List.mem_cons_self
    obtain ⟨notMember, distinct⟩ := List.nodup_cons.mp distinct
    refine ⟨⟨entry, found, gone, .inl (List.mem_of_getElem? found)⟩, ?_, ?_, ?_, distinct, rfl⟩
    · intro other same
      rw [found] at same
      cases same
      exact gone
    · intro other _
      rfl
    · intro other member
      exact ⟨ne_of_mem_of_not_mem member notMember, List.mem_cons_of_mem _ member⟩

end GcWorldStop
end NLang.Vm
