import NLang.Library.Runs
import NLang.Vm.WorldStop

/-!
# The rendezvous in the order the executor uses it

A thread registers, opens and closes executing windows, arrives at a safepoint by `EndExecuting` or
`InitiateAndArrive`, then waits or, when its arrival was the last one, collects and completes the stop.
-/

namespace NLang.Vm.Rendezvous
open NLang.Library.Runs

inductive Mode where
  | unregistered
  | idle
  | beginning
  | executing
  | waiting (epoch : Nat)
  | elected
  | collecting
  deriving DecidableEq

structure State where
  stop : GcWorldStop
  locals : Nat → ThreadLocals
  token : Nat → GcThreadToken
  mode : Nat → Mode
  elections : List (Nat × Nat)

def State.initial : State where
  stop := GcWorldStop.initial
  locals := fun _ => ⟨none, 0⟩
  token := fun _ => ⟨0, 0⟩
  mode := fun _ => .unregistered
  elections := []

inductive Action where
  | register (t : Nat)
  | unregister (t : Nat)
  | beginEntry (t : Nat)
  | beginFlip (t : Nat)
  | endExecuting (t : Nat)
  | initiateAndArrive (t : Nat)
  | waitEntry (t : Nat)
  | waitDone (t : Nat)
  | assertAllArrived (t : Nat)
  | complete (t : Nat)

namespace State

def goTo (s : State) (t : Nat) (mode : Mode) : State :=
  { s with mode := Function.update s.mode t mode }

def arrived (s : State) (t : Nat) (result : Bool × GcWorldStop) : State :=
  { s with
    stop := result.2
    mode := Function.update s.mode t (if result.1 then .elected else .idle)
    elections := if result.1 then (result.2.requestEpoch, t) :: s.elections else s.elections }

/-- What a call does: `none` where the thread does not stand at it or sleeps, an error where a tripwire ends
the process. -/
def call (s : State) : Action → Option (Except String State)
  | .register t =>
    if s.mode t = .unregistered then
      some ((s.stop.registerThread (s.locals t)).map fun (token, stop, tls) =>
        { s with
          stop := stop
          locals := Function.update s.locals t tls
          token := Function.update s.token t token
          mode := Function.update s.mode t .idle })
    else none
  | .unregister t =>
    if s.mode t = .idle then
      some ((s.stop.unregisterThread (s.locals t) (s.token t)).map fun (stop, tls) =>
        { s with
          stop := stop
          locals := Function.update s.locals t tls
          mode := Function.update s.mode t .unregistered })
    else none
  | .beginEntry t =>
    if s.mode t = .idle then
      some ((s.stop.beginEntry (s.locals t)).map fun current =>
        if current then s.goTo t .beginning else s)
    else none
  | .beginFlip t =>
    if s.mode t = .beginning then
      (s.stop.beginFlip (s.locals t)).map fun stop => .ok { s.goTo t .executing with stop := stop }
    else none
  | .endExecuting t =>
    if s.mode t = .executing then
      some ((s.stop.endExecuting (s.locals t)).map (s.arrived t))
    else none
  | .initiateAndArrive t =>
    if s.mode t = .executing then
      some ((s.stop.initiateAndArrive (s.locals t)).map (s.arrived t))
    else none
  | .waitEntry t =>
    if s.mode t = .idle then some (.ok (s.goTo t (.waiting s.stop.requestEpoch))) else none
  | .waitDone t =>
    match s.mode t with
    | .waiting epoch => if s.stop.completionSeen epoch then some (.ok (s.goTo t .idle)) else none
    | _ => none
  | .assertAllArrived t =>
    if s.mode t = .elected then some (s.stop.assertAllArrived.map fun _ => s.goTo t .collecting) else none
  | .complete t =>
    if s.mode t = .collecting then some (.ok { s.goTo t .idle with stop := s.stop.complete }) else none

def step (s : State) (action : Action) : Option State :=
  (s.call action).bind Except.toOption

end State

def Mode.Collector (mode : Mode) : Prop := mode = .elected ∨ mode = .collecting

structure Holds (s : State) (t index : Nat) (entry : ThreadEntry) : Prop where
  locals : s.locals t = ⟨some index, entry.generation⟩
  token : s.token t = ⟨entry.generation, index⟩
  found : s.stop.threads[index]? = some entry
  live : entry.live = true
  executing : entry.executing = true ↔ s.mode t = .executing
  issued : 0 < entry.generation

structure Registry (s : State) : Prop where
  holds : ∀ t, s.mode t ≠ .unregistered → ∃ index entry, Holds s t index entry
  outside : ∀ t, s.mode t = .unregistered → (s.locals t).selfEntry = none
  apart : ∀ t t' index, (s.locals t).selfEntry = some index → (s.locals t').selfEntry = some index → t = t'
  owned : ∀ (index : Nat) (entry : ThreadEntry), s.stop.threads[index]? = some entry → entry.live = true →
    ∃ t, (s.locals t).selfEntry = some index
  dead : ∀ entry ∈ s.stop.threads, entry.live = false → entry.executing = false
  free : ∀ index ∈ s.stop.freeIndices, ∃ entry : ThreadEntry,
    s.stop.threads[index]? = some entry ∧ entry.live = false
  distinct : s.stop.freeIndices.Nodup
  issued : 0 < s.stop.nextGeneration

structure Counts (s : State) : Prop where
  executing : s.stop.executingCount = s.stop.threads.countP (·.executing)
  balanced : s.stop.stopActive = true → s.stop.arrived + s.stop.executingCount = s.stop.expected
  elects : s.stop.stopActive = true → s.stop.executingCount = 0 → ∃ t, (s.mode t).Collector
  quiesced : ∀ t, (s.mode t).Collector → s.stop.stopActive = true ∧ s.stop.executingCount = 0
  sole : ∀ t t', (s.mode t).Collector → (s.mode t').Collector → t = t'
  latest : ∀ t, (s.mode t).Collector → s.elections.head? = some (s.stop.requestEpoch, t)
  once : (s.elections.map Prod.fst).Nodup
  past : ∀ epoch ∈ s.elections.map Prod.fst, epoch ≤ s.stop.requestEpoch
  pending : s.stop.stopActive = true → 0 < s.stop.executingCount →
    s.stop.requestEpoch ∉ s.elections.map Prod.fst

theorem registry_initial : Registry State.initial where
  holds t registered := absurd rfl registered
  outside t _ := rfl
  apart t t' index named _ := by cases named
  owned index entry found _ := by cases found
  dead entry member _ := by cases member
  free index member := by cases member
  distinct := List.nodup_nil
  issued := Nat.one_pos

theorem counts_initial : Counts State.initial where
  executing := rfl
  balanced active := by cases active
  elects active _ := by cases active
  quiesced t collector := by rcases collector with mode | mode <;> cases mode
  sole t t' collector _ := by rcases collector with mode | mode <;> cases mode
  latest t collector := by rcases collector with mode | mode <;> cases mode
  once := List.nodup_nil
  past epoch member := by cases member
  pending active _ := by cases active

variable {s s' : State} {t index : Nat} {entry : ThreadEntry}

theorem Holds.named (held : Holds s t index entry) : (s.locals t).selfEntry = some index := by
  rw [held.locals]

theorem Holds.self (held : Holds s t index entry) : s.stop.self (s.locals t) = some entry :=
  GcWorldStop.self_of_entry held.named held.found

theorem Holds.current (held : Holds s t index entry) :
    GcWorldStop.entryIsCurrent (s.locals t) entry = true := by
  simp only [GcWorldStop.entryIsCurrent, held.live, held.locals, BEq.rfl, Bool.and_self]

theorem Holds.bound (held : Holds s t index entry) : index < s.stop.threads.length :=
  (List.getElem?_eq_some_iff.mp held.found).1

theorem Holds.idle (held : Holds s t index entry) (elsewhere : s.mode t ≠ .executing) :
    entry.executing = false := by
  cases bit : entry.executing with
  | false => rfl
  | true => exact absurd (held.executing.mp bit) elsewhere

theorem Registry.flip {bit : Bool} {mode : Mode} (registry : Registry s) (held : Holds s t index entry)
    (threads : s'.stop.threads = s.stop.threads.set index { entry with executing := bit })
    (freeIndices : s'.stop.freeIndices = s.stop.freeIndices)
    (generation : s'.stop.nextGeneration = s.stop.nextGeneration)
    (locals : s'.locals = s.locals) (token : s'.token = s.token)
    (modes : s'.mode = Function.update s.mode t mode)
    (inside : mode ≠ .unregistered) (agrees : bit = true ↔ mode = .executing) : Registry s' where
  holds other registered := by
    by_cases same : other = t
    · subst same
      refine ⟨index, { entry with executing := bit }, ?_⟩
      exact {
        locals := by rw [locals, held.locals]
        token := by rw [token, held.token]
        found := by rw [threads, List.getElem?_set_self held.bound]
        live := held.live
        executing := by rw [modes, Function.update_self]; exact agrees
        issued := held.issued }
    · rw [modes, Function.update_of_ne same] at registered
      obtain ⟨place, own, kept⟩ := registry.holds other registered
      have different : index ≠ place := by
        intro equal
        exact same (registry.apart other t index (equal ▸ kept.named) held.named)
      refine ⟨place, own, ?_⟩
      exact {
        locals := by rw [locals, kept.locals]
        token := by rw [token, kept.token]
        found := by rw [threads, List.getElem?_set_ne different, kept.found]
        live := kept.live
        executing := by rw [modes, Function.update_of_ne same]; exact kept.executing
        issued := kept.issued }
  outside other gone := by
    by_cases same : other = t
    · rw [modes, same, Function.update_self] at gone
      exact absurd gone inside
    · rw [modes, Function.update_of_ne same] at gone
      rw [locals]
      exact registry.outside other gone
  apart := by rw [locals]; exact registry.apart
  owned place own found live := by
    rw [locals]
    by_cases same : index = place
    · exact ⟨t, same ▸ held.named⟩
    · rw [threads, List.getElem?_set_ne same] at found
      exact registry.owned place own found live
  dead own member gone := by
    rw [threads] at member
    rcases List.mem_or_eq_of_mem_set member with old | new
    · exact registry.dead own old gone
    · rw [new, held.live] at gone
      cases gone
  free place member := by
    rw [freeIndices] at member
    obtain ⟨own, found, gone⟩ := registry.free place member
    have different : index ≠ place := by
      rintro rfl
      rw [held.found] at found
      cases found
      rw [held.live] at gone
      cases gone
    exact ⟨own, by rw [threads, List.getElem?_set_ne different, found], gone⟩
  distinct := by rw [freeIndices]; exact registry.distinct
  issued := by rw [generation]; exact registry.issued

theorem Registry.moved {mode : Mode} {stop : GcWorldStop} (registry : Registry s)
    (registered : s.mode t ≠ .unregistered) (elsewhere : s.mode t ≠ .executing)
    (inside : mode ≠ .unregistered) (still : mode ≠ .executing) (threads : stop.threads = s.stop.threads)
    (freeIndices : stop.freeIndices = s.stop.freeIndices)
    (generation : stop.nextGeneration = s.stop.nextGeneration) :
    Registry { s.goTo t mode with stop := stop } := by
  obtain ⟨index, entry, held⟩ := registry.holds t registered
  have bit : entry = { entry with executing := false } := by rw [← held.idle elsewhere]
  have unchanged : s.stop.threads.set index { entry with executing := false } = s.stop.threads := by
    rw [← bit]
    obtain ⟨bound, value⟩ := List.getElem?_eq_some_iff.mp held.found
    rw [← value, List.set_getElem_self bound]
  exact registry.flip held (threads.trans unchanged.symm) freeIndices generation rfl rfl rfl inside
    ⟨fun bit => absurd bit Bool.false_ne_true, fun executing => absurd executing still⟩

def State.registered (s : State) (t index : Nat) (threads : List ThreadEntry) (rest : List Nat) : State :=
  { s with
    stop := { s.stop with
      threads := threads.set index ⟨false, true, s.stop.nextGeneration⟩
      freeIndices := rest
      nextGeneration := s.stop.nextGeneration + 1 }
    locals := Function.update s.locals t ⟨some index, s.stop.nextGeneration⟩
    token := Function.update s.token t ⟨s.stop.nextGeneration, index⟩
    mode := Function.update s.mode t .idle }

def State.unregistered (s : State) (t index : Nat) (entry : ThreadEntry) : State :=
  { s with
    stop := { s.stop with
      threads := s.stop.threads.set index { entry with live := false }
      freeIndices := index :: s.stop.freeIndices }
    locals := Function.update s.locals t { s.locals t with selfEntry := none }
    mode := Function.update s.mode t .unregistered }

theorem Registry.register (registry : Registry s) (outside : s.mode t = .unregistered)
    {threads : List ThreadEntry} {rest : List Nat} (taken : s.stop.takeIndex = (index, threads, rest)) :
    Registry (s.registered t index threads rest) := by
  obtain ⟨⟨vacant, atIndex, _⟩, wasDead, elsewhere, kept, restDistinct, _⟩ :=
    GcWorldStop.takeIndex_spec registry.free registry.distinct taken
  have bound : index < threads.length := (List.getElem?_eq_some_iff.mp atIndex).1
  have others : ∀ other, other ≠ index →
      (threads.set index ⟨false, true, s.stop.nextGeneration⟩)[other]? = s.stop.threads[other]? := by
    intro other different
    rw [List.getElem?_set_ne different.symm, elsewhere other different]
  have unnamed : ∀ other, (s.locals other).selfEntry ≠ some index := by
    intro other named
    have registered : s.mode other ≠ .unregistered := by
      intro gone
      rw [registry.outside other gone] at named
      cases named
    obtain ⟨place, own, held⟩ := registry.holds other registered
    rw [held.named] at named
    cases named
    have gone := wasDead own held.found
    rw [held.live] at gone
    cases gone
  exact {
    holds := by
      intro other registered
      by_cases same : other = t
      · subst same
        refine ⟨index, ⟨false, true, s.stop.nextGeneration⟩, ?_⟩
        exact {
          locals := Function.update_self ..
          token := Function.update_self ..
          found := List.getElem?_set_self bound
          live := rfl
          executing := by
            simp only [State.registered, Function.update_self]
            exact ⟨fun bit => absurd bit Bool.false_ne_true, fun mode => by cases mode⟩
          issued := registry.issued }
      · simp only [State.registered, Function.update_of_ne same] at registered
        obtain ⟨place, own, held⟩ := registry.holds other registered
        have different : place ≠ index := fun equal => unnamed other (equal ▸ held.named)
        refine ⟨place, own, ?_⟩
        exact {
          locals := by simp only [State.registered, Function.update_of_ne same, held.locals]
          token := by simp only [State.registered, Function.update_of_ne same, held.token]
          found := (others place different).trans held.found
          live := held.live
          executing := by simp only [State.registered, Function.update_of_ne same]; exact held.executing
          issued := held.issued }
    outside := by
      intro other gone
      by_cases same : other = t
      · simp only [State.registered, same, Function.update_self] at gone
        cases gone
      · simp only [State.registered, Function.update_of_ne same] at gone ⊢
        exact registry.outside other gone
    apart := by
      intro first second place firstNamed secondNamed
      by_cases one : first = t <;> by_cases two : second = t
      · rw [one, two]
      · simp only [State.registered, one, Function.update_self, Function.update_of_ne two] at firstNamed secondNamed
        cases firstNamed
        exact absurd secondNamed (unnamed second)
      · simp only [State.registered, two, Function.update_self, Function.update_of_ne one] at firstNamed secondNamed
        cases secondNamed
        exact absurd firstNamed (unnamed first)
      · simp only [State.registered, Function.update_of_ne one, Function.update_of_ne two] at firstNamed secondNamed
        exact registry.apart first second place firstNamed secondNamed
    owned := by
      intro place own found live
      by_cases same : place = index
      · exact ⟨t, by simp only [State.registered, Function.update_self, same]⟩
      · obtain ⟨owner, named⟩ := registry.owned place own ((others place same).symm.trans found) live
        have different : owner ≠ t := by
          rintro rfl
          rw [registry.outside owner outside] at named
          cases named
        exact ⟨owner, by simp only [State.registered, Function.update_of_ne different, named]⟩
    dead := by
      intro own member gone
      obtain ⟨place, found⟩ := List.mem_iff_getElem?.mp member
      by_cases same : place = index
      · subst same
        rw [show (s.registered t place threads rest).stop.threads[place]? = _ from List.getElem?_set_self bound] at found
        cases found
        cases gone
      · exact registry.dead own (List.mem_of_getElem? ((others place same).symm.trans found)) gone
    free := by
      intro place member
      obtain ⟨different, wasFree⟩ := kept place member
      obtain ⟨own, found, gone⟩ := registry.free place wasFree
      exact ⟨own, (others place different).trans found, gone⟩
    distinct := restDistinct
    issued := Nat.succ_pos _ }

theorem Registry.unregister (registry : Registry s) (held : Holds s t index entry)
    (stopped : entry.executing = false) : Registry (s.unregistered t index entry) := by
  have others : ∀ other, other ≠ index →
      (s.stop.threads.set index { entry with live := false })[other]? = s.stop.threads[other]? :=
    fun other different => List.getElem?_set_ne different.symm
  have here : (s.stop.threads.set index { entry with live := false })[index]? = some { entry with live := false } :=
    List.getElem?_set_self held.bound
  exact {
    holds := by
      intro other registered
      have same : other ≠ t := by
        rintro rfl
        exact registered (Function.update_self ..)
      simp only [State.unregistered, Function.update_of_ne same] at registered
      obtain ⟨place, own, kept⟩ := registry.holds other registered
      have different : place ≠ index := by
        intro equal
        exact same (registry.apart other t index (equal ▸ kept.named) held.named)
      refine ⟨place, own, ?_⟩
      exact {
        locals := by simp only [State.unregistered, Function.update_of_ne same, kept.locals]
        token := kept.token
        found := (others place different).trans kept.found
        live := kept.live
        executing := by simp only [State.unregistered, Function.update_of_ne same]; exact kept.executing
        issued := kept.issued }
    outside := by
      intro other gone
      by_cases same : other = t
      · simp only [State.unregistered, same, Function.update_self]
      · simp only [State.unregistered, Function.update_of_ne same] at gone ⊢
        exact registry.outside other gone
    apart := by
      intro first second place firstNamed secondNamed
      by_cases one : first = t
      · simp only [State.unregistered, one, Function.update_self] at firstNamed
        cases firstNamed
      by_cases two : second = t
      · simp only [State.unregistered, two, Function.update_self] at secondNamed
        cases secondNamed
      simp only [State.unregistered, Function.update_of_ne one, Function.update_of_ne two] at firstNamed secondNamed
      exact registry.apart first second place firstNamed secondNamed
    owned := by
      intro place own found live
      by_cases same : place = index
      · subst same
        rw [show (s.unregistered t place entry).stop.threads[place]? = _ from here] at found
        cases found
        cases live
      · obtain ⟨owner, named⟩ := registry.owned place own ((others place same).symm.trans found) live
        have different : owner ≠ t := by
          rintro rfl
          rw [held.named] at named
          cases named
          exact same rfl
        exact ⟨owner, by simp only [State.unregistered, Function.update_of_ne different, named]⟩
    dead := by
      intro own member gone
      rcases List.mem_or_eq_of_mem_set member with old | new
      · exact registry.dead own old gone
      · rw [new]
        exact stopped
    free := by
      intro place member
      rcases List.mem_cons.mp member with rfl | wasFree
      · exact ⟨_, here, rfl⟩
      · obtain ⟨own, found, gone⟩ := registry.free place wasFree
        have different : place ≠ index := by
          rintro rfl
          rw [held.found] at found
          cases found
          rw [held.live] at gone
          cases gone
        exact ⟨own, (others place different).trans found, gone⟩
    distinct := by
      refine List.nodup_cons.mpr ⟨?_, registry.distinct⟩
      intro member
      obtain ⟨own, found, gone⟩ := registry.free index member
      rw [held.found] at found
      cases found
      rw [held.live] at gone
      cases gone
    issued := registry.issued }

theorem Mode.collector_elected : Mode.elected.Collector := .inl rfl

theorem Counts.keep (counts : Counts s)
    (stop : s'.stop.executingCount = s.stop.executingCount ∧ s'.stop.stopActive = s.stop.stopActive ∧
      s'.stop.arrived = s.stop.arrived ∧ s'.stop.expected = s.stop.expected ∧
      s'.stop.requestEpoch = s.stop.requestEpoch)
    (threads : s'.stop.threads.countP (·.executing) = s.stop.threads.countP (·.executing))
    (elections : s'.elections = s.elections)
    (collectors : ∀ t, (s'.mode t).Collector ↔ (s.mode t).Collector) : Counts s' := by
  obtain ⟨executing, active, arrived, expected, epoch⟩ := stop
  exact {
    executing := by rw [executing, threads]; exact counts.executing
    balanced := by rw [active, arrived, executing, expected]; exact counts.balanced
    elects := by
      rw [active, executing]
      intro inFlight none
      obtain ⟨t, collector⟩ := counts.elects inFlight none
      exact ⟨t, (collectors t).mpr collector⟩
    quiesced := by
      intro t collector
      rw [active, executing]
      exact counts.quiesced t ((collectors t).mp collector)
    sole := by
      intro t t' one two
      exact counts.sole t t' ((collectors t).mp one) ((collectors t').mp two)
    latest := by
      intro t collector
      rw [elections, epoch]
      exact counts.latest t ((collectors t).mp collector)
    once := by rw [elections]; exact counts.once
    past := by rw [elections, epoch]; exact counts.past
    pending := by rw [active, executing, elections, epoch]; exact counts.pending }

theorem collectors_goTo {mode : Mode} (keeps : mode.Collector ↔ (s.mode t).Collector) (other : Nat) :
    (Function.update s.mode t mode other).Collector ↔ (s.mode other).Collector := by
  by_cases same : other = t
  · rw [same, Function.update_self]
    exact keeps
  · rw [Function.update_of_ne same]

theorem Counts.positive (counts : Counts s) (held : Holds s t index entry) (window : s.mode t = .executing) :
    0 < s.stop.executingCount := by
  rw [counts.executing]
  exact List.countP_pos_iff.mpr ⟨entry, List.mem_of_getElem? held.found, held.executing.mpr window⟩

theorem countP_flipOff (held : Holds s t index entry) (window : s.mode t = .executing) :
    (s.stop.threads.set index { entry with executing := false }).countP (·.executing) =
      s.stop.threads.countP (·.executing) - 1 := by
  obtain ⟨bound, value⟩ := List.getElem?_eq_some_iff.mp held.found
  rw [List.countP_set bound, value, if_pos (held.executing.mpr window), if_neg Bool.false_ne_true]
  rfl

theorem countP_flipOn (held : Holds s t index entry) (closed : entry.executing = false) :
    (s.stop.threads.set index { entry with executing := true }).countP (·.executing) =
      s.stop.threads.countP (·.executing) + 1 := by
  obtain ⟨bound, value⟩ := List.getElem?_eq_some_iff.mp held.found
  rw [List.countP_set bound, value, closed, if_neg Bool.false_ne_true, if_pos rfl]
  rfl

theorem Counts.noCollector (counts : Counts s) (held : Holds s t index entry) (window : s.mode t = .executing)
    (other : Nat) : ¬ (s.mode other).Collector := by
  intro collector
  have positive := counts.positive held window
  rw [(counts.quiesced other collector).2] at positive
  exact Nat.lt_irrefl 0 positive

theorem Counts.openStop (counts : Counts s) (held : Holds s t index entry) (window : s.mode t = .executing) :
    Counts { s with stop := s.stop.openStop } ∧ s.stop.openStop.stopActive = true := by
  have positive := counts.positive held window
  unfold GcWorldStop.openStop
  by_cases inFlight : s.stop.stopActive = true
  · rw [if_pos inFlight]
    exact ⟨counts, inFlight⟩
  · rw [if_neg inFlight]
    refine ⟨?_, rfl⟩
    exact {
      executing := counts.executing
      balanced := fun _ => Nat.zero_add _
      elects := fun _ none => absurd none (Nat.ne_of_gt positive)
      quiesced := fun other collector => absurd collector (counts.noCollector held window other)
      sole := counts.sole
      latest := fun other collector => absurd collector (counts.noCollector held window other)
      once := counts.once
      past := fun epoch member => Nat.le_succ_of_le (counts.past epoch member)
      pending := by
        intro _ _ member
        exact Nat.not_succ_le_self _ (counts.past _ member) }

theorem Counts.arrive (counts : Counts s) (held : Holds s t index entry) (window : s.mode t = .executing)
    (inFlight : s.stop.stopActive = true) : Counts (s.arrived t (s.stop.flipOff (s.locals t)).arrive) := by
  have positive := counts.positive held window
  have balance := counts.balanced inFlight
  have nobody := counts.noCollector held window
  have pending := counts.pending inFlight positive
  have others : ∀ mode other, (Function.update s.mode t mode other).Collector → other = t := by
    intro mode other collector
    by_contra different
    rw [Function.update_of_ne different] at collector
    exact nobody other collector
  rw [GcWorldStop.flipOff_of_entry held.named held.found]
  have count : s.stop.executingCount - 1 =
      (s.stop.threads.set index { entry with executing := false }).countP (·.executing) := by
    rw [countP_flipOff held window, counts.executing]
  have moved : s.stop.arrived + 1 + (s.stop.executingCount - 1) = s.stop.expected := by omega
  by_cases last : s.stop.arrived + 1 = s.stop.expected
  · have emptied : s.stop.executingCount - 1 = 0 := by omega
    have elected : (s.stop.arrived + 1 == s.stop.expected) = true := beq_iff_eq.mpr last
    simp only [State.arrived, GcWorldStop.arrive, elected, if_true]
    exact {
      executing := count
      balanced := fun _ => moved
      elects := fun _ _ => ⟨t, by simp only [Function.update_self]; exact Mode.collector_elected⟩
      quiesced := fun _ _ => ⟨inFlight, emptied⟩
      sole := fun one two first second => (others _ one first).trans (others _ two second).symm
      latest := by
        intro other collector
        rw [others _ other collector, List.head?_cons]
      once := List.nodup_cons.mpr ⟨pending, counts.once⟩
      past := by
        intro epoch member
        rcases List.mem_cons.mp member with rfl | old
        · exact Nat.le_refl _
        · exact counts.past epoch old
      pending := fun _ some => absurd emptied (Nat.ne_of_gt some) }
  · have waits : (s.stop.arrived + 1 == s.stop.expected) = false := beq_eq_false_iff_ne.mpr last
    simp only [State.arrived, GcWorldStop.arrive, waits, Bool.false_eq_true, if_false]
    have outside : ∀ other, ¬ (Function.update s.mode t Mode.idle other).Collector := by
      intro other collector
      rw [others _ other collector, Function.update_self] at collector
      rcases collector with mode | mode <;> cases mode
    exact {
      executing := count
      balanced := fun _ => moved
      elects := fun _ none => absurd none (by simp only; omega)
      quiesced := fun other collector => absurd collector (outside other)
      sole := fun one _ first _ => absurd first (outside one)
      latest := fun other collector => absurd collector (outside other)
      once := counts.once
      past := counts.past
      pending := fun _ _ => pending }

theorem Counts.leave (counts : Counts s) (held : Holds s t index entry) (window : s.mode t = .executing)
    (clear : s.stop.stopActive = false) : Counts (s.arrived t (false, s.stop.flipOff (s.locals t))) := by
  rw [GcWorldStop.flipOff_of_entry held.named held.found]
  simp only [State.arrived, Bool.false_eq_true, if_false]
  have idle : ∀ active, s.stop.stopActive = active → active = true → False := by
    rintro active rfl on
    rw [clear] at on
    cases on
  have outside : ∀ other, ¬ (Function.update s.mode t Mode.idle other).Collector := by
    intro other collector
    by_cases same : other = t
    · rw [same, Function.update_self] at collector
      rcases collector with mode | mode <;> cases mode
    · rw [Function.update_of_ne same] at collector
      exact counts.noCollector held window other collector
  exact {
    executing := by rw [countP_flipOff held window, counts.executing]
    balanced := fun active => (idle _ rfl active).elim
    elects := fun active => (idle _ rfl active).elim
    quiesced := fun other collector => absurd collector (outside other)
    sole := fun one _ first _ => absurd first (outside one)
    latest := fun other collector => absurd collector (outside other)
    once := counts.once
    past := counts.past
    pending := fun active => (idle _ rfl active).elim }

theorem Counts.begin (counts : Counts s) (held : Holds s t index entry) (closed : entry.executing = false)
    (clear : s.stop.stopActive = false) (stop' : GcWorldStop)
    (flipped : s.stop.beginFlip (s.locals t) = some stop') : Counts { s.goTo t .executing with stop := stop' } := by
  rw [GcWorldStop.beginFlip_of_entry held.named held.found clear] at flipped
  cases flipped
  have idle : s.stop.stopActive = true → False := by
    rw [clear]
    exact Bool.false_ne_true
  have outside : ∀ other, ¬ (Function.update s.mode t Mode.executing other).Collector := by
    intro other collector
    by_cases same : other = t
    · rw [same, Function.update_self] at collector
      rcases collector with mode | mode <;> cases mode
    · rw [Function.update_of_ne same] at collector
      exact idle (counts.quiesced other collector).1
  exact {
    executing := by rw [countP_flipOn held closed, counts.executing]
    balanced := fun active => (idle active).elim
    elects := fun active => (idle active).elim
    quiesced := fun other collector => absurd collector (outside other)
    sole := fun one _ first _ => absurd first (outside one)
    latest := fun other collector => absurd collector (outside other)
    once := counts.once
    past := counts.past
    pending := fun active => (idle active).elim }

theorem Counts.complete (counts : Counts s) (collector : (s.mode t).Collector) :
    Counts { s.goTo t .idle with stop := s.stop.complete } := by
  have outside : ∀ other, ¬ (Function.update s.mode t Mode.idle other).Collector := by
    intro other second
    by_cases same : other = t
    · rw [same, Function.update_self] at second
      rcases second with mode | mode <;> cases mode
    · rw [Function.update_of_ne same] at second
      exact same (counts.sole other t second collector)
  exact {
    executing := counts.executing
    balanced := fun active => absurd active Bool.false_ne_true
    elects := fun active => absurd active Bool.false_ne_true
    quiesced := fun other second => absurd second (outside other)
    sole := fun one _ first _ => absurd first (outside one)
    latest := fun other collector => absurd collector (outside other)
    once := counts.once
    past := counts.past
    pending := fun active => absurd active Bool.false_ne_true }

structure Invariant (s : State) : Prop where
  registry : Registry s
  counts : Counts s

theorem Invariant.goTo {mode : Mode} (inv : Invariant s) (registered : s.mode t ≠ .unregistered)
    (elsewhere : s.mode t ≠ .executing) (inside : mode ≠ .unregistered) (still : mode ≠ .executing)
    (keeps : mode.Collector ↔ (s.mode t).Collector) : Invariant (s.goTo t mode) where
  registry := inv.registry.moved registered elsewhere inside still rfl rfl rfl
  counts := inv.counts.keep ⟨rfl, rfl, rfl, rfl, rfl⟩ rfl rfl (collectors_goTo keeps)

theorem Registry.arrived (registry : Registry s) (held : Holds s t index entry) {stop : GcWorldStop}
    (threads : stop.threads = s.stop.threads) (freeIndices : stop.freeIndices = s.stop.freeIndices)
    (generation : stop.nextGeneration = s.stop.nextGeneration) {result : Bool × GcWorldStop}
    (after : result.2.threads = (stop.flipOff (s.locals t)).threads ∧
      result.2.freeIndices = stop.freeIndices ∧ result.2.nextGeneration = stop.nextGeneration) :
    Registry (s.arrived t result) := by
  obtain ⟨bits, list, next⟩ := after
  have found : stop.threads[index]? = some entry := threads ▸ held.found
  rw [GcWorldStop.flipOff_of_entry held.named found] at bits
  refine registry.flip held (bits.trans (by rw [threads])) (list.trans freeIndices) (next.trans generation)
    rfl rfl rfl ?_ ?_
  · split <;> exact Mode.noConfusion
  · constructor
    · intro bit
      cases bit
    · intro mode
      split at mode <;> cases mode

theorem State.registerThread_outside (registry : Registry s) (outside : s.mode t = .unregistered) :
    ∃ index threads rest, s.stop.takeIndex = (index, threads, rest) ∧
      s.call (.register t) = some (.ok (s.registered t index threads rest)) := by
  have taken : s.stop.takeIndex = (s.stop.takeIndex.1, s.stop.takeIndex.2.1, s.stop.takeIndex.2.2) := rfl
  refine ⟨_, _, _, taken, ?_⟩
  have unnamed : s.stop.self (s.locals t) = none := by
    simp only [GcWorldStop.self, registry.outside t outside, Option.bind_none]
  simp only [State.call, outside, if_true, GcWorldStop.registerThread, unnamed, Option.any_none,
    Bool.false_eq_true, if_false]
  rfl

theorem State.unregisterThread_held (held : Holds s t index entry) (idle : s.mode t = .idle) :
    s.call (.unregister t) = some (.ok (s.unregistered t index entry)) := by
  have closed : entry.executing = false := held.idle (by rw [idle]; exact Mode.noConfusion)
  have issued : ¬ entry.generation = 0 := Nat.ne_of_gt held.issued
  simp only [State.call, idle, if_true, GcWorldStop.unregisterThread, held.token, held.found, held.live, closed,
    if_neg issued, held.named, bne_self_eq_false, Bool.not_true, Bool.or_self, Bool.false_eq_true, if_false,
    State.unregistered]
  rfl

theorem endExecuting_held (held : Holds s t index entry) (window : s.mode t = .executing) :
    s.stop.endExecuting (s.locals t) = .ok (if s.stop.stopActive then (s.stop.flipOff (s.locals t)).arrive
      else (false, s.stop.flipOff (s.locals t))) := by
  simp only [GcWorldStop.endExecuting, held.self, held.current, held.executing.mpr window, Bool.not_true,
    Bool.false_eq_true, if_false]
  rfl

theorem initiateAndArrive_held (held : Holds s t index entry) (window : s.mode t = .executing) :
    s.stop.initiateAndArrive (s.locals t) = .ok (s.stop.openStop.flipOff (s.locals t)).arrive := by
  simp only [GcWorldStop.initiateAndArrive, held.self, held.current, held.executing.mpr window, Bool.not_true,
    Bool.false_eq_true, if_false]

theorem Invariant.call (inv : Invariant s) {action : Action} {result : Except String State}
    (made : s.call action = some result) : ∃ s', result = .ok s' ∧ Invariant s' := by
  have registry := inv.registry
  have counts := inv.counts
  cases action with
  | register t =>
    have outside : s.mode t = .unregistered := by
      by_contra inside
      simp only [State.call, if_neg inside] at made
      cases made
    obtain ⟨index, threads, rest, taken, answer⟩ := State.registerThread_outside registry outside
    rw [answer] at made
    cases made
    refine ⟨_, rfl, registry.register outside taken, ?_⟩
    obtain ⟨⟨vacant, atIndex, gone, source⟩, _, _, _, _, unchanged⟩ :=
      GcWorldStop.takeIndex_spec registry.free registry.distinct taken
    have off : vacant.executing = false := by
      rcases source with old | rfl
      · exact registry.dead vacant old gone
      · rfl
    obtain ⟨bound, value⟩ := List.getElem?_eq_some_iff.mp atIndex
    refine counts.keep ⟨rfl, rfl, rfl, rfl, rfl⟩ ?_ rfl (collectors_goTo (by simp [Mode.Collector, outside]))
    simp only [State.registered]
    rw [List.countP_set bound, value, off, ← unchanged]
    rfl
  | unregister t =>
    have idle : s.mode t = .idle := by
      by_contra elsewhere
      simp only [State.call, if_neg elsewhere] at made
      cases made
    obtain ⟨index, entry, held⟩ := registry.holds t (by rw [idle]; exact Mode.noConfusion)
    have closed : entry.executing = false := held.idle (by rw [idle]; exact Mode.noConfusion)
    rw [State.unregisterThread_held held idle] at made
    cases made
    refine ⟨_, rfl, registry.unregister held closed, ?_⟩
    refine counts.keep ⟨rfl, rfl, rfl, rfl, rfl⟩ ?_ rfl (collectors_goTo (by simp [Mode.Collector, idle]))
    obtain ⟨bound, value⟩ := List.getElem?_eq_some_iff.mp held.found
    simp only [State.unregistered]
    rw [List.countP_set bound, value, closed]
    rfl
  | beginEntry t =>
    have idle : s.mode t = .idle := by
      by_contra elsewhere
      simp only [State.call, if_neg elsewhere] at made
      cases made
    obtain ⟨index, entry, held⟩ := registry.holds t (by rw [idle]; exact Mode.noConfusion)
    simp only [State.call, idle, if_true, GcWorldStop.beginEntry, held.self, held.current] at made
    cases made
    refine ⟨_, rfl, inv.goTo ?_ ?_ Mode.noConfusion Mode.noConfusion (by simp [Mode.Collector, idle])⟩ <;>
      rw [idle] <;> exact Mode.noConfusion
  | beginFlip t =>
    have beginning : s.mode t = .beginning := by
      by_contra elsewhere
      simp only [State.call, if_neg elsewhere] at made
      cases made
    obtain ⟨index, entry, held⟩ := registry.holds t (by rw [beginning]; exact Mode.noConfusion)
    have closed : entry.executing = false := held.idle (by rw [beginning]; exact Mode.noConfusion)
    simp only [State.call, beginning, if_true] at made
    cases flipped : s.stop.beginFlip (s.locals t) with
    | none =>
      rw [flipped] at made
      cases made
    | some stop =>
      rw [flipped] at made
      cases made
      have clear : s.stop.stopActive = false := by
        cases active : s.stop.stopActive with
        | false => rfl
        | true =>
          simp only [GcWorldStop.beginFlip, active, if_true] at flipped
          cases flipped
      refine ⟨_, rfl, ?_, counts.begin held closed clear stop flipped⟩
      rw [GcWorldStop.beginFlip_of_entry held.named held.found clear] at flipped
      cases flipped
      exact registry.flip held rfl rfl rfl rfl rfl rfl Mode.noConfusion (iff_of_true rfl rfl)
  | endExecuting t =>
    have window : s.mode t = .executing := by
      by_contra elsewhere
      simp only [State.call, if_neg elsewhere] at made
      cases made
    obtain ⟨index, entry, held⟩ := registry.holds t (by rw [window]; exact Mode.noConfusion)
    simp only [State.call, window, if_true, endExecuting_held held window] at made
    cases made
    refine ⟨_, rfl, ?_, ?_⟩
    · refine registry.arrived held rfl rfl rfl ?_
      split <;> exact ⟨rfl, rfl, rfl⟩
    · cases active : s.stop.stopActive with
      | true => exact counts.arrive held window active
      | false => exact counts.leave held window active
  | initiateAndArrive t =>
    have window : s.mode t = .executing := by
      by_contra elsewhere
      simp only [State.call, if_neg elsewhere] at made
      cases made
    obtain ⟨index, entry, held⟩ := registry.holds t (by rw [window]; exact Mode.noConfusion)
    simp only [State.call, window, if_true, initiateAndArrive_held held window] at made
    cases made
    obtain ⟨threads, freeIndices, generation⟩ := @GcWorldStop.openStop_table s.stop
    obtain ⟨opened, active⟩ := counts.openStop held window
    refine ⟨_, rfl, registry.arrived held threads freeIndices generation ⟨rfl, rfl, rfl⟩, ?_⟩
    have same : Holds { s with stop := s.stop.openStop } t index entry :=
      { held with found := threads ▸ held.found }
    exact opened.arrive same window active
  | waitEntry t =>
    have idle : s.mode t = .idle := by
      by_contra elsewhere
      simp only [State.call, if_neg elsewhere] at made
      cases made
    simp only [State.call, idle, if_true] at made
    cases made
    refine ⟨_, rfl, inv.goTo ?_ ?_ Mode.noConfusion Mode.noConfusion (by simp [Mode.Collector, idle])⟩ <;>
      rw [idle] <;> exact Mode.noConfusion
  | waitDone t =>
    cases mode : s.mode t with
    | waiting epoch =>
      simp only [State.call, mode] at made
      by_cases seen : s.stop.completionSeen epoch = true
      · rw [if_pos seen] at made
        cases made
        refine ⟨_, rfl, inv.goTo ?_ ?_ Mode.noConfusion Mode.noConfusion (by simp [Mode.Collector, mode])⟩ <;>
          rw [mode] <;> exact Mode.noConfusion
      · rw [if_neg seen] at made
        cases made
    | _ =>
      simp only [State.call, mode] at made
      cases made
  | assertAllArrived t =>
    have elected : s.mode t = .elected := by
      by_contra elsewhere
      simp only [State.call, if_neg elsewhere] at made
      cases made
    obtain ⟨active, emptied⟩ := counts.quiesced t (.inl elected)
    have balance := counts.balanced active
    rw [emptied, Nat.add_zero] at balance
    simp only [State.call, elected, if_true, GcWorldStop.assertAllArrived, active, balance, bne_self_eq_false,
      Bool.not_true, Bool.or_self, Bool.false_eq_true, if_false] at made
    cases made
    refine ⟨_, rfl, inv.goTo ?_ ?_ Mode.noConfusion Mode.noConfusion (by simp [Mode.Collector, elected])⟩ <;>
      rw [elected] <;> exact Mode.noConfusion
  | complete t =>
    have collecting : s.mode t = .collecting := by
      by_contra elsewhere
      simp only [State.call, if_neg elsewhere] at made
      cases made
    simp only [State.call, collecting, if_true] at made
    cases made
    refine ⟨_, rfl, registry.moved ?_ ?_ Mode.noConfusion Mode.noConfusion rfl rfl rfl,
      counts.complete (.inr collecting)⟩ <;>
      rw [collecting] <;> exact Mode.noConfusion

theorem Invariant.reached (run : Run State.step (fun _ _ => True) State.initial s) : Invariant s := by
  refine run.invariant Invariant ⟨registry_initial, counts_initial⟩ ?_
  intro before action after inv _ taken
  obtain ⟨result, made, converted⟩ := Option.bind_eq_some_iff.mp taken
  obtain ⟨next, rfl, kept⟩ := inv.call made
  cases converted
  exact kept

structure Safe (s : State) : Prop where
  electedOnce : (s.elections.map Prod.fst).Nodup
  soleCollector : ∀ t t', (s.mode t).Collector → (s.mode t').Collector → t = t'
  collectorOfEpoch : ∀ t, (s.mode t).Collector → s.elections.head? = some (s.stop.requestEpoch, t)
  quiesced : ∀ t, (s.mode t).Collector → s.stop.stopActive = true ∧
    (∀ entry ∈ s.stop.threads, entry.executing = false) ∧ ∀ t', s.mode t' ≠ .executing
  member : ∀ t, s.mode t ≠ .unregistered → ∃ entry, s.stop.self (s.locals t) = some entry ∧
    entry.live = true ∧ (entry.executing = true ↔ s.mode t = .executing)
  owned : ∀ (index : Nat) (entry : ThreadEntry), s.stop.threads[index]? = some entry → entry.live = true →
    ∃ t, (s.mode t ≠ .unregistered ∧ (s.locals t).selfEntry = some index) ∧
      ∀ t', (s.locals t').selfEntry = some index → t' = t
  executingCount : s.stop.executingCount = s.stop.threads.countP fun entry => entry.live && entry.executing
  arrived : s.stop.stopActive = true → s.stop.arrived + s.stop.executingCount = s.stop.expected
  elects : s.stop.stopActive = true → (∀ t, s.mode t ≠ .executing) → ∃ t, (s.mode t).Collector
  neverTrips : ∀ action what, s.call action ≠ some (.error what)

theorem Invariant.noBits (inv : Invariant s) (empty : s.stop.executingCount = 0) :
    ∀ entry ∈ s.stop.threads, entry.executing = false := by
  intro entry member
  have none := inv.counts.executing.symm.trans empty
  exact Bool.eq_false_iff.mpr (List.countP_eq_zero.mp none entry member)

theorem Invariant.noneExecuting (inv : Invariant s) (none : ∀ t, s.mode t ≠ .executing) :
    s.stop.executingCount = 0 := by
  rw [inv.counts.executing]
  refine List.countP_eq_zero.mpr fun entry member bit => ?_
  obtain ⟨index, found⟩ := List.mem_iff_getElem?.mp member
  have live : entry.live = true := by
    cases alive : entry.live with
    | true => rfl
    | false => rw [inv.registry.dead entry member alive] at bit; cases bit
  obtain ⟨t, named⟩ := inv.registry.owned index entry found live
  have registered : s.mode t ≠ .unregistered := by
    intro outside
    rw [inv.registry.outside t outside] at named
    cases named
  obtain ⟨place, own, held⟩ := inv.registry.holds t registered
  rw [held.named] at named
  cases named
  rw [held.found] at found
  cases found
  exact none t (held.executing.mp bit)

theorem Invariant.safe (inv : Invariant s) : Safe s where
  electedOnce := inv.counts.once
  soleCollector := inv.counts.sole
  collectorOfEpoch := inv.counts.latest
  quiesced t collector := by
    obtain ⟨active, empty⟩ := inv.counts.quiesced t collector
    refine ⟨active, inv.noBits empty, ?_⟩
    intro other window
    obtain ⟨index, entry, held⟩ := inv.registry.holds other (by rw [window]; exact Mode.noConfusion)
    have bit := inv.noBits empty entry (List.mem_of_getElem? held.found)
    rw [held.executing.mpr window] at bit
    cases bit
  member t registered := by
    obtain ⟨index, entry, held⟩ := inv.registry.holds t registered
    exact ⟨entry, held.self, held.live, held.executing⟩
  owned index entry found live := by
    obtain ⟨t, named⟩ := inv.registry.owned index entry found live
    refine ⟨t, ⟨?_, named⟩, fun other same => inv.registry.apart other t index same named⟩
    intro outside
    rw [inv.registry.outside t outside] at named
    cases named
  executingCount := by
    rw [inv.counts.executing]
    refine List.countP_congr fun entry member => ?_
    cases alive : entry.live with
    | true => rw [Bool.true_and]
    | false => rw [inv.registry.dead entry member alive, Bool.false_and]
  arrived := inv.counts.balanced
  elects active none := inv.counts.elects active (inv.noneExecuting none)
  neverTrips action what made := by
    obtain ⟨next, same, _⟩ := inv.call made
    cases same

/-- Every state that any interleaving of the threads' calls reaches is safe. -/
theorem rendezvous_safe (run : Run State.step (fun _ _ => True) State.initial s) : Safe s :=
  (Invariant.reached run).safe

def leavingElects : List Action :=
  [.register 0, .register 1, .beginEntry 0, .beginFlip 0, .beginEntry 1, .beginFlip 1, .initiateAndArrive 0,
    .waitEntry 0, .endExecuting 1]

def leavingElected : State := (leavingElects.foldlM State.step State.initial).getD State.initial

theorem rendezvous_safe_leaving : leavingElected.mode 1 = .elected ∧ Safe leavingElected :=
  ⟨rfl, rendezvous_safe (Run.refl.actions (fun _ _ _ => trivial)
    (show leavingElects.foldlM State.step State.initial = some leavingElected from rfl))⟩

end NLang.Vm.Rendezvous
