import NLang.Library.Runs
import NLang.Vm.WorldStop

/-!
# Whose registration the registry answers for

Threads call the registry in any order, with any ticket, and `Reset` may come between any two calls.
-/

namespace NLang.Vm.RegistryIdentity
open NLang.Library.Runs

structure State where
  stop : GcWorldStop
  locals : Nat → ThreadLocals
  own : Nat → Option GcThreadToken
  asleep : Nat → Bool

def State.initial : State where
  stop := GcWorldStop.initial
  locals := fun _ => ⟨none, 0⟩
  own := fun _ => none
  asleep := fun _ => false

inductive Action where
  | register (t : Nat)
  | unregister (t : Nat) (token : GcThreadToken)
  | reset
  | beginEntry (t : Nat)
  | beginFlip (t : Nat)
  | endExecuting (t : Nat)
  | initiateAndArrive (t : Nat)
  | complete

namespace State

def caller : Action → Option Nat
  | .register t | .unregister t _ | .beginEntry t | .endExecuting t | .initiateAndArrive t => some t
  | .reset | .beginFlip _ | .complete => none

/-- One call; a tripwire ends the process, so no state follows it. -/
def step (s : State) (action : Action) : Option State :=
  if (caller action).any s.asleep then none
  else match action with
  | .register t => ((s.stop.registerThread (s.locals t)).map fun (token, stop, tls) =>
    { s with
      stop := stop
      locals := Function.update s.locals t tls
      own := Function.update s.own t (some token) }).toOption
  | .unregister t token => ((s.stop.unregisterThread (s.locals t) token).map fun (stop, tls) =>
    { s with
      stop := stop
      locals := Function.update s.locals t tls
      own := fun other => if s.own other = some token then none else s.own other }).toOption
  | .reset => some { s with stop := s.stop.reset, own := fun _ => none }
  | .beginEntry t => ((s.stop.beginEntry (s.locals t)).map fun current =>
    { s with asleep := Function.update s.asleep t current }).toOption
  | .beginFlip t =>
    if s.asleep t then (s.stop.beginFlip (s.locals t)).map fun stop =>
      { s with stop := stop, asleep := Function.update s.asleep t false }
    else none
  | .endExecuting t => ((s.stop.endExecuting (s.locals t)).map fun result =>
    { s with stop := result.2 }).toOption
  | .initiateAndArrive t => ((s.stop.initiateAndArrive (s.locals t)).map fun result =>
    { s with stop := result.2 }).toOption
  | .complete => some { s with stop := s.stop.complete }

end State

structure AnswersForOwn (s : State) (t : Nat) : Prop where
  registered : s.stop.isRegistered (s.locals t) = true ↔ s.own t ≠ none
  executing : s.stop.executingSelf (s.locals t) = true ↔ ∃ token entry, s.own t = some token ∧
    s.stop.threads[token.index]? = some entry ∧ entry.executing = true
  tripwire : (∃ what, s.stop.registerThread (s.locals t) = .error what) ↔ s.own t ≠ none
  staleTicket : ∀ token, (∀ other, s.own other ≠ some token) →
    s.stop.unregisterThread (s.locals t) token = .ok (s.stop, s.locals t)

def IndexReused (s : State) (t : Nat) : Prop :=
  ∃ other token, other ≠ t ∧ s.own other = some token ∧ (s.locals t).selfEntry = some token.index

structure Identity (s : State) : Prop where
  own : ∀ t token, s.own t = some token → s.locals t = ⟨some token.index, token.generation⟩ ∧
    ∃ entry : ThreadEntry, s.stop.threads[token.index]? = some entry ∧ entry.live = true ∧
      entry.generation = token.generation
  owned : ∀ (index : Nat) (entry : ThreadEntry), s.stop.threads[index]? = some entry → entry.live = true →
    ∃ t, s.own t = some ⟨entry.generation, index⟩
  sole : ∀ t t' token, s.own t = some token → s.own t' = some token → t = t'
  issued : ∀ t token, s.own t = some token → 0 < token.generation
  positive : 0 < s.stop.nextGeneration
  past : ∀ entry ∈ s.stop.threads, entry.generation < s.stop.nextGeneration
  free : ∀ index ∈ s.stop.freeIndices, ∃ entry : ThreadEntry,
    s.stop.threads[index]? = some entry ∧ entry.live = false
  distinct : s.stop.freeIndices.Nodup

theorem identity_initial : Identity State.initial where
  own t token held := by cases held
  owned index entry found _ := by cases found
  sole t t' token held _ := by cases held
  issued t token held := by cases held
  positive := Nat.one_pos
  past entry member := by cases member
  free index member := by cases member
  distinct := List.nodup_nil

variable {s s' : State} {t index : Nat} {entry : ThreadEntry} {token : GcThreadToken}

theorem Identity.bits (identity : Identity s) {stop : GcWorldStop} {asleep : Nat → Bool}
    (f : Nat → ThreadEntry → ThreadEntry)
    (threads : ∀ index, stop.threads[index]? = (s.stop.threads[index]?).map (f index))
    (keeps : ∀ index entry, (f index entry).live = entry.live ∧ (f index entry).generation = entry.generation)
    (freeIndices : stop.freeIndices = s.stop.freeIndices)
    (generation : stop.nextGeneration = s.stop.nextGeneration) :
    Identity { s with stop := stop, asleep := asleep } where
  own t token held := by
    obtain ⟨locals, entry, found, live, stamp⟩ := identity.own t token held
    refine ⟨locals, f token.index entry, ?_, (keeps _ _).1.trans live, (keeps _ _).2.trans stamp⟩
    rw [threads, found, Option.map_some]
  owned index entry found live := by
    rw [threads] at found
    obtain ⟨old, there, rfl⟩ := Option.map_eq_some_iff.mp found
    obtain ⟨t, held⟩ := identity.owned index old there ((keeps _ _).1.symm.trans live)
    exact ⟨t, (keeps index old).2.symm ▸ held⟩
  sole := identity.sole
  issued := identity.issued
  positive := by rw [generation]; exact identity.positive
  past entry member := by
    obtain ⟨index, found⟩ := List.mem_iff_getElem?.mp member
    rw [threads] at found
    obtain ⟨old, there, rfl⟩ := Option.map_eq_some_iff.mp found
    rw [(keeps index old).2, generation]
    exact identity.past old (List.mem_of_getElem? there)
  free index member := by
    rw [freeIndices] at member
    obtain ⟨old, found, gone⟩ := identity.free index member
    exact ⟨f index old, by rw [threads, found, Option.map_some], (keeps _ _).1.trans gone⟩
  distinct := by rw [freeIndices]; exact identity.distinct

theorem Identity.counters (identity : Identity s) {stop : GcWorldStop} {asleep : Nat → Bool}
    (threads : stop.threads = s.stop.threads) (freeIndices : stop.freeIndices = s.stop.freeIndices)
    (generation : stop.nextGeneration = s.stop.nextGeneration) :
    Identity { s with stop := stop, asleep := asleep } := by
  refine identity.bits (fun _ entry => entry) ?_ (fun _ _ => ⟨rfl, rfl⟩) freeIndices generation
  intro index
  rw [threads, Option.map_id']

theorem Identity.flip (identity : Identity s) {stop : GcWorldStop} {asleep : Nat → Bool} (bit : Bool)
    (threads : stop.threads = match (s.locals t).selfEntry with
      | some index => s.stop.threads.modify index fun entry => { entry with executing := bit }
      | none => s.stop.threads)
    (freeIndices : stop.freeIndices = s.stop.freeIndices)
    (generation : stop.nextGeneration = s.stop.nextGeneration) :
    Identity { s with stop := stop, asleep := asleep } := by
  refine identity.bits (fun index entry =>
    if (s.locals t).selfEntry = some index then { entry with executing := bit } else entry) ?_ ?_ freeIndices
    generation
  · intro index
    rw [threads]
    cases named : (s.locals t).selfEntry with
    | none => simp
    | some place =>
      by_cases same : place = index
      · simp [same]
      · simp [same]
  · intro index entry
    split <;> exact ⟨rfl, rfl⟩

theorem Identity.register (identity : Identity s) {threads : List ThreadEntry} {rest : List Nat}
    (fresh : s.own t = none) (taken : s.stop.takeIndex = (index, threads, rest)) :
    Identity { s with
      stop := { s.stop with
        threads := threads.set index ⟨false, true, s.stop.nextGeneration⟩
        freeIndices := rest
        nextGeneration := s.stop.nextGeneration + 1 }
      locals := Function.update s.locals t ⟨some index, s.stop.nextGeneration⟩
      own := Function.update s.own t (some ⟨s.stop.nextGeneration, index⟩) } := by
  obtain ⟨⟨vacant, atIndex, _, source⟩, wasDead, elsewhere, kept, restDistinct, _⟩ :=
    GcWorldStop.takeIndex_spec identity.free identity.distinct taken
  have bound : index < threads.length := (List.getElem?_eq_some_iff.mp atIndex).1
  have here : (threads.set index ⟨false, true, s.stop.nextGeneration⟩)[index]? =
      some ⟨false, true, s.stop.nextGeneration⟩ := List.getElem?_set_self bound
  have others : ∀ other, other ≠ index →
      (threads.set index ⟨false, true, s.stop.nextGeneration⟩)[other]? = s.stop.threads[other]? := by
    intro other different
    rw [List.getElem?_set_ne different.symm, elsewhere other different]
  have older : ∀ other token, s.own other = some token →
      token.index ≠ index ∧ token.generation < s.stop.nextGeneration := by
    intro other token held
    obtain ⟨_, entry, found, live, stamp⟩ := identity.own other token held
    refine ⟨?_, stamp ▸ identity.past entry (List.mem_of_getElem? found)⟩
    intro same
    rw [wasDead entry (same ▸ found)] at live
    cases live
  exact {
    own := by
      intro other token held
      by_cases same : other = t
      · subst same
        simp only [Function.update_self] at held ⊢
        cases held
        exact ⟨rfl, _, here, rfl, rfl⟩
      · simp only [Function.update_of_ne same] at held ⊢
        obtain ⟨locals, entry, found, rest⟩ := identity.own other token held
        exact ⟨locals, entry, (others _ (older other token held).1).trans found, rest⟩
    owned := by
      intro place entry found live
      by_cases same : place = index
      · subst same
        have value := here.symm.trans found
        cases value
        exact ⟨t, by simp only [Function.update_self]⟩
      · obtain ⟨owner, held⟩ := identity.owned place entry ((others place same).symm.trans found) live
        have different : owner ≠ t := by
          rintro rfl
          rw [fresh] at held
          cases held
        exact ⟨owner, by simp only [Function.update_of_ne different, held]⟩
    sole := by
      intro first second token one two
      by_cases a : first = t <;> by_cases b : second = t
      · rw [a, b]
      · simp only [a, Function.update_self, Function.update_of_ne b] at one two
        cases one
        exact absurd rfl (older second _ two).1
      · simp only [b, Function.update_self, Function.update_of_ne a] at one two
        cases two
        exact absurd rfl (older first _ one).1
      · simp only [Function.update_of_ne a, Function.update_of_ne b] at one two
        exact identity.sole first second token one two
    issued := by
      intro other token held
      by_cases same : other = t
      · subst same
        simp only [Function.update_self] at held
        cases held
        exact identity.positive
      · simp only [Function.update_of_ne same] at held
        exact identity.issued other token held
    positive := Nat.succ_pos _
    past := by
      intro entry member
      obtain ⟨place, found⟩ := List.mem_iff_getElem?.mp member
      by_cases same : place = index
      · subst same
        have value := here.symm.trans found
        cases value
        exact Nat.lt_succ_self _
      · exact Nat.lt_succ_of_lt (identity.past entry (List.mem_of_getElem? ((others place same).symm.trans found)))
    free := by
      intro place member
      obtain ⟨different, wasFree⟩ := kept place member
      obtain ⟨entry, found, gone⟩ := identity.free place wasFree
      exact ⟨entry, (others place different).trans found, gone⟩
    distinct := restDistinct }

theorem Identity.reset (identity : Identity s) :
    Identity { s with stop := s.stop.reset, own := fun _ => none } where
  own t token held := by cases held
  owned index entry found live := by
    simp only [GcWorldStop.reset, List.getElem?_map] at found
    obtain ⟨old, _, rfl⟩ := Option.map_eq_some_iff.mp found
    cases live
  sole t t' token held _ := by cases held
  issued t token held := by cases held
  positive := identity.positive
  past entry member := by
    obtain ⟨old, there, rfl⟩ := List.mem_map.mp member
    exact identity.past old there
  free index member := by
    have bound := List.mem_range.mp member
    obtain ⟨entry, found⟩ : ∃ entry, s.stop.threads[index]? = some entry := ⟨_, List.getElem?_eq_getElem bound⟩
    refine ⟨{ entry with live := false }, ?_, rfl⟩
    simp only [GcWorldStop.reset, List.getElem?_map, found, Option.map_some]
  distinct := List.nodup_range

theorem unregisterThread_cases {tls : ThreadLocals} {stop : GcWorldStop} {result : GcWorldStop × ThreadLocals}
    (done : stop.unregisterThread tls token = .ok result) :
    (result = (stop, tls) ∧ ∀ entry : ThreadEntry, stop.threads[token.index]? = some entry → entry.live = true →
        entry.generation = token.generation → token.generation = 0) ∨
      ∃ entry : ThreadEntry, stop.threads[token.index]? = some entry ∧ entry.live = true ∧
        entry.generation = token.generation ∧
        result = ({ stop with
          threads := stop.threads.set token.index { entry with live := false }
          freeIndices := token.index :: stop.freeIndices },
          if tls.selfEntry = some token.index then { tls with selfEntry := none } else tls) := by
  unfold GcWorldStop.unregisterThread at done
  by_cases never : token.generation = 0
  · rw [if_pos never] at done
    cases done
    exact .inl ⟨rfl, fun _ _ _ _ => never⟩
  rw [if_neg never] at done
  cases found : stop.threads[token.index]? with
  | none =>
    rw [found] at done
    cases done
    exact .inl ⟨rfl, fun _ there => by cases there⟩
  | some entry =>
    rw [found] at done
    by_cases stale : (!entry.live || entry.generation != token.generation) = true
    · simp only [stale, if_true] at done
      cases done
      refine .inl ⟨rfl, fun other same live stamp => ?_⟩
      cases same
      rw [live, stamp, bne_self_eq_false] at stale
      cases stale
    · simp only [if_neg stale] at done
      by_cases executing : entry.executing = true
      · rw [if_pos executing] at done
        cases done
      · rw [if_neg executing] at done
        cases done
        have matching : entry.live = true ∧ entry.generation = token.generation := by
          simpa [bne_iff_ne] using stale
        exact .inr ⟨entry, rfl, matching.1, matching.2, rfl⟩

theorem Identity.unregister (identity : Identity s)
    (found : s.stop.threads[token.index]? = some entry) (live : entry.live = true)
    (stamp : entry.generation = token.generation) {tls : ThreadLocals}
    (locals : tls = if (s.locals t).selfEntry = some token.index then { s.locals t with selfEntry := none }
      else s.locals t) :
    Identity { s with
      stop := { s.stop with
        threads := s.stop.threads.set token.index { entry with live := false }
        freeIndices := token.index :: s.stop.freeIndices }
      locals := Function.update s.locals t tls
      own := fun other => if s.own other = some token then none else s.own other } := by
  obtain ⟨bound, _⟩ := List.getElem?_eq_some_iff.mp found
  have here : (s.stop.threads.set token.index { entry with live := false })[token.index]? =
      some { entry with live := false } := List.getElem?_set_self bound
  have others : ∀ other, other ≠ token.index →
      (s.stop.threads.set token.index { entry with live := false })[other]? = s.stop.threads[other]? :=
    fun other different => List.getElem?_set_ne different.symm
  -- a registration that goes on is not on the retired entry
  have apart : ∀ other kept, s.own other = some kept → kept ≠ token → kept.index ≠ token.index := by
    intro other kept held different same
    obtain ⟨_, entry', found', _, stamp'⟩ := identity.own other kept held
    rw [same, found] at found'
    cases found'
    apply different
    cases kept
    cases token
    simp only at same stamp stamp'
    rw [same, ← stamp', stamp]
  exact {
    own := by
      intro other kept held
      dsimp only at held
      split at held
      · cases held
      next going =>
        have different : kept ≠ token := fun same => going (same ▸ held)
        obtain ⟨named, entry', found', rest⟩ := identity.own other kept held
        have elsewhere := apart other kept held different
        refine ⟨?_, entry', (others _ elsewhere).trans found', rest⟩
        by_cases same : other = t
        · subst same
          simp only [Function.update_self]
          rw [locals, if_neg, named]
          rw [named]
          exact fun equal => elsewhere (Option.some.inj equal)
        · simp only [Function.update_of_ne same, named]
    owned := by
      intro place own there alive
      by_cases same : place = token.index
      · subst same
        have value := here.symm.trans there
        cases value
        cases alive
      · obtain ⟨owner, held⟩ := identity.owned place own ((others place same).symm.trans there) alive
        refine ⟨owner, ?_⟩
        dsimp only
        rw [if_neg, held]
        rw [held]
        intro equal
        cases equal
        exact same rfl
    sole := by
      intro first second kept one two
      dsimp only at one two
      split at one
      · cases one
      · split at two
        · cases two
        · exact identity.sole first second kept one two
    issued := by
      intro other kept held
      dsimp only at held
      split at held
      · cases held
      · exact identity.issued other kept held
    positive := identity.positive
    past := by
      intro own member
      rcases List.mem_or_eq_of_mem_set member with old | new
      · exact identity.past own old
      · rw [new]
        exact identity.past entry (List.mem_of_getElem? found)
    free := by
      intro place member
      rcases List.mem_cons.mp member with rfl | wasFree
      · exact ⟨_, here, rfl⟩
      · obtain ⟨own, there, gone⟩ := identity.free place wasFree
        have different : place ≠ token.index := by
          rintro rfl
          rw [found] at there
          cases there
          rw [live] at gone
          cases gone
        exact ⟨own, (others place different).trans there, gone⟩
    distinct := by
      refine List.nodup_cons.mpr ⟨?_, identity.distinct⟩
      intro member
      obtain ⟨own, there, gone⟩ := identity.free token.index member
      rw [found] at there
      cases there
      rw [live] at gone
      cases gone }

theorem Identity.self (identity : Identity s) (held : s.own t = some token) :
    ∃ entry, s.stop.self (s.locals t) = some entry ∧ s.stop.threads[token.index]? = some entry ∧
      entry.live = true := by
  obtain ⟨locals, entry, found, live, _⟩ := identity.own t token held
  exact ⟨entry, GcWorldStop.self_of_entry (by rw [locals]) found, found, live⟩

theorem Identity.reused (identity : Identity s) (none : s.own t = none)
    (pointed : s.stop.self (s.locals t) = some entry) (live : entry.live = true) : IndexReused s t := by
  obtain ⟨index, named, found⟩ := Option.bind_eq_some_iff.mp pointed
  obtain ⟨other, held⟩ := identity.owned index entry found live
  refine ⟨other, ⟨entry.generation, index⟩, ?_, held, named⟩
  rintro rfl
  rw [none] at held
  cases held

theorem registerThread_trips {stop : GcWorldStop} {tls : ThreadLocals} :
    (∃ what, stop.registerThread tls = .error what) ↔ stop.isRegistered tls = true := by
  unfold GcWorldStop.registerThread GcWorldStop.isRegistered
  by_cases live : (stop.self tls).any (·.live) = true
  · rw [if_pos live]
    exact iff_of_true ⟨_, rfl⟩ live
  · rw [if_neg live]
    refine iff_of_false ?_ live
    rintro ⟨what, trips⟩
    cases trips

theorem Identity.isRegistered_of_none (identity : Identity s) (none : s.own t = none) :
    s.stop.isRegistered (s.locals t) = true ↔ IndexReused s t := by
  constructor
  · intro registered
    cases pointed : s.stop.self (s.locals t) with
    | none =>
      rw [GcWorldStop.isRegistered, pointed] at registered
      cases registered
    | some entry =>
      rw [GcWorldStop.isRegistered, pointed] at registered
      exact identity.reused none pointed registered
  · rintro ⟨other, token, _, held, named⟩
    obtain ⟨_, entry, found, live, _⟩ := identity.own other token held
    rw [GcWorldStop.isRegistered, GcWorldStop.self_of_entry named found]
    exact live

theorem Identity.isRegistered_of_own (identity : Identity s) (held : s.own t = some token) :
    s.stop.isRegistered (s.locals t) = true := by
  obtain ⟨entry, pointed, _, live⟩ := identity.self held
  rw [GcWorldStop.isRegistered, pointed]
  exact live

theorem Identity.not_reused (identity : Identity s) (held : s.own t = some token) : ¬ IndexReused s t := by
  rintro ⟨other, theirs, different, otherHeld, named⟩
  obtain ⟨locals, entry, found, _, stamp⟩ := identity.own t token held
  obtain ⟨_, entry', found', _, stamp'⟩ := identity.own other theirs otherHeld
  rw [locals] at named
  have place : token.index = theirs.index := Option.some.inj named
  rw [← place, found] at found'
  cases found'
  have same : token = theirs := by
    cases token
    cases theirs
    simp only at place stamp stamp'
    rw [place, ← stamp, stamp']
  exact different (identity.sole other t theirs otherHeld (same ▸ held))

theorem Identity.staleTicket (identity : Identity s) (stale : ∀ other, s.own other ≠ some token)
    {tls : ThreadLocals} : s.stop.unregisterThread tls token = .ok (s.stop, tls) := by
  unfold GcWorldStop.unregisterThread
  by_cases never : token.generation = 0
  · rw [if_pos never]
  rw [if_neg never]
  cases found : s.stop.threads[token.index]? with
  | none => rfl
  | some entry =>
    have retired : (!entry.live || entry.generation != token.generation) = true := by
      by_contra current
      have matching : entry.live = true ∧ entry.generation = token.generation := by
        simpa [bne_iff_ne] using current
      obtain ⟨other, held⟩ := identity.owned token.index entry found matching.1
      rw [matching.2] at held
      exact stale other held
    simp only [retired, if_true]

theorem Identity.step (identity : Identity s) {action : Action} (taken : s.step action = some s') :
    Identity s' := by
  unfold State.step at taken
  split at taken
  · cases taken
  cases action with
  | register t =>
    cases answer : s.stop.registerThread (s.locals t) with
    | error what =>
      simp only [answer] at taken
      cases taken
    | ok result =>
      have fresh : s.own t = none := by
        cases held : s.own t with
        | none => rfl
        | some token =>
          obtain ⟨what, trips⟩ := registerThread_trips.mpr (identity.isRegistered_of_own held)
          rw [trips] at answer
          cases answer
      simp only [answer] at taken
      unfold GcWorldStop.registerThread at answer
      split at answer
      · cases answer
      cases answer
      cases taken
      exact identity.register fresh rfl
  | unregister t token =>
    cases answer : s.stop.unregisterThread (s.locals t) token with
    | error what =>
      simp only [answer] at taken
      cases taken
    | ok result =>
      simp only [answer] at taken
      cases taken
      rcases unregisterThread_cases answer with ⟨rfl, idle⟩ | ⟨entry, found, live, stamp, rfl⟩
      · have unheld : ∀ other, ¬ s.own other = some token := by
          intro other held
          obtain ⟨_, entry, found, live, stamp⟩ := identity.own other token held
          exact Nat.ne_of_gt (identity.issued other token held) (idle entry found live stamp)
        simp only [unheld, if_false, Function.update_eq_self]
        exact identity
      · exact identity.unregister found live stamp rfl
  | reset =>
    cases taken
    exact identity.reset
  | beginEntry t =>
    cases answer : s.stop.beginEntry (s.locals t) with
    | error what =>
      simp only [answer] at taken
      cases taken
    | ok current =>
      simp only [answer] at taken
      cases taken
      exact identity.counters rfl rfl rfl
  | beginFlip t =>
    dsimp only at taken
    split at taken
    · obtain ⟨stop, flipped, rfl⟩ := Option.map_eq_some_iff.mp taken
      unfold GcWorldStop.beginFlip at flipped
      split at flipped
      · cases flipped
      cases flipped
      exact identity.flip true rfl rfl rfl
    · cases taken
  | endExecuting t =>
    cases answer : s.stop.endExecuting (s.locals t) with
    | error what =>
      simp only [answer] at taken
      cases taken
    | ok result =>
      simp only [answer] at taken
      cases taken
      unfold GcWorldStop.endExecuting at answer
      split at answer
      · cases answer
      split at answer
      · cases answer
        exact identity.counters rfl rfl rfl
      split at answer
      · cases answer
      cases answer
      refine identity.flip (t := t) false ?_ ?_ ?_ <;> split <;> rfl
  | initiateAndArrive t =>
    cases answer : s.stop.initiateAndArrive (s.locals t) with
    | error what =>
      simp only [answer] at taken
      cases taken
    | ok result =>
      simp only [answer] at taken
      cases taken
      unfold GcWorldStop.initiateAndArrive at answer
      split at answer
      · cases answer
      split at answer
      · cases answer
      split at answer
      · cases answer
      cases answer
      obtain ⟨threads, freeIndices, generation⟩ := @GcWorldStop.openStop_table s.stop
      refine identity.flip (t := t) false ?_ freeIndices generation
      rw [← threads]
      rfl
  | complete =>
    cases taken
    exact identity.counters rfl rfl rfl

theorem Identity.reached (run : Run State.step (fun _ _ => True) State.initial s) : Identity s :=
  run.invariant Identity identity_initial fun _ _ _ identity _ taken => identity.step taken

theorem Identity.answers (identity : Identity s) (kept : ¬ IndexReused s t) : AnswersForOwn s t := by
  cases held : s.own t with
  | none =>
    have outside : ¬ s.stop.isRegistered (s.locals t) = true :=
      fun registered => kept ((identity.isRegistered_of_none held).mp registered)
    refine ⟨iff_of_false outside (fun some => some held), iff_of_false ?_ ?_, ?_,
      fun _ stale => identity.staleTicket stale⟩
    · intro executing
      apply outside
      cases pointed : s.stop.self (s.locals t) with
      | none =>
        rw [GcWorldStop.executingSelf, pointed] at executing
        cases executing
      | some entry =>
        rw [GcWorldStop.executingSelf, pointed] at executing
        rw [GcWorldStop.isRegistered, pointed]
        exact (Bool.and_eq_true_iff.mp executing).1
    · rintro ⟨token, entry, ofOwn, _⟩
      rw [held] at ofOwn
      cases ofOwn
    · rw [registerThread_trips]
      exact iff_of_false outside (fun some => some held)
  | some token =>
    have registered := identity.isRegistered_of_own held
    have own : s.own t ≠ none := by
      rw [held]
      exact Option.some_ne_none token
    obtain ⟨entry, pointed, found, live⟩ := identity.self held
    refine ⟨iff_of_true registered own, ?_, registerThread_trips.trans (iff_of_true registered own),
      fun _ stale => identity.staleTicket stale⟩
    rw [GcWorldStop.executingSelf, pointed]
    simp only [Option.any_some, live, Bool.true_and]
    constructor
    · intro executing
      exact ⟨token, entry, held, found, executing⟩
    · rintro ⟨other, same, ofOwn, there, executing⟩
      rw [held] at ofOwn
      cases ofOwn
      rw [found] at there
      cases there
      exact executing

/-- In every state any order of calls reaches, a thread is answered for its own registration exactly when the
entry it once had has not been given to another thread. -/
theorem answers_for_own_iff (run : Run State.step (fun _ _ => True) State.initial s) (t : Nat) :
    AnswersForOwn s t ↔ ¬ IndexReused s t := by
  have identity := Identity.reached run
  refine ⟨?_, identity.answers⟩
  intro answers reused
  cases held : s.own t with
  | none => exact answers.registered.mp ((identity.isRegistered_of_none held).mpr reused) held
  | some token => exact identity.not_reused held reused

def reuse : List Action := [.register 0, .reset, .register 1]

def reused : State := (reuse.foldlM State.step State.initial).getD State.initial

theorem reused_run : Run State.step (fun _ _ => True) State.initial reused :=
  Run.refl.actions (fun _ _ _ => trivial)
    (show reuse.foldlM State.step State.initial = some reused from rfl)

theorem answers_for_own_iff_reused : AnswersForOwn reused 1 ∧ ¬ AnswersForOwn reused 0 := by
  constructor
  · refine (answers_for_own_iff reused_run 1).mpr ?_
    rintro ⟨other, token, different, held, _⟩
    have nobody : reused.own other = none := by
      show Function.update (fun _ => none) 1 (some _) other = none
      exact Function.update_of_ne different ..
    cases nobody.symm.trans held
  · intro answers
    exact answers.registered.mp rfl rfl

theorem reset_and_reuse_mislead : ∃ s, Run State.step (fun _ _ => True) State.initial s ∧ s.own 0 = none ∧
    s.stop.isRegistered (s.locals 0) = true ∧
    s.stop.registerThread (s.locals 0) = .error "RegisterThread (already registered)" ∧ ¬ AnswersForOwn s 0 :=
  ⟨reused, reused_run, rfl, rfl, rfl, fun answers => answers.registered.mp rfl rfl⟩

end NLang.Vm.RegistryIdentity
