import NLang.Library.Runs
import NLang.Vm.MarkCompleteness

/-!
# Roots of blocking native calls

`VmExecutorBlockingNative.cpp` and `MarkNativeCallRoots`. Arms of several threads overlap freely and nest on
one thread; each entry of the registry carries the arm that pushed it.
-/

namespace NLang.Vm
open Relation NLang.Library.Runs

/-- `cells` is the base address of staged cells, or null for a minted handle. `minted` is what a minted handle
refers to; the executor does not store it. -/
structure NativeCallRoot where
  cells : Option Nat := none
  cellCount : Nat := 0
  value : Int := 0
  owner : Nat := 0
  minted : Option Ref := none
  deriving DecidableEq

structure Arm where
  owner : Nat
  savedRootOwner : Nat
  argCount : Nat

structure NativeThread where
  blockingNativeDepth : Nat := 0
  currentNativeRootOwner : Nat := 0
  arms : List Arm := []

structure NativeState where
  nativeCallRoots : List NativeCallRoot := []
  nextNativeRootOwner : Nat := 1
  staged : Nat → Nat → Int := fun _ _ => 0
  thread : Nat → NativeThread := fun _ => {}

def stagedRet (owner : Nat) : Nat := 2 * owner
def stagedArgs (owner : Nat) : Nat := 2 * owner + 1

namespace NativeState

def setThread (s : NativeState) (t : Nat) (thread : NativeThread) : NativeState :=
  { s with thread := fun u => if u = t then thread else s.thread u }

def removeNativeRoots (s : NativeState) (owner : Nat) : NativeState :=
  { s with nativeCallRoots := s.nativeCallRoots.filter (·.owner ≠ owner) }

def stagedRoots (arm : Arm) : List NativeCallRoot :=
  { cells := some (stagedRet arm.owner), cellCount := 1, owner := arm.owner } ::
    if arm.argCount = 0 then []
    else [{ cells := some (stagedArgs arm.owner), cellCount := arm.argCount, owner := arm.owner }]

def stageNativeRoots (s : NativeState) (arm : Arm) : NativeState :=
  { s with nativeCallRoots := s.nativeCallRoots ++ stagedRoots arm }

def enterBlockingNative (s : NativeState) (t : Nat) (args : List Int) : NativeState :=
  let thread := s.thread t
  let arm : Arm :=
    { owner := s.nextNativeRootOwner
      savedRootOwner := thread.currentNativeRootOwner
      argCount := args.length }
  let copied := { s with
    nextNativeRootOwner := s.nextNativeRootOwner + 1
    staged := fun block i =>
      if block = stagedArgs arm.owner then args.getD i 0
      else if block = stagedRet arm.owner then 0
      else s.staged block i }
  (copied.stageNativeRoots arm).setThread t
    { blockingNativeDepth := thread.blockingNativeDepth + 1
      currentNativeRootOwner := arm.owner
      arms := arm :: thread.arms }

def rootMintedNativeHandle (s : NativeState) (t : Nat) (handle : Int) (minted : Ref) : NativeState :=
  let thread := s.thread t
  if 0 < thread.blockingNativeDepth ∧ handle ≠ 0 then
    { s with nativeCallRoots := s.nativeCallRoots ++
        [{ value := handle, owner := thread.currentNativeRootOwner, minted := some minted }] }
  else s

def finishBlockingNative (s : NativeState) (t : Nat) : Option NativeState :=
  let thread := s.thread t
  match thread.arms with
  | [] => none
  | arm :: outer =>
    some ((s.removeNativeRoots arm.owner).setThread t
      { blockingNativeDepth := thread.blockingNativeDepth - 1
        currentNativeRootOwner := arm.savedRootOwner
        arms := outer })

def markNativeCallRoots (s : NativeState) : List MarkAction :=
  s.nativeCallRoots.flatMap fun root =>
    match root.cells with
    | some block => (List.range root.cellCount).map fun i => .both (s.staged block i)
    | none => []

end NativeState

inductive NativeAction where
  | enter (thread : Nat) (args : List Int)
  | mint (thread : Nat) (handle : Int) (minted : Ref)
  | write (block i : Nat) (value : Int)
  | finish (thread : Nat)

def NativeState.step (s : NativeState) : NativeAction → Option NativeState
  | .enter t args => some (s.enterBlockingNative t args)
  | .mint t handle minted => some (s.rootMintedNativeHandle t handle minted)
  | .write block i value =>
    some { s with staged := fun b j => if b = block ∧ j = i then value else s.staged b j }
  | .finish t => s.finishBlockingNative t

def Stacked : Nat → List Arm → Prop
  | current, [] => current = 0
  | current, arm :: outer => current = arm.owner ∧ Stacked arm.savedRootOwner outer

def NativeState.Active (s : NativeState) (t : Nat) (arm : Arm) : Prop := arm ∈ (s.thread t).arms

structure NativeState.Owned (s : NativeState) : Prop where
  depth : ∀ t, (s.thread t).blockingNativeDepth = (s.thread t).arms.length
  stacked : ∀ t, Stacked (s.thread t).currentNativeRootOwner (s.thread t).arms
  issued : ∀ t arm, s.Active t arm → 1 ≤ arm.owner ∧ arm.owner < s.nextNativeRootOwner
  positive : 1 ≤ s.nextNativeRootOwner
  distinct : ∀ t, ((s.thread t).arms.map (·.owner)).Nodup
  apart : ∀ t u arm other, s.Active t arm → s.Active u other → arm.owner = other.owner → t = u
  pushed : ∀ root ∈ s.nativeCallRoots, ∃ t arm, s.Active t arm ∧ root.owner = arm.owner
  staged : ∀ t arm, s.Active t arm → ∀ root ∈ NativeState.stagedRoots arm, root ∈ s.nativeCallRoots

namespace NativeState

@[simp] theorem setThread_self (s : NativeState) (t : Nat) (thread : NativeThread) :
    (s.setThread t thread).thread t = thread := by simp [setThread]

@[simp] theorem setThread_of_ne (s : NativeState) {t u : Nat} (thread : NativeThread) (ne : u ≠ t) :
    (s.setThread t thread).thread u = s.thread u := by simp [setThread, ne]

theorem stagedRoots_owner {arm : Arm} {root : NativeCallRoot} (member : root ∈ stagedRoots arm) :
    root.owner = arm.owner := by
  unfold stagedRoots at member
  rcases List.mem_cons.mp member with rfl | args
  · rfl
  · split at args
    · cases args
    · cases List.mem_singleton.mp args
      rfl

theorem owned_init : Owned {} where
  depth _ := rfl
  stacked _ := rfl
  issued _ _ active := by cases active
  positive := Nat.le_refl 1
  distinct _ := List.nodup_nil
  apart _ _ _ _ active := by cases active
  pushed _ member := by cases member
  staged _ _ active := by cases active

section Step
variable {s : NativeState} (owned : s.Owned)
include owned

theorem Owned.enter (t : Nat) (args : List Int) : (s.enterBlockingNative t args).Owned := by
  let arm : Arm := ⟨s.nextNativeRootOwner, (s.thread t).currentNativeRootOwner, args.length⟩
  -- arms of the new state are the new one and the old ones
  have arms : ∀ u, ((s.enterBlockingNative t args).thread u).arms =
      if u = t then arm :: (s.thread t).arms else (s.thread u).arms := by
    intro u
    by_cases same : u = t
    · subst same
      simp [enterBlockingNative, arm]
    · simp only [enterBlockingNative, same, if_false, setThread_of_ne _ _ same]
      rfl
  have active : ∀ u other, (s.enterBlockingNative t args).Active u other ↔
      (u = t ∧ other = arm) ∨ s.Active u other := by
    intro u other
    unfold Active
    rw [arms]
    by_cases same : u = t
    · subst same
      simp
    · simp [same]
  have fresh : ∀ u other, s.Active u other → other.owner ≠ arm.owner := by
    intro u other old
    exact Nat.ne_of_lt (owned.issued u other old).2
  refine ⟨?_, ?_, ?_, ?_, ?_, ?_, ?_, ?_⟩
  · intro u
    by_cases same : u = t
    · subst same
      simp [enterBlockingNative, owned.depth]
    · rw [arms, if_neg same]
      simp only [enterBlockingNative, setThread_of_ne _ _ same]
      exact owned.depth u
  · intro u
    by_cases same : u = t
    · subst same
      simp only [enterBlockingNative, setThread_self]
      exact ⟨rfl, owned.stacked u⟩
    · rw [arms, if_neg same]
      simp only [enterBlockingNative, setThread_of_ne _ _ same]
      exact owned.stacked u
  · intro u other now
    rcases (active u other).mp now with ⟨-, rfl⟩ | old
    · exact ⟨owned.positive, Nat.lt_succ_self _⟩
    · have issued := owned.issued u other old
      exact ⟨issued.1, Nat.lt_succ_of_lt issued.2⟩
  · exact Nat.le_succ_of_le owned.positive
  · intro u
    rw [arms]
    by_cases same : u = t
    · subst same
      rw [if_pos rfl, List.map_cons]
      refine List.nodup_cons.mpr ⟨?_, owned.distinct u⟩
      intro listed
      obtain ⟨other, old, equal⟩ := List.mem_map.mp listed
      exact fresh u other old equal
    · rw [if_neg same]
      exact owned.distinct u
  · intro u v one two nowOne nowTwo equal
    rcases (active u one).mp nowOne with ⟨rfl, rfl⟩ | oldOne
    · rcases (active v two).mp nowTwo with ⟨rfl, rfl⟩ | oldTwo
      · rfl
      · exact absurd equal.symm (fresh v two oldTwo)
    · rcases (active v two).mp nowTwo with ⟨rfl, rfl⟩ | oldTwo
      · exact absurd equal (fresh u one oldOne)
      · exact owned.apart u v one two oldOne oldTwo equal
  · intro root member
    rcases List.mem_append.mp member with old | new
    · obtain ⟨u, other, activeOld, equal⟩ := owned.pushed root old
      exact ⟨u, other, (active u other).mpr (.inr activeOld), equal⟩
    · exact ⟨t, arm, (active t arm).mpr (.inl ⟨rfl, rfl⟩), stagedRoots_owner new⟩
  · intro u other now root member
    rcases (active u other).mp now with ⟨-, rfl⟩ | old
    · exact List.mem_append_right _ member
    · exact List.mem_append_left _ (owned.staged u other old root member)

theorem Owned.mint (t : Nat) (handle : Int) (minted : Ref) :
    (s.rootMintedNativeHandle t handle minted).Owned := by
  simp only [rootMintedNativeHandle]
  split
  · rename_i inside
    refine { owned with pushed := ?_, staged := ?_ }
    · intro root member
      rcases List.mem_append.mp member with old | new
      · exact owned.pushed root old
      · cases List.mem_singleton.mp new
        have stacked := owned.stacked t
        have depth := owned.depth t
        cases arms : (s.thread t).arms with
        | nil =>
          rw [arms] at depth
          exact absurd depth (Nat.ne_of_gt inside.1)
        | cons arm outer =>
          rw [arms] at stacked
          have inner : arm ∈ (s.thread t).arms := by
            rw [arms]
            exact List.mem_cons_self
          exact ⟨t, arm, inner, stacked.1⟩
    · intro u arm active root member
      exact List.mem_append_left _ (owned.staged u arm active root member)
  · exact owned

theorem Owned.finish {t : Nat} {s' : NativeState} (run : s.finishBlockingNative t = some s') :
    s'.Owned ∧ ∃ arm outer, (s.thread t).arms = arm :: outer ∧
      s'.nativeCallRoots = s.nativeCallRoots.filter (·.owner ≠ arm.owner) ∧
      ∀ u other, s.Active u other → other ≠ arm → other.owner ≠ arm.owner := by
  simp only [finishBlockingNative] at run
  split at run
  · cases run
  rename_i arm outer top
  cases run
  have inner : s.Active t arm := by
    unfold Active
    rw [top]
    exact List.mem_cons_self
  have distinct := owned.distinct t
  rw [top, List.map_cons] at distinct
  have others : ∀ u other, s.Active u other → other ≠ arm → other.owner ≠ arm.owner := by
    intro u other active ne equal
    cases owned.apart u t other arm active inner equal
    unfold Active at active
    rw [top] at active
    rcases List.mem_cons.mp active with same | deeper
    · exact ne same
    · exact (List.nodup_cons.mp distinct).1 (List.mem_map.mpr ⟨other, deeper, equal⟩)
  have arms : ∀ u, (((s.removeNativeRoots arm.owner).setThread t
      ⟨(s.thread t).blockingNativeDepth - 1, arm.savedRootOwner, outer⟩).thread u).arms =
        if u = t then outer else (s.thread u).arms := by
    intro u
    by_cases same : u = t
    · subst same
      simp
    · simp only [same, if_false, setThread_of_ne _ _ same]
      rfl
  have before : ∀ u other, ((s.removeNativeRoots arm.owner).setThread t
      ⟨(s.thread t).blockingNativeDepth - 1, arm.savedRootOwner, outer⟩).Active u other →
        s.Active u other ∧ other ≠ arm := by
    intro u other active
    unfold Active at active
    rw [arms] at active
    by_cases same : u = t
    · subst same
      rw [if_pos rfl] at active
      refine ⟨?_, ?_⟩
      · unfold Active
        rw [top]
        exact List.mem_cons_of_mem _ active
      · rintro rfl
        exact (List.nodup_cons.mp distinct).1 (List.mem_map.mpr ⟨other, active, rfl⟩)
    · rw [if_neg same] at active
      refine ⟨active, ?_⟩
      rintro rfl
      exact same (owned.apart u t other other active inner rfl)
  refine ⟨⟨?_, ?_, ?_, owned.positive, ?_, ?_, ?_, ?_⟩, arm, outer, top, rfl, others⟩
  · intro u
    by_cases same : u = t
    · subst same
      simp [owned.depth, top]
    · simp only [setThread_of_ne _ _ same]
      exact owned.depth u
  · intro u
    by_cases same : u = t
    · subst same
      have stacked := owned.stacked u
      rw [top] at stacked
      simp only [setThread_self]
      exact stacked.2
    · simp only [setThread_of_ne _ _ same]
      exact owned.stacked u
  · intro u other active
    exact owned.issued u other (before u other active).1
  · intro u
    rw [arms]
    by_cases same : u = t
    · rw [if_pos same]
      exact (List.nodup_cons.mp distinct).2
    · rw [if_neg same]
      exact owned.distinct u
  · intro u v one two activeOne activeTwo equal
    exact owned.apart u v one two (before u one activeOne).1 (before v two activeTwo).1 equal
  · intro root member
    obtain ⟨old, kept⟩ := List.mem_filter.mp member
    obtain ⟨u, other, active, equal⟩ := owned.pushed root old
    refine ⟨u, other, ?_, equal⟩
    have ne : other ≠ arm := by
      rintro rfl
      simp [equal] at kept
    unfold Active
    rw [arms]
    by_cases same : u = t
    · subst same
      unfold Active at active
      rw [top] at active
      rw [if_pos rfl]
      exact (List.mem_cons.mp active).resolve_left ne
    · rw [if_neg same]
      exact active
  · intro u other active root member
    obtain ⟨old, ne⟩ := before u other active
    refine List.mem_filter.mpr ⟨owned.staged u other old root member, ?_⟩
    rw [stagedRoots_owner member]
    simpa using others u other old ne

theorem Owned.step {action : NativeAction} {s' : NativeState} (taken : s.step action = some s') :
    s'.Owned := by
  cases action with
  | enter t args =>
    cases taken
    exact owned.enter t args
  | mint t handle minted =>
    cases taken
    exact owned.mint t handle minted
  | write block i value =>
    cases taken
    exact { owned with }
  | finish t => exact (owned.finish taken).1

end Step

theorem owned_of_run {s : NativeState} (run : Run step (fun _ _ => True) {} s) : s.Owned :=
  run.invariant Owned owned_init fun _ _ _ owned _ taken => owned.step taken

def Finishes (owner : Nat) (s : NativeState) : NativeAction → Prop
  | .finish t => ∃ arm outer, (s.thread t).arms = arm :: outer ∧ arm.owner = owner
  | _ => False

theorem mem_of_run {s s' : NativeState} {root : NativeCallRoot}
    (run : Run step (fun s action => ¬ Finishes root.owner s action) s s')
    (recorded : root ∈ s.nativeCallRoots) : root ∈ s'.nativeCallRoots := by
  refine run.invariant (fun s => root ∈ s.nativeCallRoots) recorded ?_
  intro s action s' member other taken
  cases action with
  | enter t args =>
    cases taken
    exact List.mem_append_left _ member
  | mint t handle minted =>
    cases taken
    simp only [rootMintedNativeHandle]
    split
    · exact List.mem_append_left _ member
    · exact member
  | write block i value =>
    cases taken
    exact member
  | finish t =>
    simp only [step, finishBlockingNative] at taken
    split at taken
    · cases taken
    · rename_i arm outer top
      cases taken
      refine List.mem_filter.mpr ⟨member, ?_⟩
      have apart : root.owner ≠ arm.owner := fun equal => other ⟨arm, outer, top, equal.symm⟩
      simpa using apart

section Marking
variable (s : NativeState) (tables : TypeTables) (h : Heap) (strings : StringStore)

def KeepsAlive (marks : MarkState) : Prop :=
  ∀ root ∈ s.nativeCallRoots,
    (∀ block, root.cells = some block → ∀ i < root.cellCount,
      ∀ r ∈ (MarkAction.both (s.staged block i)).targets h strings, marks.Marks r) ∧
    ∀ r, root.cells = none → root.minted = some r → h.Denotes strings root.value r → marks.Marks r

def MintedReachable (roots : List MarkAction) : Prop :=
  ∀ root ∈ s.nativeCallRoots, ∀ r, root.cells = none → root.minted = some r →
    h.Denotes strings root.value r → Traces tables h strings roots r

theorem keepsAlive_iff {before after : List MarkAction} {marks : MarkState}
    (exactly : ∀ r, marks.Marks r ↔
      Traces tables h strings (before ++ s.markNativeCallRoots ++ after) r) :
    s.KeepsAlive h strings marks ↔
      s.MintedReachable tables h strings (before ++ s.markNativeCallRoots ++ after) := by
  constructor
  · intro keeps root member r null minted denotes
    rw [← exactly]
    exact (keeps root member).2 r null minted denotes
  · intro reachable root member
    constructor
    · intro block address i inside r target
      rw [exactly]
      refine ⟨r, ⟨.both (s.staged block i), ?_, target⟩, .refl⟩
      refine List.mem_append_left _ (List.mem_append_right _ (List.mem_flatMap.mpr ⟨root, member, ?_⟩))
      rw [address]
      exact List.mem_map.mpr ⟨i, List.mem_range.mpr inside, rfl⟩
    · intro r null minted denotes
      rw [exactly]
      exact reachable root member r null minted denotes

end Marking

end NativeState

/-- In every run of overlapping arms: an arm's staged cells are in the registry while it runs, an entry stays
until its own arm ends, the end of an arm removes that arm's entries and no others, and a mark phase keeps
alive what the registry names exactly when the minted handles are reachable without it. -/
theorem nativeCallRoots_live {s : NativeState} (run : Run NativeState.step (fun _ _ => True) {} s) :
    (∀ t arm, s.Active t arm → ∀ root ∈ NativeState.stagedRoots arm, root ∈ s.nativeCallRoots) ∧
    (∀ root ∈ s.nativeCallRoots, ∀ s',
      Run NativeState.step (fun s action => ¬ s.Finishes root.owner action) s s' →
        root ∈ s'.nativeCallRoots) ∧
    (∀ t s', s.finishBlockingNative t = some s' → ∃ arm outer, (s.thread t).arms = arm :: outer ∧
      s'.nativeCallRoots = s.nativeCallRoots.filter (·.owner ≠ arm.owner) ∧
      ∀ u other, s.Active u other → other ≠ arm → other.owner ≠ arm.owner) ∧
    ∀ tables h strings before after, RecordsFormed tables h →
      ∃ marks, markPhase tables h strings (before ++ s.markNativeCallRoots ++ after) = some marks ∧
        (s.KeepsAlive h strings marks ↔
          s.MintedReachable tables h strings (before ++ s.markNativeCallRoots ++ after)) := by
  have owned := NativeState.owned_of_run run
  refine ⟨owned.staged, ?_, ?_, ?_⟩
  · intro root recorded s' later
    exact NativeState.mem_of_run later recorded
  · intro t s' finished
    exact (owned.finish finished).2
  · intro tables h strings before after formed
    obtain ⟨marks, phase, exactly⟩ := markPhase_spec strings formed
      (before ++ s.markNativeCallRoots ++ after)
    exact ⟨marks, phase, s.keepsAlive_iff tables h strings exactly⟩

def mintingState : NativeState :=
  (NativeState.enterBlockingNative {} 0 []).rootMintedNativeHandle 0 2 (.record 2)

theorem mintingState_run : Run NativeState.step (fun _ _ => True) {} mintingState := by
  have enters : NativeState.step {} (.enter 0 []) = some (NativeState.enterBlockingNative {} 0 []) := rfl
  have mints : (NativeState.enterBlockingNative {} 0 []).step (.mint 0 2 (.record 2)) =
      some mintingState := rfl
  exact .tail (.tail .refl trivial enters) trivial mints

theorem minted_handle_unmarked :
    Run NativeState.step (fun _ _ => True) {} mintingState ∧
      (∃ root ∈ mintingState.nativeCallRoots, root.cells = none ∧ root.value = 2) ∧
      ∃ marks, markPhase shapeDecls.tables shapeHeap noStrings mintingState.markNativeCallRoots =
          some marks ∧
        ¬ marks.Marks (.record 2) ∧ ¬ mintingState.KeepsAlive shapeHeap noStrings marks := by
  have recorded : { value := 2, owner := 1, minted := some (.record 2) } ∈
      mintingState.nativeCallRoots := by decide
  refine ⟨mintingState_run, ⟨_, recorded, rfl, rfl⟩, ⟨⟨[], []⟩, []⟩, rfl, ?_, ?_⟩
  · intro marked
    cases marked
  · intro keeps
    have marked := (keeps _ recorded).2 (.record 2) rfl rfl ⟨rfl, rfl⟩
    cases marked

theorem nativeCallRoots_live_anchored :
    ∃ marks, markPhase shapeDecls.tables shapeHeap noStrings
        ([.record 2] ++ mintingState.markNativeCallRoots ++ []) = some marks ∧
      mintingState.KeepsAlive shapeHeap noStrings marks := by
  obtain ⟨-, -, -, phases⟩ := nativeCallRoots_live mintingState_run
  obtain ⟨marks, phase, keeps⟩ := phases shapeDecls.tables shapeHeap noStrings [.record 2] []
    shapeHeap_formed
  have entries : ∀ root ∈ mintingState.nativeCallRoots,
      root.minted = none ∨ root.minted = some (.record 2) := by decide
  refine ⟨marks, phase, keeps.mpr ?_⟩
  intro root member r null minted denotes
  rcases entries root member with none | object
  · rw [none] at minted
    cases minted
  · rw [object] at minted
    cases minted
    exact ⟨.record 2, ⟨.record 2, by simp, List.mem_singleton.mpr rfl⟩, .refl⟩

end NLang.Vm
