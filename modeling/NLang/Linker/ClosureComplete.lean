import NLang.Linker.ClosureWalk

/-!
# Completeness of the link closure

Discovery loads exactly the units that the walked import sections reach from the entry unit. The static-slot section is
not among them, so the closure is complete exactly when the owners of imported static slots are reached anyway.
-/

namespace NLang.Linker
open NLang.Library NLang.Image

theorem mem_collected (imports : List SymbolImport) (targets : List Text) {target : Text} :
    target ∈ imports.foldl (fun targets imp =>
      if imp.modulePath ∈ targets then targets else targets ++ [imp.modulePath]) targets ↔
      target ∈ targets ∨ ∃ imp ∈ imports, imp.modulePath = target := by
  induction imports generalizing targets with
  | nil => simp
  | cons imp imports ih =>
    rw [List.foldl_cons, ih]
    by_cases known : imp.modulePath ∈ targets
    · rw [if_pos known]
      grind
    · rw [if_neg known]
      grind

theorem mem_importTargets {unit : CompiledModule} {target : Text} :
    target ∈ importTargets unit ↔ ∃ imp ∈ walkedImports unit, imp.modulePath = target := by
  rw [importTargets, mem_collected]
  simp only [List.not_mem_nil, false_or]

section Search
variable (target : Text)

theorem findPackageWithMember_fst (dir : Text) (archives : List RegularFile) (unreadable other : List (Text × Text)) :
    (findPackageWithMember dir target archives unreadable).1 = (findPackageWithMember dir target archives other).1 := by
  induction archives generalizing unreadable other with
  | nil => rfl
  | cons archive rest ih =>
    rw [findPackageWithMember, findPackageWithMember]
    cases archive.asPackage with
    | error error => exact ih _ _
    | ok pkg =>
      dsimp only
      split
      · rfl
      · exact ih _ _

theorem findTarget_fst (searchDirs : List SearchDir) (unreadable other : List (Text × Text)) :
    (findTarget target searchDirs unreadable).1 = (findTarget target searchDirs other).1 := by
  induction searchDirs generalizing unreadable other with
  | nil => rfl
  | cons dir rest ih =>
    rw [findTarget, findTarget]
    cases dir.files.find? (·.name = target ++ ncuExtension) with
    | some file => rfl
    | none =>
      have same := findPackageWithMember_fst target dir.path (archives dir) unreadable other
      dsimp only
      generalize findPackageWithMember dir.path target (archives dir) unreadable = first at same ⊢
      generalize findPackageWithMember dir.path target (archives dir) other = second at same ⊢
      obtain ⟨first, firstUnreadable⟩ := first
      obtain ⟨second, secondUnreadable⟩ := second
      subst same
      cases first with
      | some pkg => rfl
      | none => exact ih _ _

end Search

section Available
variable (searchDirs : List SearchDir) (entryPackage : Option OpenedPackage)

def provided (target : Text) : Option (Except LoadProblem (CompiledModule × Text)) :=
  match entryPackage with
  | some pkg => if target ∈ pkg.memberPaths then some (loadPackageMember pkg target)
      else (findTarget target searchDirs []).1
  | none => (findTarget target searchDirs []).1

def available (target : Text) : Option CompiledModule :=
  match provided searchDirs entryPackage target with
  | some (.ok (unit, _)) => some unit
  | _ => none

def heldPaths (file : RegularFile) : List Text :=
  file.name.take (file.name.length - ncuExtension.length) ::
    (match file.asPackage with
      | .ok pkg => pkg.memberPaths
      | .error _ => [])

def searchPaths (dirs : List SearchDir) : List Text := dirs.flatMap fun dir => dir.files.flatMap heldPaths

def presentPaths : List Text := entryPackage.elim [] OpenedPackage.memberPaths ++ searchPaths searchDirs

variable {searchDirs entryPackage} {target : Text}

theorem acceptUnit_ok {source : UnitSource} {loaded : LoadedUnit} {unit : CompiledModule} {key : Text}
    (accepted : acceptUnit target source loaded = .ok (unit, key)) : unit.modulePath = target := by
  cases loaded with
  | error error => cases accepted
  | ok result =>
    rw [acceptUnit] at accepted
    split at accepted
    · cases accepted
    · cases accepted
      exact not_not.mp ‹_›

theorem loadPackageMember_ok {pkg : OpenedPackage} {unit : CompiledModule} {key : Text}
    (loaded : loadPackageMember pkg target = .ok (unit, key)) : unit.modulePath = target := by
  rw [loadPackageMember] at loaded
  split at loaded
  · cases loaded
  · exact acceptUnit_ok loaded

theorem findPackageWithMember_some {dir : Text} {archives : List RegularFile} {unreadable after : List (Text × Text)}
    {pkg : OpenedPackage} (found : findPackageWithMember dir target archives unreadable = (some pkg, after)) :
    ∃ archive ∈ archives, archive.asPackage = .ok pkg ∧ target ∈ pkg.memberPaths := by
  induction archives generalizing unreadable with
  | nil => cases found
  | cons archive rest ih =>
    rw [findPackageWithMember] at found
    cases opened : archive.asPackage with
    | error error =>
      rw [opened] at found
      obtain ⟨archive, inside, facts⟩ := ih found
      exact ⟨archive, .tail _ inside, facts⟩
    | ok pkg' =>
      rw [opened] at found
      dsimp only at found
      split at found
      · cases found
        exact ⟨archive, .head _, opened, ‹_›⟩
      · obtain ⟨archive, inside, facts⟩ := ih found
        exact ⟨archive, .tail _ inside, facts⟩

theorem findTarget_some {dirs : List SearchDir} {unreadable : List (Text × Text)}
    {loaded : Except LoadProblem (CompiledModule × Text)} (found : (findTarget target dirs unreadable).1 = some loaded) :
    (∀ unit key, loaded = .ok (unit, key) → unit.modulePath = target) ∧ target ∈ searchPaths dirs := by
  induction dirs generalizing unreadable with
  | nil => cases found
  | cons dir rest ih =>
    rw [findTarget] at found
    rw [searchPaths, List.flatMap_cons, List.mem_append]
    cases present : dir.files.find? (·.name = target ++ ncuExtension) with
    | some file =>
      rw [present] at found
      cases found
      refine ⟨fun unit key accepted => acceptUnit_ok accepted, .inl ?_⟩
      have named : file.name = target ++ ncuExtension := by simpa using List.find?_some present
      refine List.mem_flatMap.mpr ⟨file, List.mem_of_find?_eq_some present, ?_⟩
      simp [heldPaths, named]
    | none =>
      rw [present] at found
      dsimp only at found
      cases searched : findPackageWithMember dir.path target (archives dir) unreadable with
      | mk result after =>
        rw [searched] at found
        cases result with
        | some pkg =>
          cases found
          obtain ⟨archive, inside, opened, member⟩ := findPackageWithMember_some searched
          refine ⟨fun unit key loaded => loadPackageMember_ok loaded, .inl ?_⟩
          have inDir : archive ∈ dir.files := by
            rw [archives, List.mem_mergeSort] at inside
            exact (List.mem_filter.mp inside).1
          refine List.mem_flatMap.mpr ⟨archive, inDir, ?_⟩
          rw [heldPaths, opened]
          exact .tail _ member
        | none => exact (ih found).imp_right .inr

theorem provided_some {loaded : Except LoadProblem (CompiledModule × Text)}
    (found : provided searchDirs entryPackage target = some loaded) :
    (∀ unit key, loaded = .ok (unit, key) → unit.modulePath = target) ∧ target ∈ presentPaths searchDirs entryPackage := by
  rw [presentPaths, List.mem_append]
  unfold provided at found
  cases entryPackage with
  | none => exact (findTarget_some found).imp_right .inr
  | some pkg =>
    dsimp only at found
    split at found
    · cases found
      exact ⟨fun unit key loaded => loadPackageMember_ok loaded, .inl ‹_›⟩
    · exact (findTarget_some found).imp_right .inr

theorem available_some {unit : CompiledModule} (found : available searchDirs entryPackage target = some unit) :
    unit.modulePath = target ∧ target ∈ presentPaths searchDirs entryPackage := by
  rw [available] at found
  split at found
  · cases found
    rename_i key loaded
    exact ⟨(provided_some loaded).1 _ _ rfl, (provided_some loaded).2⟩
  · cases found

end Available

section Reach
variable (searchDirs : List SearchDir) (entryPackage : Option OpenedPackage) (root : CompiledModule)

def bindTarget (target : Text) : Option CompiledModule :=
  if isValidModulePath target then
    if target = root.modulePath then some root else available searchDirs entryPackage target
  else none

inductive Reached : CompiledModule → Prop where
  | root : Reached root
  | target {owner unit : CompiledModule} {target : Text} (reached : Reached owner)
      (named : target ∈ importTargets owner) (bound : bindTarget searchDirs entryPackage root target = some unit) :
      Reached unit

def NeedsMet : Prop :=
  ∀ owner, Reached searchDirs entryPackage root owner → ∀ target ∈ importTargets owner,
    (bindTarget searchDirs entryPackage root target).isSome

def StaticOwnersReached : Prop :=
  ∀ owner, Reached searchDirs entryPackage root owner → ∀ imp ∈ owner.staticSlotImports,
    ∃ unit, Reached searchDirs entryPackage root unit ∧ unit.modulePath = imp.modulePath

end Reach

section Resolve
variable {searchDirs : List SearchDir} {walk : ClosureWalk} {target : Text}

structure Extends (walk walk' : ClosureWalk) : Prop where
  units : walk.units <+: walk'.units
  resolvedPaths : walk.resolvedPaths ⊆ walk'.resolvedPaths
  problems : walk'.problems = [] → walk.problems = []

theorem Extends.rfl : Extends walk walk := ⟨List.prefix_rfl, fun _ member => member, id⟩

theorem Extends.step {first second third : ClosureWalk} (one : Extends first second) (two : Extends second third) :
    Extends first third where
  units := List.IsPrefix.trans one.units two.units
  resolvedPaths := fun _ member => two.resolvedPaths (one.resolvedPaths member)
  problems := fun clean => one.problems (two.problems clean)

inductive Resolves (searchDirs : List SearchDir) (walk : ClosureWalk) (target : Text) (walk' : ClosureWalk) : Prop where
  | unit (unit : CompiledModule) (found : available searchDirs walk.entryPackage target = some unit)
      (units : walk'.units = walk.units ++ [unit]) (problems : walk'.problems = walk.problems)
  | problem (missing : available searchDirs walk.entryPackage target = none) (units : walk'.units = walk.units)
      (reported : walk'.problems ≠ [])

theorem add_resolves {loaded : Except LoadProblem (CompiledModule × Text)}
    (is_provided : provided searchDirs walk.entryPackage target = some loaded) (start : ClosureWalk)
    (units : start.units = walk.units) (problems : start.problems = walk.problems) :
    Resolves searchDirs walk target (start.add loaded) := by
  cases loaded with
  | error problem =>
    exact .problem (by rw [available, is_provided]) units (by simp [ClosureWalk.add, ClosureWalk.report])
  | ok result =>
    obtain ⟨unit, key⟩ := result
    exact .unit unit (by rw [available, is_provided]) (by rw [ClosureWalk.add, units]) problems

@[simp] theorem add_resolvedPaths (loaded : Except LoadProblem (CompiledModule × Text)) :
    (walk.add loaded).resolvedPaths = walk.resolvedPaths := by cases loaded <;> rfl

@[simp] theorem add_entryPackage (loaded : Except LoadProblem (CompiledModule × Text)) :
    (walk.add loaded).entryPackage = walk.entryPackage := by cases loaded <;> rfl

theorem loadTarget_keeps (searchDirs : List SearchDir) (walk : ClosureWalk) (target : Text) :
    (walk.loadTarget searchDirs target).resolvedPaths = walk.resolvedPaths ∧
      (walk.loadTarget searchDirs target).entryPackage = walk.entryPackage := by
  rw [ClosureWalk.loadTarget]
  split <;> simp [ClosureWalk.report]

theorem loadTarget_resolves (start : ClosureWalk) (units : start.units = walk.units)
    (problems : start.problems = walk.problems)
    (is_provided : provided searchDirs walk.entryPackage target = (findTarget target searchDirs []).1) :
    Resolves searchDirs walk target (start.loadTarget searchDirs target) := by
  have found := findTarget_fst target searchDirs start.unreadablePkgs []
  rw [ClosureWalk.loadTarget]
  generalize findTarget target searchDirs start.unreadablePkgs = searched at found ⊢
  obtain ⟨result, unreadable⟩ := searched
  cases result with
  | some loaded => exact add_resolves (is_provided.trans found.symm) _ units problems
  | none =>
    refine .problem ?_ units (by simp [ClosureWalk.report])
    rw [available, is_provided, ← found]

theorem resolveTarget_fresh (searchDirs : List SearchDir) (fresh : target ∉ walk.resolvedPaths) :
    Resolves searchDirs walk target (walk.resolveTarget searchDirs target) ∧
      (walk.resolveTarget searchDirs target).resolvedPaths = target :: walk.resolvedPaths ∧
      (walk.resolveTarget searchDirs target).entryPackage = walk.entryPackage := by
  rw [ClosureWalk.resolveTarget, if_neg fresh]
  cases entered : walk.entryPackage with
  | none =>
    refine ⟨loadTarget_resolves _ rfl rfl (by rw [provided.eq_def, entered]), ?_⟩
    simpa [entered] using loadTarget_keeps searchDirs
      { walk with resolvedPaths := target :: walk.resolvedPaths } target
  | some pkg =>
    dsimp only
    by_cases member : target ∈ pkg.memberPaths
    · rw [if_pos member]
      refine ⟨add_resolves (by rw [provided.eq_def, entered]; exact if_pos member) _ rfl rfl, ?_⟩
      simp
    · rw [if_neg member]
      refine ⟨loadTarget_resolves _ rfl rfl (by rw [provided.eq_def, entered]; exact if_neg member), ?_⟩
      simpa [entered] using loadTarget_keeps searchDirs
        { walk with resolvedPaths := target :: walk.resolvedPaths } target

theorem visitTarget_extends (ownerPath : Text) : Extends walk (walk.visitTarget searchDirs ownerPath target) := by
  rw [ClosureWalk.visitTarget]
  split
  · by_cases known : target ∈ walk.resolvedPaths
    · rw [ClosureWalk.resolveTarget, if_pos known]
      exact .rfl
    · obtain ⟨resolves, paths, -⟩ := resolveTarget_fresh searchDirs known
      have grown : walk.resolvedPaths ⊆ (walk.resolveTarget searchDirs target).resolvedPaths :=
        fun path member => paths ▸ .tail _ member
      cases resolves with
      | unit unit found units problems => exact ⟨⟨[unit], units.symm⟩, grown, fun clean => problems ▸ clean⟩
      | problem missing units reported => exact ⟨⟨[], by simp [units]⟩, grown, fun clean => absurd clean reported⟩
  · exact ⟨List.prefix_rfl, fun _ member => member, fun clean => by simp [ClosureWalk.report] at clean⟩

theorem visitTarget_resolved {ownerPath : Text} (clean : (walk.visitTarget searchDirs ownerPath target).problems = []) :
    isValidModulePath target ∧ target ∈ (walk.visitTarget searchDirs ownerPath target).resolvedPaths := by
  rw [ClosureWalk.visitTarget] at clean ⊢
  split at clean
  · rename_i valid
    rw [if_pos valid]
    refine ⟨valid, ?_⟩
    by_cases known : target ∈ walk.resolvedPaths
    · rwa [ClosureWalk.resolveTarget, if_pos known]
    · rw [(resolveTarget_fresh searchDirs known).2.1]
      exact .head _
  · simp [ClosureWalk.report] at clean

end Resolve

section Discover
variable (searchDirs : List SearchDir) (entryPackage : Option OpenedPackage) (root : CompiledModule)

structure Discovered (walk : ClosureWalk) : Prop where
  entry : walk.entryPackage = entryPackage
  rooted : root ∈ walk.units
  distinct : (walk.units.map (·.modulePath)).Nodup
  resolved : ∀ unit ∈ walk.units, unit.modulePath ∈ walk.resolvedPaths
  loaded : walk.problems = [] → ∀ path ∈ walk.resolvedPaths, ∃ unit ∈ walk.units, unit.modulePath = path
  reached : ∀ unit ∈ walk.units, Reached searchDirs entryPackage root unit
  found : ∀ unit ∈ walk.units, unit = root ∨ available searchDirs entryPackage unit.modulePath = some unit
  clean : NeedsMet searchDirs entryPackage root → walk.problems = []

def WalkedTo (i : Nat) (walk : ClosureWalk) : Prop :=
  walk.problems = [] → ∀ j unit, j < i → walk.units[j]? = some unit → ∀ target ∈ importTargets unit,
    isValidModulePath target ∧ target ∈ walk.resolvedPaths

variable {searchDirs entryPackage root} {walk : ClosureWalk}

theorem Discovered.visitTarget (discovered : Discovered searchDirs entryPackage root walk) {owner : CompiledModule}
    (reached : Reached searchDirs entryPackage root owner) {target : Text} (named : target ∈ importTargets owner) :
    Discovered searchDirs entryPackage root (walk.visitTarget searchDirs owner.modulePath target) := by
  have needed := fun met : NeedsMet searchDirs entryPackage root => met owner reached target named
  rw [ClosureWalk.visitTarget]
  by_cases valid : isValidModulePath target
  · rw [if_pos valid]
    by_cases known : target ∈ walk.resolvedPaths
    · rwa [ClosureWalk.resolveTarget, if_pos known]
    · have apart : target ≠ root.modulePath := fun same => known (same ▸ discovered.resolved root discovered.rooted)
      have bound : bindTarget searchDirs entryPackage root target = available searchDirs entryPackage target := by
        rw [bindTarget, if_pos valid, if_neg apart]
      obtain ⟨resolves, paths, entry⟩ := resolveTarget_fresh searchDirs known
      rw [discovered.entry] at entry
      cases resolves with
      | unit unit found units problems =>
        rw [discovered.entry] at found
        have path : unit.modulePath = target := (available_some found).1
        have fresh : unit.modulePath ∉ walk.units.map (·.modulePath) := by
          rw [path, List.mem_map]
          rintro ⟨other, member, same⟩
          exact known (same ▸ discovered.resolved other member)
        refine ⟨entry, ?_, ?_, ?_, ?_, ?_, ?_, ?_⟩
        · rw [units]
          exact List.mem_append_left _ discovered.rooted
        · rw [units, List.map_append, List.nodup_append]
          refine ⟨discovered.distinct, by simp, ?_⟩
          rintro path member other single rfl
          rw [List.map_singleton, List.mem_singleton] at single
          exact fresh (single ▸ member)
        · rw [units, paths]
          intro other member
          rcases List.mem_append.mp member with old | new
          · exact .tail _ (discovered.resolved other old)
          · rw [List.mem_singleton.mp new, path]
            exact .head _
        · rw [units, paths, problems]
          intro clean other member
          rcases List.mem_cons.mp member with rfl | old
          · exact ⟨unit, by simp, path⟩
          · obtain ⟨unit, inside, same⟩ := discovered.loaded clean other old
            exact ⟨unit, List.mem_append_left _ inside, same⟩
        · rw [units]
          intro other member
          rcases List.mem_append.mp member with old | new
          · exact discovered.reached other old
          · rw [List.mem_singleton.mp new]
            exact .target reached named (bound.trans found)
        · rw [units]
          intro other member
          rcases List.mem_append.mp member with old | new
          · exact discovered.found other old
          · rw [List.mem_singleton.mp new, path]
            exact .inr found
        · rw [problems]
          exact discovered.clean
      | problem missing units reported =>
        rw [discovered.entry] at missing
        refine ⟨entry, ?_, ?_, ?_, ?_, ?_, ?_, ?_⟩
        · rw [units]
          exact discovered.rooted
        · rw [units]
          exact discovered.distinct
        · rw [units, paths]
          exact fun unit member => .tail _ (discovered.resolved unit member)
        · exact fun clean => absurd clean reported
        · rw [units]
          exact discovered.reached
        · rw [units]
          exact discovered.found
        · intro met
          have present := needed met
          rw [bound, missing] at present
          cases present
  · rw [if_neg valid]
    refine ⟨discovered.entry, discovered.rooted, discovered.distinct, discovered.resolved, ?_, discovered.reached,
      discovered.found, ?_⟩
    · exact fun clean => by simp [ClosureWalk.report] at clean
    · intro met
      have present := needed met
      rw [bindTarget, if_neg valid] at present
      cases present

theorem Discovered.walkTargets {owner : CompiledModule} (reached : Reached searchDirs entryPackage root owner)
    (targets : List Text) (named : targets ⊆ importTargets owner) (discovered : Discovered searchDirs entryPackage root walk) :
    let walk' := targets.foldl (ClosureWalk.visitTarget searchDirs owner.modulePath) walk
    Discovered searchDirs entryPackage root walk' ∧ Extends walk walk' ∧
      (walk'.problems = [] → ∀ target ∈ targets, isValidModulePath target ∧ target ∈ walk'.resolvedPaths) := by
  induction targets generalizing walk with
  | nil => exact ⟨discovered, .rfl, fun _ _ member => nomatch member⟩
  | cons target targets ih =>
    have visited := discovered.visitTarget reached (named (.head _))
    obtain ⟨last, extended, resolved⟩ := ih (fun _ member => named (.tail _ member)) visited
    refine ⟨last, Extends.step (visitTarget_extends owner.modulePath) extended, fun clean other member => ?_⟩
    rcases List.mem_cons.mp member with rfl | member
    · obtain ⟨valid, inside⟩ := visitTarget_resolved (extended.problems clean)
      exact ⟨valid, extended.resolvedPaths inside⟩
    · exact resolved clean other member

theorem Discovered.walkUnit {i : Nat} {unit : CompiledModule} (discovered : Discovered searchDirs entryPackage root walk)
    (walked : WalkedTo i walk) (current : walk.units[i]? = some unit) :
    Discovered searchDirs entryPackage root (visitUnit searchDirs walk unit) ∧
      WalkedTo (i + 1) (visitUnit searchDirs walk unit) := by
  have member : unit ∈ walk.units := List.mem_of_getElem? current
  obtain ⟨last, extended, resolved⟩ :=
    discovered.walkTargets (discovered.reached unit member) (importTargets unit) (fun _ member => member)
  refine ⟨last, fun clean j other before at_j target named => ?_⟩
  have inWalk : j < walk.units.length := by
    have := (List.getElem?_eq_some_iff.mp current).1
    omega
  have same : walk.units[j]? = some other := by
    obtain ⟨suffix, appended⟩ := extended.units
    rw [visitUnit, ← appended, List.getElem?_append_left inWalk] at at_j
    exact at_j
  rcases Nat.lt_succ_iff_lt_or_eq.mp before with earlier | rfl
  · obtain ⟨valid, inside⟩ := walked (extended.problems clean) j other earlier same target named
    exact ⟨valid, extended.resolvedPaths inside⟩
  · cases current.symm.trans same
    exact resolved clean target named

theorem Discovered.units_length (discovered : Discovered searchDirs entryPackage root walk) :
    walk.units.length ≤ 1 + (presentPaths searchDirs entryPackage).length := by
  have inside : walk.units.map (·.modulePath) ⊆ root.modulePath :: presentPaths searchDirs entryPackage := by
    intro path member
    obtain ⟨unit, loaded, rfl⟩ := List.mem_map.mp member
    rcases discovered.found unit loaded with rfl | found
    · exact .head _
    · exact .tail _ (available_some found).2
  have count := (List.subperm_of_subset discovered.distinct inside).length_le
  rw [List.length_map, List.length_cons] at count
  omega

theorem Discovered.mem_of_reached (discovered : Discovered searchDirs entryPackage root walk)
    (walked : WalkedTo walk.units.length walk) (clean : walk.problems = []) {unit : CompiledModule}
    (reached : Reached searchDirs entryPackage root unit) : unit ∈ walk.units := by
  induction reached with
  | root => exact discovered.rooted
  | @target owner unit target _ named bound member =>
    obtain ⟨j, inside, at_j⟩ := List.getElem_of_mem member
    obtain ⟨valid, resolved⟩ := walked clean j owner inside (List.getElem?_eq_some_iff.mpr ⟨inside, at_j⟩) target named
    obtain ⟨other, loaded, path⟩ := discovered.loaded clean target resolved
    rw [bindTarget, if_pos valid] at bound
    split at bound
    · cases bound
      exact discovered.rooted
    · rename_i apart
      rcases discovered.found other loaded with rfl | found
      · exact absurd path.symm apart
      · rw [path, bound] at found
        cases found
        exact loaded

theorem Discovered.clean_iff (discovered : Discovered searchDirs entryPackage root walk)
    (walked : WalkedTo walk.units.length walk) : walk.problems = [] ↔ NeedsMet searchDirs entryPackage root := by
  refine ⟨fun clean owner reached target named => ?_, discovered.clean⟩
  obtain ⟨j, inside, at_j⟩ := List.getElem_of_mem (discovered.mem_of_reached walked clean reached)
  obtain ⟨valid, resolved⟩ := walked clean j owner inside (List.getElem?_eq_some_iff.mpr ⟨inside, at_j⟩) target named
  obtain ⟨unit, loaded, path⟩ := discovered.loaded clean target resolved
  rw [bindTarget, if_pos valid]
  split
  · rfl
  · rename_i apart
    rcases discovered.found unit loaded with rfl | found
    · exact absurd path.symm apart
    · rw [← path, found]
      rfl

variable (searchDirs entryPackage root) in
def startWalk : ClosureWalk := { units := [root], resolvedPaths := [root.modulePath], entryPackage }

theorem discovered_start : Discovered searchDirs entryPackage root (startWalk entryPackage root) where
  entry := rfl
  rooted := .head _
  distinct := List.nodup_singleton _
  resolved := fun _ member => List.mem_singleton.mp member ▸ .head _
  loaded := fun _ _ member => ⟨root, .head _, (List.mem_singleton.mp member).symm⟩
  reached := fun _ member => List.mem_singleton.mp member ▸ .root
  found := fun _ member => .inl (List.mem_singleton.mp member)
  clean := fun _ => rfl

theorem discoverClosure_spec (root : CompiledModule) {fuel : Nat} (enough : 1 + (presentPaths searchDirs entryPackage).length ≤ fuel) :
    ∃ last, discoverClosure searchDirs fuel (startWalk entryPackage root) = some last ∧
      Discovered searchDirs entryPackage root last ∧ WalkedTo last.units.length last := by
  let inv (i : Nat) (walk : ClosureWalk) := Discovered searchDirs entryPackage root walk ∧ WalkedTo i walk
  have step : ∀ i walk unit, walk.units[i]? = some unit → inv i walk → inv (i + 1) (visitUnit searchDirs walk unit) :=
    fun i walk unit current held => held.1.walkUnit held.2 current
  have start : inv 0 (startWalk entryPackage root) := ⟨discovered_start, fun _ _ _ before => nomatch before⟩
  obtain ⟨last, walked⟩ := walkFrom_total step (fun i walk held => held.1.units_length) start (by omega : _ ≤ 0 + fuel)
  obtain ⟨visited, all, discovered, held⟩ := walkFrom_invariant step start walked
  exact ⟨last, walked, discovered, fun clean j unit before => held clean j unit (by omega)⟩

end Discover

section Closure
variable (searchDirs : List SearchDir) (artifact : EntryArtifact)

def allImports (unit : CompiledModule) : List SymbolImport := walkedImports unit ++ unit.staticSlotImports

def ClosureComplete : Prop :=
  ∃ most, ∀ fuel, most ≤ fuel → ∃ outcome, loadClosure searchDirs artifact fuel = some outcome ∧
    ∀ closure, outcome = .ok closure → (closure.units.map (·.modulePath)).Nodup ∧
      ∀ unit ∈ closure.units, ∀ imp ∈ allImports unit, ∃ owner ∈ closure.units, owner.modulePath = imp.modulePath

def StaticOwnersWalked : Prop :=
  ∀ root entryPackage key, loadEntry artifact = .ok (startWalk entryPackage root, key) →
    NeedsMet searchDirs entryPackage root → StaticOwnersReached searchDirs entryPackage root

variable {searchDirs artifact}

theorem loadEntry_ok {walk : ClosureWalk} {key : Text} (entered : loadEntry artifact = .ok (walk, key)) :
    ∃ entryPackage root, walk = startWalk entryPackage root := by
  rw [loadEntry] at entered
  split at entered
  · split at entered
    · cases entered
    · rename_i pkg _
      split at entered
      · cases entered
      · split at entered
        · cases entered
        · rename_i unit _ _
          cases entered
          exact ⟨some pkg, unit, rfl⟩
  · split at entered
    · cases entered
    · rename_i unit _ _
      cases entered
      exact ⟨none, unit, rfl⟩

theorem ownersPresent_iff {entryPackage : Option OpenedPackage} {root : CompiledModule} {last : ClosureWalk}
    (discovered : Discovered searchDirs entryPackage root last) (walked : WalkedTo last.units.length last)
    (clean : last.problems = []) :
    (∀ unit ∈ last.units, ∀ imp ∈ allImports unit, ∃ owner ∈ last.units, owner.modulePath = imp.modulePath) ↔
      StaticOwnersReached searchDirs entryPackage root := by
  constructor
  · intro present owner reached imp imported
    obtain ⟨unit, member, path⟩ := present owner (discovered.mem_of_reached walked clean reached) imp
      (List.mem_append_right _ imported)
    exact ⟨unit, discovered.reached unit member, path⟩
  · intro owners unit member imp imported
    rcases List.mem_append.mp imported with inWalked | isStatic
    · obtain ⟨j, inside, at_j⟩ := List.getElem_of_mem member
      obtain ⟨-, resolved⟩ := walked clean j unit inside (List.getElem?_eq_some_iff.mpr ⟨inside, at_j⟩) imp.modulePath
        (mem_importTargets.mpr ⟨imp, inWalked, rfl⟩)
      exact discovered.loaded clean imp.modulePath resolved
    · obtain ⟨owner, reached, path⟩ := owners unit (discovered.reached unit member) imp isStatic
      exact ⟨owner, discovered.mem_of_reached walked clean reached, path⟩

theorem closure_complete_iff (searchDirs : List SearchDir) (artifact : EntryArtifact) :
    ClosureComplete searchDirs artifact ↔ StaticOwnersWalked searchDirs artifact := by
  constructor
  · rintro ⟨most, complete⟩ root entryPackage key entered met
    let fuel := max most (1 + (presentPaths searchDirs entryPackage).length)
    obtain ⟨outcome, loaded, facts⟩ := complete fuel (le_max_left _ _)
    obtain ⟨last, ended, discovered, walked⟩ :=
      discoverClosure_spec root (le_max_right most (1 + (presentPaths searchDirs entryPackage).length))
    have clean := discovered.clean met
    simp only [loadClosure, entered, ended, Option.map_some, clean, ne_eq, not_true_eq_false, if_false,
      Option.some.injEq, fuel] at loaded
    exact (ownersPresent_iff discovered walked clean).mp (facts _ loaded.symm).2
  · intro owners
    cases entered : loadEntry artifact with
    | error failure =>
      exact ⟨0, fun fuel _ => ⟨.error failure, by simp [loadClosure, entered], fun _ failed => nomatch failed⟩⟩
    | ok entry =>
      obtain ⟨walk, key⟩ := entry
      obtain ⟨entryPackage, root, rfl⟩ := loadEntry_ok entered
      refine ⟨1 + (presentPaths searchDirs entryPackage).length, fun fuel enough => ?_⟩
      obtain ⟨last, ended, discovered, walked⟩ := discoverClosure_spec root enough
      refine ⟨_, by rw [loadClosure, entered]; dsimp only; rw [ended, Option.map_some], fun closure loaded => ?_⟩
      split at loaded
      · cases loaded
      · rename_i clean
        have clean : last.problems = [] := not_not.mp clean
        cases loaded
        exact ⟨discovered.distinct, (ownersPresent_iff discovered walked clean).mpr
          (owners root entryPackage key entered ((discovered.clean_iff walked).mp clean))⟩

def slotProvider : CompiledModule := { modulePath := [108, 105, 98], staticSlots := [{ name := [120] }] }

/-- `main`, which reads the slot of an interface of `lib` and nothing else of it. -/
def slotConsumer : CompiledModule :=
  { modulePath := [109], staticSlots := [{ name := [120] }],
    staticSlotImports := [{ modulePath := [108, 105, 98], name := [120], ownerKind := 1, ownerOrdinal := 0 }] }

def providerDir : SearchDir :=
  { path := [46], files := [{ name := [108, 105, 98] ++ ncuExtension, asUnit := .ok (slotProvider, []), asPackage := .error [] }] }

def consumerArtifact : EntryArtifact :=
  { path := [109] ++ ncuExtension, asUnit := .ok (slotConsumer, []), asPackage := .error [] }

theorem discover_slotConsumer (fuel : Nat) :
    discoverClosure [providerDir] (fuel + 1) (startWalk none slotConsumer) = some (startWalk none slotConsumer) := by
  cases fuel <;> rfl

theorem slotConsumer_not_complete : ¬ ClosureComplete [providerDir] consumerArtifact := by
  rintro ⟨most, complete⟩
  obtain ⟨outcome, loaded, facts⟩ := complete (most + 1) (Nat.le_succ _)
  have entered : loadEntry consumerArtifact = .ok (startWalk none slotConsumer, []) := rfl
  rw [loadClosure, entered] at loaded
  dsimp only at loaded
  rw [discover_slotConsumer, Option.map_some, Option.some.injEq] at loaded
  obtain ⟨-, owners⟩ := facts _ loaded.symm
  obtain ⟨owner, inside, path⟩ := owners slotConsumer (.head _) _ (.head _)
  rw [List.mem_singleton.mp inside] at path
  exact absurd path (by decide)

end Closure

end NLang.Linker
