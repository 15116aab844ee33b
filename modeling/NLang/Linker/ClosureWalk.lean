import NLang.Image.Records
import NLang.Package.Container
import NLang.Library.GrowingLists

/-!
# Discovery of the link closure

`src/vm/NcuLoader.cpp`: from an entry artifact, the units that its import slots name, found on the search path. A file
stands for what `ModuleLoader` and `NcuPackageReader` make of its bytes.
-/

namespace NLang.Linker
open NLang.Library NLang.Image
open NLang.Package (NcuEntryRecord)

abbrev LoadedUnit := Except Text (CompiledModule × Text)

structure OpenedPackage where
  packageName : Text
  entryRecord : Option NcuEntryRecord := none
  members : List (Text × Except Text LoadedUnit) := []

def OpenedPackage.memberPaths (pkg : OpenedPackage) : List Text := pkg.members.map (·.1)

def OpenedPackage.extractMember (pkg : OpenedPackage) (target : Text) : Except Text LoadedUnit :=
  match pkg.members.find? (·.1 = target) with
  | some member => member.2
  | none => .error target

structure RegularFile where
  name : Text
  asUnit : LoadedUnit
  asPackage : Except Text OpenedPackage

structure SearchDir where
  path : Text
  files : List RegularFile := []

def ncuExtension : Text := [46, 110, 99, 117]

def npkgExtension : Text := [46, 110, 112, 107, 103]

def slash : UInt8 := 47

def extensionOf (path : Text) : Text :=
  let fileName := (path.reverse.takeWhile (· ≠ slash)).reverse
  let tail := leafNameOfKey fileName
  if fileName.length ≤ tail.length + 1 ∨ fileName = [dot, dot] then [] else dot :: tail

inductive UnitSource where
  | file (path : Text)
  | member (packageName target : Text)

inductive LoadProblem where
  | malformedPath (ownerPath target : Text)
  | notFound (target : Text) (searchDirs : List Text) (unreadablePkgs : List (Text × Text))
  | extraction (error : Text)
  | load (source : UnitSource) (error : Text)
  | mislabeled (target : Text) (source : UnitSource) (modulePath : Text)

structure ClosureWalk where
  units : List CompiledModule := []
  resolvedPaths : List Text := []
  problems : List LoadProblem := []
  entryPackage : Option OpenedPackage := none
  unreadablePkgs : List (Text × Text) := []

def pathSeparators : Text := [47, 92, 58]

def segments (path : Text) : List Text := path.splitOn dot

def isValidModulePath (path : Text) : Bool :=
  path ≠ [] && path.all (· ∉ pathSeparators) && (segments path).all fun segment =>
    segment ≠ [] && segment ≠ [dot] && segment ≠ [dot, dot]

def acceptUnit (target : Text) (source : UnitSource) : LoadedUnit → Except LoadProblem (CompiledModule × Text)
  | .error error => .error (.load source error)
  | .ok (unit, key) =>
    if unit.modulePath ≠ target then .error (.mislabeled target source unit.modulePath) else .ok (unit, key)

def loadPackageMember (pkg : OpenedPackage) (target : Text) : Except LoadProblem (CompiledModule × Text) :=
  match pkg.extractMember target with
  | .error error => .error (.extraction error)
  | .ok loaded => acceptUnit target (.member pkg.packageName target) loaded

def archives (dir : SearchDir) : List RegularFile :=
  (dir.files.filter fun file => extensionOf file.name = npkgExtension).mergeSort fun first second =>
    decide (first.name ≤ second.name)

def joinPath (dir name : Text) : Text := dir ++ slash :: name

def findPackageWithMember (dir target : Text) :
    List RegularFile → List (Text × Text) → Option OpenedPackage × List (Text × Text)
  | [], unreadable => (none, unreadable)
  | archive :: rest, unreadable =>
    match archive.asPackage with
    | .error error => findPackageWithMember dir target rest (unreadable.insert (joinPath dir archive.name, error))
    | .ok pkg => if target ∈ pkg.memberPaths then (some pkg, unreadable)
        else findPackageWithMember dir target rest unreadable

def findTarget (target : Text) : List SearchDir → List (Text × Text) →
    Option (Except LoadProblem (CompiledModule × Text)) × List (Text × Text)
  | [], unreadable => (none, unreadable)
  | dir :: rest, unreadable =>
    match dir.files.find? (·.name = target ++ ncuExtension) with
    | some file => (some (acceptUnit target (.file (joinPath dir.path file.name)) file.asUnit), unreadable)
    | none =>
      match findPackageWithMember dir.path target (archives dir) unreadable with
      | (some pkg, unreadable) => (some (loadPackageMember pkg target), unreadable)
      | (none, unreadable) => findTarget target rest unreadable

namespace ClosureWalk

def report (walk : ClosureWalk) (problem : LoadProblem) : ClosureWalk :=
  { walk with problems := walk.problems ++ [problem] }

def add (walk : ClosureWalk) : Except LoadProblem (CompiledModule × Text) → ClosureWalk
  | .error problem => walk.report problem
  | .ok (unit, _) => { walk with units := walk.units ++ [unit] }

def loadTarget (searchDirs : List SearchDir) (walk : ClosureWalk) (target : Text) : ClosureWalk :=
  match findTarget target searchDirs walk.unreadablePkgs with
  | (some loaded, unreadable) => { walk with unreadablePkgs := unreadable }.add loaded
  | (none, unreadable) =>
    { walk with unreadablePkgs := unreadable }.report (.notFound target (searchDirs.map SearchDir.path) unreadable)

def resolveTarget (searchDirs : List SearchDir) (walk : ClosureWalk) (target : Text) : ClosureWalk :=
  if target ∈ walk.resolvedPaths then walk
  else
    let walk := { walk with resolvedPaths := target :: walk.resolvedPaths }
    match walk.entryPackage with
    | some pkg => if target ∈ pkg.memberPaths then walk.add (loadPackageMember pkg target)
        else walk.loadTarget searchDirs target
    | none => walk.loadTarget searchDirs target

def visitTarget (searchDirs : List SearchDir) (ownerPath : Text) (walk : ClosureWalk) (target : Text) : ClosureWalk :=
  if isValidModulePath target then walk.resolveTarget searchDirs target
  else walk.report (.malformedPath ownerPath target)

end ClosureWalk

def walkedImports (unit : CompiledModule) : List SymbolImport :=
  unit.functionImports ++ unit.classImports ++ unit.structImports ++ unit.enumImports

def importTargets (unit : CompiledModule) : List Text :=
  (walkedImports unit).foldl (fun targets imp => if imp.modulePath ∈ targets then targets else targets ++ [imp.modulePath]) []

def visitUnit (searchDirs : List SearchDir) (walk : ClosureWalk) (unit : CompiledModule) : ClosureWalk :=
  (importTargets unit).foldl (ClosureWalk.visitTarget searchDirs unit.modulePath) walk

def discoverClosure (searchDirs : List SearchDir) (fuel : Nat) (walk : ClosureWalk) : Option ClosureWalk :=
  walkFrom ClosureWalk.units (visitUnit searchDirs) fuel 0 walk

structure EntryArtifact where
  path : Text
  asUnit : LoadedUnit
  asPackage : Except Text OpenedPackage

inductive LoadFailure where
  | cannotOpen (path error : Text)
  | noMembers (path : Text)
  | problems (problems : List LoadProblem)

def entryMember (pkg : OpenedPackage) : Option Text :=
  match pkg.entryRecord with
  | some record => some record.modulePath
  | none => pkg.memberPaths.head?

def loadEntry (artifact : EntryArtifact) : Except LoadFailure (ClosureWalk × Text) :=
  if extensionOf artifact.path = npkgExtension then
    match artifact.asPackage with
    | .error error => .error (.cannotOpen artifact.path error)
    | .ok pkg =>
      match entryMember pkg with
      | none => .error (.noMembers artifact.path)
      | some memberPath =>
        match loadPackageMember pkg memberPath with
        | .error problem => .error (.problems [problem])
        | .ok (unit, key) => .ok
            ({ units := [unit], resolvedPaths := [unit.modulePath], entryPackage := some pkg },
              match pkg.entryRecord with
              | some record => record.modulePath ++ dot :: record.functionName
              | none => key)
  else
    match artifact.asUnit with
    | .error error => .error (.cannotOpen artifact.path error)
    | .ok (unit, key) => .ok ({ units := [unit], resolvedPaths := [unit.modulePath] }, key)

structure Closure where
  units : List CompiledModule
  entryKey : Text

def loadClosure (searchDirs : List SearchDir) (artifact : EntryArtifact) (fuel : Nat) :
    Option (Except LoadFailure Closure) :=
  match loadEntry artifact with
  | .error failure => some (.error failure)
  | .ok (walk, entryKey) =>
    (discoverClosure searchDirs fuel walk).map fun walk =>
      if walk.problems ≠ [] then .error (.problems walk.problems) else .ok { units := walk.units, entryKey }

end NLang.Linker
