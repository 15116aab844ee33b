import NLang.Compiler.Declarations
import NLang.Library.DepthFirst

/-!
# Import cycles

`RejectImportCycles` of `ModuleBuilderImportCycles.cpp` and the search in `ImportCycleCheck.cpp`, over the compiled units
and the loaded images of a build. A search is run for a number of levels, and gives nothing where these are not enough.
-/

namespace NLang.Compiler
open NLang.Image NLang.Library.DepthFirst

structure ImportSpec where
  segments : List Identifier
  wildcard : Bool := false
  nonempty : segments ≠ [] := by decide

def ImportSpec.dottedName (spec : ImportSpec) : Text := [dot].intercalate (spec.segments.map (·.text))

structure TranslationUnit where
  modulePath : Text
  imports : List ImportSpec

structure ImportedBuild where
  units : List TranslationUnit
  externals : List Text
  images : List CompiledModule

namespace ImportCycleCheck

abbrev EdgeTable := List (Text × List Text)

def arrow : Text := [32, 45, 62, 32]

section Check
variable (rootModule : Text) (rootDirectImports : List Text) (imageImports : EdgeTable)

def edgesOf (node : Text) : List Text :=
  if node = rootModule then rootDirectImports else (imageImports.lookup node).getD []

def reconstructCycle (cycle : List Text) : Text :=
  let found := cycle.dropLast.foldl (fun found k => (if found ≠ [] then found ++ arrow else found) ++ k) []
  found ++ arrow ++ (cycle.getLast?.getD [])

def check (levels : Nat) : Option Text :=
  (search (edgesOf rootModule rootDirectImports imageImports) levels [rootModule]).map fun found =>
    match found with
    | .ok _ => []
    | .error cycle => reconstructCycle cycle

end Check

end ImportCycleCheck

open ImportCycleCheck

def unique : List Text → List Text
  | first :: second :: rest => if first = second then unique (second :: rest) else first :: unique (second :: rest)
  | short => short

def addEdges (edges : EdgeTable) (module : Text) (targets : List Text) : EdgeTable :=
  if (edges.lookup module).isSome then edges
  else edges ++ [(module, unique (targets.insertionSort (· ≤ ·)))]

def expandWildcard (allPaths : List Text) (spec : ImportSpec) : List Text :=
  spec.dottedName :: if spec.wildcard then allPaths.filter ((spec.dottedName ++ [dot]).isPrefixOf ·) else []

def dropSelfReference (module : Text) (targets : List Text) : List Text := targets.filter (· ≠ module)

def importRecords (image : CompiledModule) : List SymbolImport :=
  image.functionImports ++ image.classImports ++ image.structImports ++ image.enumImports ++ image.staticSlotImports

def imageImportTargets (image : CompiledModule) : List Text := ((importRecords image).map (·.modulePath)).filter (· ≠ [])

namespace ImportedBuild
variable (build : ImportedBuild)

def allPaths : List Text := build.units.map (·.modulePath) ++ build.externals

def unitEdges (unit : TranslationUnit) : List Text :=
  dropSelfReference unit.modulePath (unit.imports.flatMap (expandWildcard build.allPaths))

def collectImportGraphEdges : EdgeTable :=
  let edges := build.units.foldl (fun edges unit => addEdges edges unit.modulePath (build.unitEdges unit)) []
  build.images.foldl (fun edges image => addEdges edges image.modulePath (imageImportTargets image)) edges

def detected : Text :=
  [105, 109, 112, 111, 114, 116, 32, 99, 121, 99, 108, 101, 32, 100, 101, 116, 101, 99, 116, 101, 100, 58, 32]

def rejectFrom (levels : Nat) (edges : EdgeTable) : List TranslationUnit → Option (Option Text)
  | [] => some none
  | unit :: units =>
    match check unit.modulePath (build.unitEdges unit) edges levels with
    | none => none
    | some cycle => if cycle ≠ [] then some (some (detected ++ cycle)) else rejectFrom levels edges units

def rejectImportCycles (levels : Nat) : Option (Option Text) :=
  build.rejectFrom levels build.collectImportGraphEdges build.units

def Reaches (spec : ImportSpec) (path : Text) : Prop :=
  path = spec.dottedName ∨ spec.wildcard = true ∧ path ∈ build.allPaths ∧ spec.dottedName ++ [dot] <+: path

def Imports (module target : Text) : Prop :=
  (∃ unit ∈ build.units, unit.modulePath = module ∧ target ≠ module ∧ ∃ spec ∈ unit.imports, build.Reaches spec target) ∨
  ((∀ unit ∈ build.units, unit.modulePath ≠ module) ∧
    ∃ image, build.images.find? (·.modulePath = module) = some image ∧ target ≠ [] ∧
      ∃ record ∈ importRecords image, record.modulePath = target)

structure IsImportCycle (names : List Text) : Prop where
  edges : names.IsChain build.Imports
  closed : names.head? = names.getLast?
  long : 2 ≤ names.length

end ImportedBuild

section Search
variable {rootModule : Text} {rootDirectImports : List Text} {imageImports : EdgeTable}

theorem edgesOf_subset (node : Text) :
    edgesOf rootModule rootDirectImports imageImports node ⊆ rootDirectImports ++ imageImports.flatMap (·.2) := by
  rw [edgesOf]
  split
  · exact List.subset_append_left _ _
  · cases found : imageImports.lookup node with
    | none => exact List.nil_subset _
    | some targets =>
      intro target member
      obtain ⟨before, after, rfl, -⟩ := List.lookup_eq_some_iff.mp found
      exact List.mem_append_right _ (List.mem_flatMap.mpr ⟨_, List.mem_append_right _ (.head _), member⟩)

theorem reconstructCycle_ne_nil (cycle : List Text) : reconstructCycle cycle ≠ [] := by
  simp [reconstructCycle, arrow]

theorem foldl_arrows {found : Text} (some_ : found ≠ []) (names : List Text) :
    names.foldl (fun found k => (if found ≠ [] then found ++ arrow else found) ++ k) found =
      found ++ names.flatMap (arrow ++ ·) := by
  induction names generalizing found with
  | nil => simp
  | cons name names ih =>
    rw [List.foldl_cons, if_pos some_, ih (by simp [some_]), List.flatMap_cons, List.append_assoc, List.append_assoc,
      List.append_assoc]

theorem intercalate_flatMap (first : Text) (names : List Text) :
    arrow.intercalate (first :: names) = first ++ names.flatMap (arrow ++ ·) := by
  induction names generalizing first with
  | nil => simp
  | cons name names ih => rw [List.intercalate_cons_cons, ih, List.flatMap_cons, List.append_assoc, List.append_assoc]

theorem reconstructCycle_eq {cycle : List Text} {first : Text} (starts : cycle.head? = some first) (named : first ≠ [])
    (long : 2 ≤ cycle.length) : reconstructCycle cycle = arrow.intercalate cycle := by
  have some_ : cycle ≠ [] := List.ne_nil_of_length_pos (by omega)
  match cycle.eq_nil_or_concat.resolve_left some_ with
  | ⟨[], last, whole⟩ =>
    rw [whole] at long
    simp at long
  | ⟨name :: names, last, whole⟩ =>
    rw [whole, List.concat_eq_append] at starts ⊢
    have same : name = first := Option.some.inj starts
    subst same
    rw [reconstructCycle, List.dropLast_concat, List.getLast?_concat, List.foldl_cons, Option.getD_some]
    rw [if_neg (not_not_intro rfl), List.nil_append, foldl_arrows named, List.cons_append, intercalate_flatMap]
    simp

theorem check_exact {nodes : List Text} (root : rootModule ∈ nodes)
    (closed : ∀ node ∈ nodes, edgesOf rootModule rootDirectImports imageImports node ⊆ nodes) {levels : Nat}
    (enough : nodes.length < levels) :
    ∃ report, check rootModule rootDirectImports imageImports levels = some report ∧
      (report = [] ↔ ∀ node, Relation.ReflTransGen (Edge (edgesOf rootModule rootDirectImports imageImports)) rootModule node →
        ¬ Relation.TransGen (Edge (edgesOf rootModule rootDirectImports imageImports)) node node) ∧
      (report ≠ [] → ∃ cycle, IsCycle (edgesOf rootModule rootDirectImports imageImports) cycle ∧
        report = reconstructCycle cycle) := by
  rw [check]
  cases found : search (edgesOf rootModule rootDirectImports imageImports) levels [rootModule] with
  | none => exact absurd found (search_total closed (List.cons_subset.mpr ⟨root, List.nil_subset _⟩) enough)
  | some result =>
    cases result with
    | ok visited =>
      refine ⟨[], rfl, iff_of_true rfl fun node reach => ?_, fun none => absurd rfl none⟩
      exact search_acyclic found (List.mem_singleton_self _) reach
    | error cycle =>
      obtain ⟨isCycle, reached⟩ := search_error found
      refine ⟨_, rfl, iff_of_false (reconstructCycle_ne_nil cycle) fun acyclic => ?_, fun _ => ⟨cycle, isCycle, rfl⟩⟩
      obtain ⟨first, starts⟩ : ∃ first, cycle.head? = some first := by
        cases cycle with
        | nil => exact absurd isCycle.long (by simp)
        | cons first rest => exact ⟨first, rfl⟩
      obtain ⟨root', isRoot, reach⟩ := reached first (List.mem_of_mem_head? starts)
      obtain rfl := List.mem_singleton.mp isRoot
      exact acyclic first reach (isCycle.transGen starts)

end Search

theorem mem_unique {target : Text} {targets : List Text} : target ∈ unique targets ↔ target ∈ targets := by
  fun_induction unique targets with
  | case1 first rest ih =>
    rw [ih]
    simp
  | case2 first second rest other ih => rw [List.mem_cons, ih, ← List.mem_cons]
  | case3 short => rfl

theorem lookup_addEdges (edges : EdgeTable) (module : Text) (targets : List Text) (node : Text) :
    (addEdges edges module targets).lookup node =
      (edges.lookup node).or (if module = node then some (unique (targets.insertionSort (· ≤ ·))) else none) := by
  rw [addEdges]
  by_cases same : module = node
  · subst same
    cases found : edges.lookup module with
    | none => simp [found, List.lookup_append]
    | some old => simp [found]
  · have other : (node == module) = false := beq_eq_false_iff_ne.mpr (Ne.symm same)
    split
    · simp
    · simp [List.lookup_append, List.lookup, other]

theorem lookup_foldl_addEdges {α : Type} (key : α → Text) (targets : α → List Text) (sources : List α) (edges : EdgeTable)
    (node : Text) : (sources.foldl (fun edges source => addEdges edges (key source) (targets source)) edges).lookup node =
      (edges.lookup node).or ((sources.find? (key · = node)).map fun source =>
        unique ((targets source).insertionSort (· ≤ ·))) := by
  induction sources generalizing edges with
  | nil => simp
  | cons source sources ih =>
    rw [List.foldl_cons, ih, lookup_addEdges, Option.or_assoc, List.find?_cons]
    by_cases same : key source = node
    · simp [same]
    · simp [same]

namespace ImportedBuild
variable {build : ImportedBuild}

theorem lookup_table (node : Text) : build.collectImportGraphEdges.lookup node =
    ((build.units.find? (·.modulePath = node)).map fun unit => unique ((build.unitEdges unit).insertionSort (· ≤ ·))).or
      ((build.images.find? (·.modulePath = node)).map fun image => unique ((imageImportTargets image).insertionSort (· ≤ ·))) := by
  rw [collectImportGraphEdges, lookup_foldl_addEdges, lookup_foldl_addEdges, List.lookup_nil, Option.none_or]

theorem mem_targets {targets : List Text} {target : Text} :
    target ∈ unique (targets.insertionSort (· ≤ ·)) ↔ target ∈ targets := by
  rw [mem_unique, (List.perm_insertionSort _ _).mem_iff]

theorem mem_expandWildcard {spec : ImportSpec} {target : Text} :
    target ∈ expandWildcard build.allPaths spec ↔ build.Reaches spec target := by
  rw [expandWildcard, List.mem_cons, Reaches]
  refine or_congr_right ?_
  by_cases wild : spec.wildcard = true
  · simp [wild]
  · simp [wild]

theorem mem_unitEdges {unit : TranslationUnit} {target : Text} :
    target ∈ build.unitEdges unit ↔ target ≠ unit.modulePath ∧ ∃ spec ∈ unit.imports, build.Reaches spec target := by
  rw [unitEdges, dropSelfReference, List.mem_filter, List.mem_flatMap, decide_eq_true_iff, and_comm]
  simp only [mem_expandWildcard]

theorem mem_imageImportTargets {image : CompiledModule} {target : Text} :
    target ∈ imageImportTargets image ↔ target ≠ [] ∧ ∃ record ∈ importRecords image, record.modulePath = target := by
  rw [imageImportTargets, List.mem_filter, List.mem_map, decide_eq_true_iff, and_comm]

theorem edge_iff (registered : (build.units.map (·.modulePath)).Nodup) {root : TranslationUnit} (member : root ∈ build.units)
    {module target : Text} :
    Edge (edgesOf root.modulePath (build.unitEdges root) build.collectImportGraphEdges) module target ↔
      build.Imports module target := by
  have ofUnit {unit : TranslationUnit} (member : unit ∈ build.units) :
      build.Imports unit.modulePath target ↔ target ∈ build.unitEdges unit := by
    rw [mem_unitEdges]
    constructor
    · rintro (⟨other, isUnit, same, named⟩ | ⟨absent, -⟩)
      · cases List.inj_on_of_nodup_map registered isUnit member same
        exact named
      · exact absurd rfl (absent unit member)
    · exact fun named => .inl ⟨unit, member, rfl, named⟩
  rw [Edge, edgesOf]
  split
  · rename_i isRoot
    rw [isRoot]
    exact (ofUnit member).symm
  · rw [lookup_table]
    cases found : build.units.find? (·.modulePath = module) with
    | some unit =>
      have same : unit.modulePath = module := by simpa using List.find?_some found
      subst same
      rw [ofUnit (List.mem_of_find?_eq_some found)]
      exact mem_targets
    | none =>
      have absent : ∀ unit ∈ build.units, unit.modulePath ≠ module := by simpa using List.find?_eq_none.mp found
      rw [Option.map_none, Option.none_or, Imports]
      constructor
      · intro inside
        cases loaded : build.images.find? (·.modulePath = module) with
        | none =>
          rw [loaded] at inside
          cases inside
        | some image =>
          rw [loaded] at inside
          exact .inr ⟨absent, image, rfl, mem_imageImportTargets.mp (mem_targets.mp inside)⟩
      · rintro (⟨unit, isUnit, same, -⟩ | ⟨-, image, loaded, recorded⟩)
        · exact absurd same (absent unit isUnit)
        · rw [loaded]
          exact mem_targets.mpr (mem_imageImportTargets.mpr recorded)

theorem dottedName_ne_nil (spec : ImportSpec) : spec.dottedName ≠ [] := by
  obtain ⟨segments, wildcard, nonempty⟩ := spec
  match segments, nonempty with
  | [segment], _ => simpa [ImportSpec.dottedName] using segment.nonempty
  | segment :: next :: rest, _ => simp [ImportSpec.dottedName, List.intercalate_cons_cons]

theorem Imports.named {module target : Text} (imports : build.Imports module target) : target ≠ [] := by
  rcases imports with ⟨unit, -, -, -, spec, -, rfl | ⟨-, -, below⟩⟩ | ⟨-, image, -, named, -⟩
  · exact dottedName_ne_nil spec
  · rintro rfl
    have := List.prefix_nil.mp below
    simp at this
  · exact named

def names (build : ImportedBuild) : List Text :=
  build.units.map (·.modulePath) ++ build.units.flatMap build.unitEdges ++ build.collectImportGraphEdges.flatMap (·.2)

theorem names_closed {root : TranslationUnit} (member : root ∈ build.units) (node : Text) :
    edgesOf root.modulePath (build.unitEdges root) build.collectImportGraphEdges node ⊆ build.names := by
  intro target edge
  rcases List.mem_append.mp (edgesOf_subset node edge) with direct | below
  · exact List.mem_append_left _ (List.mem_append_right _ (List.mem_flatMap.mpr ⟨root, member, direct⟩))
  · exact List.mem_append_right _ below

theorem check_root (registered : (build.units.map (·.modulePath)).Nodup) {root : TranslationUnit} (member : root ∈ build.units)
    {levels : Nat} (enough : build.names.length < levels) :
    ∃ report, check root.modulePath (build.unitEdges root) build.collectImportGraphEdges levels = some report ∧
      (report = [] ↔ ∀ node, Relation.ReflTransGen build.Imports root.modulePath node →
        ¬ Relation.TransGen build.Imports node node) ∧
      (report ≠ [] → ∃ cycle, build.IsImportCycle cycle ∧ report = arrow.intercalate cycle) := by
  have edges : Edge (edgesOf root.modulePath (build.unitEdges root) build.collectImportGraphEdges) = build.Imports := by
    funext module target
    exact propext (edge_iff registered member)
  have inside : root.modulePath ∈ build.names :=
    List.mem_append_left _ (List.mem_append_left _ (List.mem_map_of_mem member))
  obtain ⟨report, checked, exact_, cyclic⟩ := check_exact inside (fun node _ => names_closed member node) enough
  rw [edges] at exact_
  refine ⟨report, checked, exact_, fun some_ => ?_⟩
  obtain ⟨cycle, isCycle, rfl⟩ := cyclic some_
  have walk : cycle.IsChain build.Imports := edges ▸ isCycle.edges
  refine ⟨cycle, ⟨walk, isCycle.closed, isCycle.long⟩, ?_⟩
  match cycle, isCycle, walk with
  | first :: second :: rest, isCycle, walk =>
    refine reconstructCycle_eq rfl ?_ isCycle.long
    -- The first name is the last one, to which an import leads.
    have back : Relation.TransGen build.Imports first first := edges ▸ isCycle.transGen rfl
    obtain ⟨before, -, step⟩ := Relation.TransGen.tail'_iff.mp back
    exact step.named

theorem rejectFrom_exact (registered : (build.units.map (·.modulePath)).Nodup) {levels : Nat}
    (enough : build.names.length < levels) {roots : List TranslationUnit} (inside : roots ⊆ build.units) :
    ∃ verdict, build.rejectFrom levels build.collectImportGraphEdges roots = some verdict ∧
      (verdict = none ↔ ∀ root ∈ roots, ∀ node, Relation.ReflTransGen build.Imports root.modulePath node →
        ¬ Relation.TransGen build.Imports node node) ∧
      (∀ message, verdict = some message → ∃ cycle, build.IsImportCycle cycle ∧
        message = detected ++ arrow.intercalate cycle) := by
  induction roots with
  | nil => exact ⟨none, rfl, iff_of_true rfl nofun, nofun⟩
  | cons root roots ih =>
    obtain ⟨report, checked, acyclic, cyclic⟩ := check_root registered (inside (.head _)) enough
    obtain ⟨verdict, others, exact_, reports⟩ := ih fun unit member => inside (.tail _ member)
    rw [rejectFrom, checked]
    by_cases none_ : report = []
    · refine ⟨verdict, by simpa [none_] using others, ?_, reports⟩
      rw [exact_, List.forall_mem_cons]
      exact (and_iff_right (acyclic.mp none_)).symm
    · obtain ⟨cycle, isCycle, rfl⟩ := cyclic none_
      refine ⟨some (detected ++ arrow.intercalate cycle), by simp [none_], iff_of_false nofun ?_, ?_⟩
      · exact fun all => none_ (acyclic.mpr (all root (.head _)))
      · rintro _ ⟨⟩
        exact ⟨cycle, isCycle, rfl⟩

/-- A search ends for every table of edges and finds a cycle exactly where its root leads to one, and a build is accepted
exactly where no unit leads to a cycle, its import of itself apart. What is reported is a cycle. -/
theorem import_cycles_exact :
    (∀ (rootModule : Text) (rootDirectImports : List Text) (imageImports : EdgeTable), ∃ enough, ∀ levels ≥ enough,
      ∃ report, check rootModule rootDirectImports imageImports levels = some report ∧
        (report = [] ↔ ∀ node,
          Relation.ReflTransGen (Edge (edgesOf rootModule rootDirectImports imageImports)) rootModule node →
            ¬ Relation.TransGen (Edge (edgesOf rootModule rootDirectImports imageImports)) node node) ∧
        (report ≠ [] → ∃ cycle, IsCycle (edgesOf rootModule rootDirectImports imageImports) cycle ∧
          report = reconstructCycle cycle)) ∧
    ∀ build : ImportedBuild, (build.units.map (·.modulePath)).Nodup → ∃ enough, ∀ levels ≥ enough,
      ∃ verdict, build.rejectImportCycles levels = some verdict ∧
        (verdict = none ↔ ∀ unit ∈ build.units, ∀ node, Relation.ReflTransGen build.Imports unit.modulePath node →
          ¬ Relation.TransGen build.Imports node node) ∧
        (∀ message, verdict = some message → ∃ cycle, build.IsImportCycle cycle ∧
          message = detected ++ arrow.intercalate cycle) := by
  constructor
  · intro rootModule rootDirectImports imageImports
    refine ⟨_, fun levels enough => @check_exact rootModule rootDirectImports imageImports
      (rootModule :: (rootDirectImports ++ imageImports.flatMap (·.2))) (.head _) ?_ levels (Nat.lt_of_succ_le enough)⟩
    exact fun node _ => List.Subset.trans (edgesOf_subset node) (List.subset_cons_self _ _)
  · intro build registered
    exact ⟨_, fun levels enough => rejectFrom_exact registered (Nat.lt_of_succ_le enough) (List.Subset.refl _)⟩

def mutualBuild : ImportedBuild where
  units := [⟨[97], [{ segments := [⟨[97], by decide, by decide⟩] }, { segments := [⟨[98], by decide, by decide⟩] }]⟩,
    ⟨[98], [{ segments := [⟨[97], by decide, by decide⟩], wildcard := true }]⟩]
  externals := []
  images := []

theorem import_cycles_exact_mutual : ∃ enough, ∀ levels ≥ enough, ∃ verdict, mutualBuild.rejectImportCycles levels = some verdict ∧
    (verdict = none ↔ ∀ unit ∈ mutualBuild.units, ∀ node,
      Relation.ReflTransGen mutualBuild.Imports unit.modulePath node → ¬ Relation.TransGen mutualBuild.Imports node node) ∧
    (∀ message, verdict = some message → ∃ cycle, mutualBuild.IsImportCycle cycle ∧
      message = detected ++ arrow.intercalate cycle) :=
  import_cycles_exact.2 mutualBuild (by decide)

end ImportedBuild

end NLang.Compiler
