import NLang.Backend.DefaultExprCodec
import NLang.Backend.MemberIndices

/-!
# Rebuilt defaults

When the expression that another unit rebuilds is the one that was encoded: the same operators and literals, the formals
of the same positions, and calls of the same functions.
-/

namespace NLang.Backend.Described
open NLang.Library NLang.Library.Words NLang.Library.Walks NLang.Vm NLang.Image NLang.Compiler NLang.Linker
open NLang.Backend.Folded (Literal ScalarLiteral code)

structure Site where
  build : Build
  unit : Nat
  formals : List Nat
  cm : CompiledModule
  stubFormalNames : List Text
  loaded : List Nat
  inScope : Text → Bool
  /-- `TryBindArgs` and `ComputeBindingDistance`, which read of an argument its tree. -/
  distance : FunctionEntry → List SynthExpr → Option Nat
  sized : stubFormalNames.length = formals.length
  distinct : stubFormalNames.Nodup
  named : ∀ name ∈ stubFormalNames, name ≠ []

namespace Site
variable (site : Site)

def hasStub (entry : FunctionEntry) : Bool :=
  !entry.decl.isImported && (entry.fn.hasBody || entry.fn.isNative) && site.loaded.any fun module => entry.decl.owner = some module

def moduleFunctions (name : Text) : List FunctionEntry :=
  (declaredFunctions site.build).filter fun entry => site.hasStub entry && key site.build entry = name

def isOwnTu (entry : FunctionEntry) : Bool :=
  match entry.decl.node with
  | .function _ => entry.decl.owner = some site.unit
  | _ => false

def spelledKey (chain : List Text) (leaf : Text) : Text := [dot].intercalate chain ++ dot :: leaf

def calleeOf (chain : List Text) (leaf : Text) (args : List SynthExpr) : Option FunctionEntry :=
  if site.inScope (chain.headD []) then none
  else matchInvokeAgainst (site.distance · args) (fun _ => false) (site.moduleFunctions (spelledKey chain leaf))

inductive SameTree : SnExpression → SynthExpr → Prop where
  | literal (lit : Literal) : SameTree (.literal lit) (.literal lit)
  | formal {field i : Nat} {name : Text} (found : site.formals.findIdx? (· = field) = some i)
      (bound : site.stubFormalNames.findIdx? (· = name) = some i) : SameTree (.identifier (some field)) (.identifier name)
  | neg {operand : SnExpression} {rebuilt : SynthExpr} (same : SameTree operand rebuilt) : SameTree (.neg operand) (.neg rebuilt)
  | binary {op : BinaryOp} {left right : SnExpression} {first second : SynthExpr} (one : SameTree left first)
      (two : SameTree right second) : SameTree (.binary op left right) (.binary op first second)
  | call {callee : FunctionEntry} {params : List SnExpression} {chain : List Text} {leaf : Text} {args : List SynthExpr}
      (target : site.calleeOf chain leaf args = some callee) (each : List.Forall₂ SameTree params args) :
      SameTree (.invoke (some callee) params) (.moduleCall chain leaf args)

def shape : SnExpression → SynthExpr
  | .literal lit => .literal lit
  | .identifier (some field) => .identifier ((site.stubFormalNames[site.formals.findIdx (· = field)]?).getD [])
  | .neg operand => .neg (shape operand)
  | .binary op left right => .binary op (shape left) (shape right)
  | _ => .identifier []

def Bound (callee : FunctionEntry) (params : List SnExpression) : Prop :=
  ∃ candidates, matchInvokeAgainst (site.distance · (params.map site.shape)) site.isOwnTu candidates = some callee ∧
    ∀ entry ∈ site.moduleFunctions (key site.build callee), entry ∈ candidates ∧ site.isOwnTu entry = site.isOwnTu callee

end Site

mutual

def subexprs : SnExpression → List SnExpression
  | .neg operand => .neg operand :: subexprs operand
  | .binary op left right => .binary op left right :: (subexprs left ++ subexprs right)
  | .invoke callee params => .invoke callee params :: allSubexprs params
  | .literal lit => [.literal lit]
  | .identifier field => [.identifier field]
  | .logicalNot operand => [.logicalNot operand]
  | .other => [.other]

def allSubexprs : List SnExpression → List SnExpression
  | [] => []
  | expr :: exprs => subexprs expr ++ allSubexprs exprs

end

def poolBehind (pool : List Text) : SnExpression → List Text
  | .literal (.string content) => (addStringConstant content pool).2
  | _ => pool

namespace Site
variable (site : Site)

structure CallFound (callee : FunctionEntry) : Prop where
  first : ∃ idx func, site.cm.findFunction (key site.build callee) = some idx ∧ site.cm.functions[idx]? = some func ∧
    func.paramCount.toNat = callee.fn.params
  stub : callee ∈ declaredFunctions site.build ∧ site.hasStub callee = true
  visible : site.inScope ((key site.build callee).takeWhile (· ≠ dot)) = false

def NodeKept (pool : List Text) : SnExpression → Prop
  | .literal (.string content) => ConstantKept pool content
  | .identifier (some field) => ∀ i, site.formals.findIdx? (· = field) = some i → i < 256
  | .invoke (some callee) _ => site.CallFound callee
  | _ => True

def Kept : List Text → List SnExpression → Prop
  | _, [] => True
  | pool, node :: nodes => site.NodeKept pool node ∧ Kept (poolBehind pool node) nodes

def Resolved (expr : SnExpression) : Prop :=
  ∀ callee params, .invoke (some callee) params ∈ subexprs expr → site.Bound callee params

end Site

theorem functions_sorted (node : DeclNode) : node.functions.Pairwise fun first second => first.1 < second.1 := by
  have placed (fns : List SnFunction) : (fns.zipIdx.map Prod.swap).Pairwise
      fun first second => first.1 < second.1 := by
    rw [List.pairwise_map]
    have positions : (fns.zipIdx.map (·.2)).Pairwise (· < ·) := by
      rw [List.zipIdx_map_snd]
      exact List.pairwise_lt_range'
    exact List.pairwise_map.mp positions
  cases node with
  | function fn => exact List.pairwise_singleton _ _
  | classDecl cls => exact memberFunctions_sorted cls.members
  | structDecl _ fns | enumDecl _ fns | interfaceDecl _ fns => exact placed fns
  | globalField => exact .nil

theorem declaredFunctions_nodup (build : Build) : (declaredFunctions build).Nodup := by
  unfold declaredFunctions
  apply List.pairwise_flatMap.mpr
  constructor
  · intro ⟨decl, declIdx⟩ _
    apply List.pairwise_map.mpr
    apply (functions_sorted decl.node).imp
    intro first second before same
    exact Nat.ne_of_lt before (congrArg (fun entry => entry.place.2) same)
  · have positions : (build.root.zipIdx.map (·.2)).Pairwise (· < ·) := by
      rw [List.zipIdx_map_snd]
      exact List.pairwise_lt_range'
    apply (List.pairwise_map.mp positions).imp
    intro first second before entry here other there same
    obtain ⟨_, _, rfl⟩ := List.mem_map.mp here
    obtain ⟨_, _, rfl⟩ := List.mem_map.mp there
    exact Nat.ne_of_lt before (congrArg (fun entry => entry.place.1) same)

namespace Site
variable {site : Site}

theorem moduleFunctions_nodup (name : Text) : (site.moduleFunctions name).Nodup := (declaredFunctions_nodup site.build).filter _

theorem mem_moduleFunctions {name : Text} {entry : FunctionEntry} : entry ∈ site.moduleFunctions name ↔
    (entry ∈ declaredFunctions site.build ∧ site.hasStub entry = true) ∧ key site.build entry = name := by
  rw [moduleFunctions, List.mem_filter, Bool.and_eq_true, decide_eq_true_iff, and_assoc]

end Site

section Keys
variable {build : Build} {modulePath : Text} {callee : FunctionEntry} {argCount : Nat} {head : Bytes}

theorem keyOf_parts (decl : Decl) : dot ∉ build.keyOf decl ∨ ∃ front, front ≠ [] ∧ build.keyOf decl = front ++ dot :: decl.node.name.text := by
  have bare := decl.node.name.noDot
  unfold Build.keyOf
  split
  · rename_i node
    rw [node] at bare
    exact .inl bare
  · rename_i node
    rw [node] at bare
    exact .inl bare
  · split
    · exact .inl bare
    · unfold Build.qualifiedName
      split
      · exact .inl bare
      · rename_i pkg some_pkg
        exact .inr ⟨_, some_pkg, rfl⟩

theorem key_parts (dotted : dot ∈ key build callee) : ∃ path leaf, path ≠ [] ∧ leaf ≠ [] ∧ dot ∉ leaf ∧
    key build callee = path ++ dot :: leaf := by
  have bare := callee.fn.name.noDot
  have top (same : key build callee = build.keyOf callee.decl) : ∃ path leaf, path ≠ [] ∧ leaf ≠ [] ∧ dot ∉ leaf ∧
      key build callee = path ++ dot :: leaf := by
    rw [same] at dotted ⊢
    obtain ⟨front, some_front, parts⟩ := (keyOf_parts callee.decl).resolve_left (not_not_intro dotted)
    exact ⟨front, _, some_front, callee.decl.node.name.nonempty, callee.decl.node.name.noDot, parts⟩
  have member (same : key build callee = build.keyOf callee.decl ++ dot :: callee.fn.name.text) :
      ∃ path leaf, path ≠ [] ∧ leaf ≠ [] ∧ dot ∉ leaf ∧ key build callee = path ++ dot :: leaf :=
    ⟨_, _, build.keyOf_nonempty callee.decl, callee.fn.name.nonempty, bare, same⟩
  unfold key Build.functionKey at dotted top member ⊢
  cases isNode : callee.decl.node with
  | function | globalField =>
    rw [isNode] at top
    exact top rfl
  | enumDecl =>
    rw [isNode] at member
    exact member rfl
  | classDecl | structDecl =>
    rw [isNode] at dotted
    exact absurd dotted bare
  | interfaceDecl =>
    rw [isNode] at dotted member
    dsimp only at dotted member ⊢
    split at dotted
    · rename_i isStatic
      rw [if_pos isStatic] at member ⊢
      exact member rfl
    · exact absurd dotted bare

theorem qualifiedParts_append {path leaf : Text} (some_path : path ≠ []) (some_leaf : leaf ≠ []) (noDot : dot ∉ leaf) :
    qualifiedParts (path ++ dot :: leaf) = some (path, leaf) := by
  have isLeaf := leafNameOfKey_append path noDot
  have isPath : (path ++ dot :: leaf).take ((path ++ dot :: leaf).length - leaf.length - 1) = path := by
    have count : (path ++ dot :: leaf).length - leaf.length - 1 = path.length := by
      rw [List.length_append, List.length_cons]
      omega
    rw [count, List.take_left]
  unfold qualifiedParts
  dsimp only
  rw [isLeaf, isPath, if_neg]
  simp [some_path, some_leaf]

theorem moduleChain_headD (path : Text) : (moduleChain path).headD [] = path.takeWhile (· ≠ dot) := by
  unfold moduleChain List.splitOn
  induction path with
  | nil => rfl
  | cons byte path ih =>
    rw [List.splitOnP_cons_eq_if_modifyHead]
    by_cases isDot : byte = dot
    · simp [isDot]
    · rw [if_neg (by simpa using isDot), List.takeWhile_cons_of_pos (by simpa using isDot), ← ih]
      cases h : List.splitOnP (· == dot) path with
      | nil => exact absurd h (List.splitOnP_ne_nil _ _)
      | cons first rest => rfl

theorem takeWhile_before_dot (path leaf : Text) : (path ++ dot :: leaf).takeWhile (· ≠ dot) = path.takeWhile (· ≠ dot) := by
  induction path with
  | nil => simp
  | cons byte path ih =>
    by_cases isDot : byte = dot
    · simp [isDot]
    · rw [List.cons_append, List.takeWhile_cons_of_pos (by simpa using isDot), List.takeWhile_cons_of_pos (by simpa using isDot), ih]

theorem spelledKey_moduleChain (path leaf : Text) : Site.spelledKey (moduleChain path) leaf = path ++ dot :: leaf := by
  rw [Site.spelledKey, moduleChain, List.intercalate_splitOn]

theorem encodeCallHead_parts (heading : encodeCallHead build modulePath callee argCount = some head) :
    argCount = callee.fn.params ∧ argCount < 2 ^ 8 ∧ ∃ path leaf, key build callee = path ++ dot :: leaf ∧
      qualifiedParts (key build callee) = some (path, leaf) := by
  unfold encodeCallHead at heading
  dsimp only at heading
  split at heading
  · cases heading
  · split at heading
    · cases heading
    · rename_i underPath
      split at heading
      · cases heading
      · rename_i counted
        have lead : (key build callee).take (modulePath ++ [dot]).length = modulePath ++ [dot] := by
          by_contra other
          exact underPath (.inr other)
        have dotted : dot ∈ key build callee := by
          apply List.mem_of_mem_take (i := (modulePath ++ [dot]).length)
          rw [lead]
          exact List.mem_append_right _ (List.mem_singleton_self dot)
        obtain ⟨path, leaf, some_path, some_leaf, noDot, same⟩ := key_parts dotted
        refine ⟨by omega, by omega, path, leaf, same, ?_⟩
        rw [same, qualifiedParts_append some_path some_leaf noDot]

end Keys

section Pools
variable {build : Build} {modulePath : Text} {formals : List Nat} {allowCall : Bool} {pool last : List Text} {expr : SnExpression}

theorem kept_append {site : Site} {first second : List SnExpression} :
    site.Kept pool (first ++ second) ↔ site.Kept pool first ∧ site.Kept (first.foldl poolBehind pool) second := by
  induction first generalizing pool with
  | nil => simp [Site.Kept]
  | cons node nodes ih =>
    rw [List.cons_append, Site.Kept, Site.Kept, ih, List.foldl_cons]
    exact and_assoc.symm

theorem threads_pool {params : List SnExpression} {trees : List ExprDesc}
    (each : ∀ param ∈ params, ∀ pool tree last, Describes build modulePath formals false param pool tree last →
      (subexprs param).foldl poolBehind pool = last ∧ pool <+: last)
    (threads : Threads (Describes build modulePath formals false) params pool trees last) :
    (allSubexprs params).foldl poolBehind pool = last ∧ pool <+: last := by
  induction threads with
  | nil => exact ⟨rfl, List.prefix_rfl⟩
  | cons one _ ih =>
    obtain ⟨rfl, grows⟩ := each _ (.head _) _ _ _ one
    obtain ⟨rfl, further⟩ := ih fun param member => each param (.tail _ member)
    exact ⟨by rw [allSubexprs, List.foldl_append], grows.trans further⟩

theorem describes_pool {tree : ExprDesc} (describes : Describes build modulePath formals allowCall expr pool tree last) :
    (subexprs expr).foldl poolBehind pool = last ∧ pool <+: last := by
  induction expr using SnExpression.induct generalizing allowCall pool tree last with
  | literal lit =>
    cases describes with
    | null | scalar => exact ⟨rfl, List.prefix_rfl⟩
    | string added => exact ⟨by simp [subexprs, poolBehind, added], (addStringConstant_place added).1⟩
  | identifier field =>
    cases describes
    exact ⟨rfl, List.prefix_rfl⟩
  | neg operand ih =>
    cases describes with
    | neg nested =>
      obtain ⟨rfl, grows⟩ := ih nested
      exact ⟨rfl, grows⟩
  | logicalNot => cases describes
  | binary op left right ihLeft ihRight =>
    cases describes with
    | binary _ one two =>
      obtain ⟨rfl, grows⟩ := ihLeft one
      obtain ⟨rfl, further⟩ := ihRight two
      exact ⟨by rw [subexprs, List.foldl_cons, List.foldl_append]; rfl, grows.trans further⟩
  | invoke callee params ih =>
    cases describes with
    | call _ each =>
      obtain ⟨same, grows⟩ := threads_pool (fun param member _ _ _ => ih param member) each
      exact ⟨by rw [subexprs, List.foldl_cons]; exact same, grows⟩
  | other => cases describes

end Pools

section Same
variable {site : Site} {allowCall : Bool} {pool last : List Text} {expr : SnExpression} {tree : ExprDesc}

theorem sameTree_shape {rebuilt : SynthExpr} (describes : Describes site.build site.cm.modulePath site.formals false expr pool tree last)
    (same : site.SameTree expr rebuilt) : rebuilt = site.shape expr := by
  induction expr using SnExpression.induct generalizing pool tree last rebuilt with
  | literal lit =>
    cases same
    rfl
  | identifier field =>
    cases same with
    | @formal field i name found bound =>
      obtain ⟨inside, isName, -⟩ := List.findIdx?_eq_some_iff_getElem.mp bound
      have place : site.formals.findIdx (· = field) = i := (List.findIdx?_eq_some_iff_findIdx_eq.mp found).2
      rw [Site.shape, place, List.getElem?_eq_getElem inside, of_decide_eq_true isName]
      rfl
  | neg operand ih =>
    cases same with
    | neg same =>
      cases describes with
      | neg nested => rw [Site.shape, ih nested same]
  | logicalNot => cases same
  | binary op left right ihLeft ihRight =>
    cases same with
    | binary one two =>
      cases describes with
      | binary _ first second => rw [Site.shape, ihLeft first one, ihRight second two]
  | invoke => cases describes
  | other => cases same

theorem sameTrees_shape {params : List SnExpression} {trees : List ExprDesc} {args : List SynthExpr}
    (threads : Threads (Describes site.build site.cm.modulePath site.formals false) params pool trees last)
    (same : List.Forall₂ site.SameTree params args) : args = params.map site.shape := by
  induction threads generalizing args with
  | nil =>
    cases same
    rfl
  | cons one _ ih =>
    cases same with
    | cons first rest => rw [List.map_cons, sameTree_shape one first, ih rest]

theorem isCallTarget_iff {cm : CompiledModule} {name : Text} {count : Nat} : isCallTarget cm name count count = true ↔
    ∃ idx func, cm.findFunction name = some idx ∧ cm.functions[idx]? = some func ∧ func.paramCount.toNat = count := by
  unfold isCallTarget
  cases found : cm.findFunction name with
  | none => simp
  | some idx =>
    obtain ⟨inside, -, -⟩ := List.findIdx?_eq_some_iff_getElem.mp found
    dsimp only
    rw [List.getElem?_eq_getElem inside]
    simp [inside]

theorem rebuild_call {cm : CompiledModule} {stubFormalNames : List Text} {name path leaf : Text} {args : List ExprDesc} {rebuilt : SynthExpr}
    (few : args.length < 2 ^ 8) (parts : qualifiedParts name = some (path, leaf)) :
    rebuild cm stubFormalNames (.call name (UInt32.ofNat args.length) args) = .ok rebuilt ↔
      isCallTarget cm name args.length args.length = true ∧
        ∃ made, rebuildAll cm stubFormalNames args = .ok made ∧ SynthExpr.moduleCall (moduleChain path) leaf made = rebuilt := by
  have some_name : name ≠ [] := by
    rintro rfl
    cases parts
  have exact_count : (UInt32.ofNat args.length).toNat = args.length := by
    rw [UInt32.toNat_ofNat', Nat.mod_eq_of_lt (by omega)]
  rw [rebuild, if_neg some_name, exact_count, callTarget, parts]
  cases isCallTarget cm name args.length args.length with
  | false => simp [except_bind_ok]
  | true =>
    rw [if_pos rfl]
    refine except_bind_ok.trans ⟨?_, ?_⟩
    · rintro ⟨_, ⟨⟩, done⟩
      obtain ⟨made, ok, same⟩ := except_bind_ok.mp done
      cases same
      exact ⟨rfl, made, ok, rfl⟩
    · rintro ⟨_, made, ok, same⟩
      exact ⟨_, rfl, except_bind_ok.mpr ⟨made, ok, congrArg _ same⟩⟩

theorem calleeOf_eq {callee : FunctionEntry} {params : List SnExpression} {path leaf : Text} (bound : site.Bound callee params)
    (isKey : key site.build callee = path ++ dot :: leaf) :
    site.calleeOf (moduleChain path) leaf (params.map site.shape) = some callee ↔
      (callee ∈ declaredFunctions site.build ∧ site.hasStub callee = true) ∧
        site.inScope ((key site.build callee).takeWhile (· ≠ dot)) = false := by
  have first : (moduleChain path).headD [] = (key site.build callee).takeWhile (· ≠ dot) := by
    rw [moduleChain_headD, isKey, takeWhile_before_dot]
  rw [Site.calleeOf, first, spelledKey_moduleChain, ← isKey]
  obtain ⟨candidates, found, within⟩ := bound
  cases hidden : site.inScope ((key site.build callee).takeWhile (· ≠ dot)) with
  | true => simp
  | false =>
    rw [if_neg Bool.false_ne_true]
    constructor
    · intro target
      obtain ⟨n, before, after, split, -, -⟩ := matchInvokeAgainst_closest target
      have member : callee ∈ site.moduleFunctions (key site.build callee) := by
        rw [split]
        exact List.mem_append_right _ (.head _)
      exact ⟨(Site.mem_moduleFunctions.mp member).1, rfl⟩
    · rintro ⟨stub, -⟩
      exact matchInvokeAgainst_narrowed found (Site.moduleFunctions_nodup _) (Site.mem_moduleFunctions.mpr ⟨stub, rfl⟩) within

theorem call_same {callee : FunctionEntry} {params : List SnExpression} {trees : List ExprDesc} {head : Bytes}
    (heading : encodeCallHead site.build site.cm.modulePath callee params.length = some head)
    (threads : Threads (Describes site.build site.cm.modulePath site.formals false) params pool trees last)
    (bound : site.Bound callee params)
    (args : (∃ rebuilt, rebuildAll site.cm site.stubFormalNames trees = .ok rebuilt ∧ List.Forall₂ site.SameTree params rebuilt) ↔
      site.Kept pool (allSubexprs params)) :
    (∃ rebuilt, rebuild site.cm site.stubFormalNames (.call (key site.build callee) (UInt32.ofNat params.length) trees) = .ok rebuilt ∧
      site.SameTree (.invoke (some callee) params) rebuilt) ↔ site.CallFound callee ∧ site.Kept pool (allSubexprs params) := by
  obtain ⟨count, few, path, leaf, isKey, parts⟩ := encodeCallHead_parts heading
  have trees_count := threads_length threads
  rw [← trees_count] at count few
  rw [← trees_count, ← args]
  constructor
  · rintro ⟨rebuilt, made, same⟩
    obtain ⟨target, rest, ok, rfl⟩ := (rebuild_call few parts).mp made
    cases same with
    | call resolves each =>
      rw [sameTrees_shape threads each] at resolves
      obtain ⟨stub, visible⟩ := (calleeOf_eq bound isKey).mp resolves
      rw [count] at target
      exact ⟨⟨isCallTarget_iff.mp target, stub, visible⟩, rest, ok, each⟩
  · rintro ⟨found, rest, ok, each⟩
    have target := isCallTarget_iff.mpr found.first
    rw [← count] at target
    have resolves := (calleeOf_eq bound isKey).mpr ⟨found.stub, found.visible⟩
    rw [← sameTrees_shape threads each] at resolves
    exact ⟨_, (rebuild_call few parts).mpr ⟨target, rest, ok, rfl⟩, .call resolves each⟩

theorem rebuildAll_same {params : List SnExpression} {trees : List ExprDesc}
    (each : ∀ param ∈ params, ∀ pool tree last, Describes site.build site.cm.modulePath site.formals false param pool tree last →
      last <+: site.cm.stringConstants → ((∃ rebuilt, rebuild site.cm site.stubFormalNames tree = .ok rebuilt ∧ site.SameTree param rebuilt) ↔
        site.Kept pool (subexprs param)))
    (threads : Threads (Describes site.build site.cm.modulePath site.formals false) params pool trees last)
    (extends_ : last <+: site.cm.stringConstants) :
    (∃ rebuilt, rebuildAll site.cm site.stubFormalNames trees = .ok rebuilt ∧ List.Forall₂ site.SameTree params rebuilt) ↔
      site.Kept pool (allSubexprs params) := by
  induction threads with
  | nil => exact ⟨fun _ => trivial, fun _ => ⟨[], rfl, .nil⟩⟩
  | @cons param params tree trees pool middle last one rest ih =>
    have grows := (threads_pool (fun _ _ _ _ _ describes => describes_pool describes) rest).2
    have head := each param (.head _) pool tree middle one (grows.trans extends_)
    have tail := ih (fun param' member => each param' (.tail _ member)) extends_
    rw [allSubexprs, kept_append, (describes_pool one).1, ← head, ← tail, rebuildAll]
    constructor
    · rintro ⟨rebuilt, made, same⟩
      obtain ⟨first, madeFirst, done⟩ := except_bind_ok.mp made
      obtain ⟨others, madeOthers, ended⟩ := except_bind_ok.mp done
      cases ended
      cases same with
      | cons one others => exact ⟨⟨_, madeFirst, one⟩, _, madeOthers, others⟩
    · rintro ⟨⟨first, madeFirst, one⟩, others, madeOthers, same⟩
      exact ⟨_, except_bind_ok.mpr ⟨_, madeFirst, except_bind_ok.mpr ⟨_, madeOthers, rfl⟩⟩, .cons one same⟩

theorem literal_same {lit : ScalarLiteral} (described : lit.row ∈ describedRows) :
    rebuild site.cm site.stubFormalNames (.scalar (code lit.row) (putWord lit.row.slotWidth lit.bits)) = .ok (.literal (.scalar lit)) := by
  have rows : ∀ row ∈ describedRows, scalarRow (code row) = some row := by decide
  have whole : scalarOf lit.row (wordOf (putWord lit.row.slotWidth lit.bits)) = lit := by
    have span : 256 ^ lit.row.slotWidth = lit.row.span := by
      rw [ScalarPrim.span, Nat.pow_mul]
    have same : wordOf (putWord lit.row.slotWidth lit.bits) % lit.row.span = lit.bits := by
      rw [wordOf_putWord, span, Nat.mod_mod, Nat.mod_eq_of_lt lit.fits]
    unfold scalarOf
    simp only [same]
  rw [rebuild, rows _ described]
  dsimp only
  rw [whole]

theorem kOps_opCode {op : BinaryOp} {operator : UInt8} (coded : opCode op = some operator) : kOps[operator.toNat]? = some op := by
  cases op <;> cases coded <;> rfl

theorem string_same {content : Text} {idx : Nat} (added : addStringConstant content pool = (some idx, last))
    (extends_ : last <+: site.cm.stringConstants) :
    (∃ rebuilt, rebuild site.cm site.stubFormalNames (.string (UInt32.ofNat idx)) = .ok rebuilt ∧
      site.SameTree (.literal (.string content)) rebuilt) ↔ ConstantKept pool content := by
  obtain ⟨-, small, inside, place⟩ := addStringConstant_place added
  have exact_idx : (UInt32.ofNat idx).toNat = idx := by
    rw [UInt32.toNat_ofNat', Nat.mod_eq_of_lt (by omega)]
  have kept : site.cm.stringConstants[idx]? = last[idx]? := by
    obtain ⟨more, same⟩ := extends_
    rw [← same, List.getElem?_append_left inside]
  rw [rebuild, exact_idx, stringConstant, kept, ← place]
  cases found : last[idx]? with
  | none => exact absurd (List.getElem?_eq_none_iff.mp found) (by omega)
  | some other =>
    constructor
    · rintro ⟨_, ⟨⟩, same⟩
      cases same
      rfl
    · rintro ⟨⟩
      exact ⟨_, rfl, .literal _⟩

theorem formal_same {field i : Nat} (found : site.formals.findIdx? (· = field) = some i) :
    (∃ rebuilt, rebuild site.cm site.stubFormalNames (.formalRef (UInt8.ofNat i)) = .ok rebuilt ∧
      site.SameTree (.identifier (some field)) rebuilt) ↔ ∀ j, site.formals.findIdx? (· = field) = some j → j < 256 := by
  obtain ⟨here, -, -⟩ := List.findIdx?_eq_some_iff_getElem.mp found
  have bound : i % 256 ≤ i := Nat.mod_le ..
  have sized := site.sized
  have inside : i % 256 < site.stubFormalNames.length := by omega
  have named := site.named _ (List.getElem_mem inside)
  have made : rebuild site.cm site.stubFormalNames (.formalRef (UInt8.ofNat i)) = .ok (.identifier site.stubFormalNames[i % 256]) := by
    rw [rebuild, UInt8.toNat_ofNat', formalName, List.getElem?_eq_getElem inside]
    cases isName : site.stubFormalNames[i % 256] with
    | nil => exact absurd isName named
    | cons byte name => rfl
  rw [made]
  constructor
  · rintro ⟨_, ⟨⟩, same⟩ j at_j
    cases at_j.symm.trans found
    cases same with
    | formal found' isBound =>
      cases found.symm.trans found'
      obtain ⟨there, isName, -⟩ := List.findIdx?_eq_some_iff_getElem.mp isBound
      have equal := (List.Nodup.getElem_inj_iff site.distinct).mp (of_decide_eq_true isName)
      omega
  · intro near
    have small := near i found
    refine ⟨_, rfl, .formal found (List.findIdx?_eq_some_iff_getElem.mpr ⟨by omega, ?_, ?_⟩)⟩
    · simp only [Nat.mod_eq_of_lt small, decide_true]
    · intro j before
      simp only [Nat.mod_eq_of_lt small, Bool.not_eq_true, decide_eq_false_iff_not]
      intro equal
      exact absurd ((List.Nodup.getElem_inj_iff site.distinct).mp equal) (Nat.ne_of_lt before)

theorem resolved_of_subset {part : SnExpression} (resolved : site.Resolved expr)
    (within : ∀ node ∈ subexprs part, node ∈ subexprs expr) : site.Resolved part :=
  fun callee params member => resolved callee params (within _ member)

theorem mem_allSubexprs {params : List SnExpression} {param node : SnExpression} (isParam : param ∈ params)
    (member : node ∈ subexprs param) : node ∈ allSubexprs params := by
  induction params with
  | nil => cases isParam
  | cons first params ih =>
    rw [allSubexprs, List.mem_append]
    cases isParam with
    | head => exact .inl member
    | tail _ isParam => exact .inr (ih isParam)

theorem rebuild_same (describes : Describes site.build site.cm.modulePath site.formals allowCall expr pool tree last)
    (resolved : site.Resolved expr) (extends_ : last <+: site.cm.stringConstants) :
    (∃ rebuilt, rebuild site.cm site.stubFormalNames tree = .ok rebuilt ∧ site.SameTree expr rebuilt) ↔
      site.Kept pool (subexprs expr) := by
  induction expr using SnExpression.induct generalizing allowCall pool tree last with
  | literal lit =>
    cases describes with
    | null => exact ⟨fun _ => ⟨trivial, trivial⟩, fun _ => ⟨_, rfl, .literal _⟩⟩
    | scalar described => exact ⟨fun _ => ⟨trivial, trivial⟩, fun _ => ⟨_, literal_same described, .literal _⟩⟩
    | string added => exact (string_same added extends_).trans (and_iff_left trivial).symm
  | identifier field =>
    cases describes with
    | formal found => exact (formal_same found).trans (and_iff_left trivial).symm
  | neg operand ih =>
    cases describes with
    | neg nested =>
      have inner := ih nested (resolved_of_subset resolved fun _ member => .tail _ member) extends_
      rw [subexprs, Site.Kept, rebuild]
      refine Iff.trans ?_ (inner.trans (and_iff_right trivial).symm)
      constructor
      · rintro ⟨_, made, same⟩
        obtain ⟨first, ok, ended⟩ := except_bind_ok.mp made
        cases ended
        cases same with
        | neg same => exact ⟨_, ok, same⟩
      · rintro ⟨first, ok, same⟩
        exact ⟨_, except_bind_ok.mpr ⟨_, ok, rfl⟩, .neg same⟩
  | logicalNot => cases describes
  | binary op left right ihLeft ihRight =>
    cases describes with
    | @binary _ _ middle _ _ operator _ _ first second coded one two =>
      have grows := (describes_pool two).2
      have leftPart := ihLeft one (resolved_of_subset resolved fun _ member => .tail _ (List.mem_append_left _ member))
        (grows.trans extends_)
      have rightPart := ihRight two (resolved_of_subset resolved fun _ member => .tail _ (List.mem_append_right _ member)) extends_
      have behind : poolBehind pool (.binary op left right) = pool := rfl
      rw [subexprs, Site.Kept, kept_append, behind, (describes_pool one).1, rebuild, kOps_opCode coded]
      refine Iff.trans ?_ ((and_congr leftPart rightPart).trans (and_iff_right trivial).symm)
      constructor
      · rintro ⟨_, made, same⟩
        obtain ⟨_, okLeft, rest⟩ := except_bind_ok.mp made
        obtain ⟨_, okRight, ended⟩ := except_bind_ok.mp rest
        cases ended
        cases same with
        | binary sameLeft sameRight => exact ⟨⟨_, okLeft, sameLeft⟩, _, okRight, sameRight⟩
      · rintro ⟨⟨_, okLeft, sameLeft⟩, _, okRight, sameRight⟩
        exact ⟨_, except_bind_ok.mpr ⟨_, okLeft, except_bind_ok.mpr ⟨_, okRight, rfl⟩⟩, .binary sameLeft sameRight⟩
  | invoke callee params ih =>
    cases describes with
    | call heading each =>
      have args := rebuildAll_same (fun param member pool tree last describes =>
        ih param member describes (resolved_of_subset resolved fun _ inside => .tail _ (mem_allSubexprs member inside))) each extends_
      exact call_same heading each (resolved _ _ (.head _)) args
  | other => cases describes

end Same

/-- The bytes of an expression are read back: the consumer uses them up and rebuilds the expression, the linker enters the
nodes of the tree that was written and maps its string indices in place, and on other bytes both come to an end inside. -/
structure Site.ReadBack (site : Site) (expr : SnExpression) (pool last : List Text) (bytes : Bytes) : Prop where
  rebuilt : ∃ made, synthDefaultExpr site.cm site.stubFormalNames bytes = .ok made ∧ site.SameTree expr made
  remapped : ∃ tree : ExprDesc, Describes site.build site.cm.modulePath site.formals true expr pool tree last ∧ tree.bytes = bytes ∧
    ∀ lookup, ExprDesc.remapStream lookup bytes = .ok ⟨(tree.mapStrings lookup).bytes, bytes.length, tree.nodes 0⟩ ∧
      ExprDesc.Patched lookup 0 bytes (tree.mapStrings lookup).bytes (tree.stringSlots 0)
  rebuildEnds : ∀ data, Ends (fun _ => True) (synthDefaultExpr site.cm site.stubFormalNames data)
  remapEnds : ∀ lookup data, Ends (fun state => state.offset = state.bytes.length ∧ state.bytes.length = data.length)
    (ExprDesc.remapStream lookup data)

def functionF (declIdx params : Nat) : FunctionEntry :=
  let fn : SnFunction := { name := identifierF, params }
  { place := (declIdx, 0), decl := { owner := some 0, node := .function fn }, fn }

def callOfX (callee : FunctionEntry) : SnExpression := .invoke (some callee) (List.replicate callee.fn.params (.identifier (some 0)))

def siteOfF : Site where
  build :=
    { root := [(functionF 0 2).decl, (functionF 1 1).decl]
      modules := [[108, 105, 98]]
      attached := by simp [functionF]
      oneStaticInit := by simp [functionF] }
  unit := 0
  formals := [0, 1]
  cm :=
    { modulePath := [108, 105, 98]
      functions := [{ name := [108, 105, 98, dot, 102], paramCount := 2 }, { name := [108, 105, 98, dot, 102], paramCount := 1 }] }
  stubFormalNames := [[120], [121]]
  loaded := [0]
  inScope _ := false
  distance entry args := if args.length = entry.fn.params then some 0 else none
  sized := rfl
  distinct := by decide
  named := by decide

theorem callOfX_resolved {callee : FunctionEntry} (isF : callee = functionF 0 2 ∨ callee = functionF 1 1) :
    siteOfF.Resolved (callOfX callee) := by
  intro other params member
  obtain ⟨rfl, rfl⟩ : other = callee ∧ params = List.replicate callee.fn.params (.identifier (some 0)) := by
    rcases isF with rfl | rfl <;> simpa [callOfX, subexprs, allSubexprs, functionF] using member
  refine ⟨[functionF 0 2, functionF 1 1], ?_⟩
  rcases isF with rfl | rfl <;> exact ⟨by decide, by decide⟩

end NLang.Backend.Described
