import NLang.Image.Records
import NLang.Library.DepthFirst
import NLang.Library.Terms

/-!
# Type aliases

The expansion of the aliases `using Name = Type;` of a translation unit (`AliasExpander.hpp`): the registration of the
aliases, the copies of their targets and the walk over the tree with the names of the current path. The tree is the one
below the root of the unit; the targets themselves belong to the directives and are only read.
-/

namespace NLang.Compiler.TypeAliases
open NLang.Image NLang.Library

structure NameExpr where
  ident : Text
  builtin : Bool
  out : Bool

inductive NodeKind where
  | array (rank : Nat) (out : Bool)
  /-- `SnGenericTypeExpr`: the base is the first child, the arguments follow. -/
  | generic (out : Bool)
  | qualified (segments : List Text) (out : Bool)
  | other (label : Nat)

abbrev Node := Term NodeKind NameExpr

abbrev AliasTable := List (Text × Node)

def AliasTable.setAlias (table : AliasTable) (name : Text) (target : Node) : AliasTable := (name, target) :: table

def AliasTable.findAlias (table : AliasTable) (name : Text) : Option Node := table.lookup name

structure Using where
  name : Text
  aliasType : Option Node

structure TranslationUnit where
  usings : List Using
  root : Option (List Node)

def rootIdentifier : Node → Option NameExpr
  | .var name => some name
  | .app (.array _ _) (element :: _) => rootIdentifier element
  | .app (.generic _) (base :: _) => rootIdentifier base
  | .app _ _ => none

mutual

def cloneTypeNode : Node → Option Node
  | .var name => some (.var name)
  | .app kind children =>
    match kind with
    | .array _ _ | .generic _ => (cloneTypeNodes children).map (.app kind)
    | .qualified _ _ | .other _ => none

def cloneTypeNodes : List Node → Option (List Node)
  | [] => some []
  | child :: children => do
      let clone ← cloneTypeNode child
      let clones ← cloneTypeNodes children
      return clone :: clones

end

def checkRegistrationOrder (roster : List Text) (table : AliasTable) (target : Node) : List Text :=
  match rootIdentifier target with
  | none => []
  | some root =>
    if root.builtin then []
    else if root.ident ∈ roster ∧ table.findAlias root.ident = none then [root.ident]
    else []

def register (roster : List Text) (state : AliasTable × List Text) (named : Text × Node) : AliasTable × List Text :=
  (state.1.setAlias named.1 named.2, state.2 ++ checkRegistrationOrder roster state.1 named.2)

/-- `ExpandSlot` with the names of the current path; `none` where the calls go deeper than `depth`. -/
def expandSlot (table : AliasTable) : Nat → List Text → Node → Option Node
  | 0, _, _ => none
  | depth + 1, visitedNames, .var name =>
    match table.findAlias name.ident with
    | none => some (.var name)
    | some target =>
      if name.ident ∈ visitedNames then some (.var name)
      else
        match cloneTypeNode target with
        | some clone => expandSlot table depth (name.ident :: visitedNames) clone
        | none => some (.var name)
  | depth + 1, visitedNames, .app kind children =>
    (children.mapM (expandSlot table depth visitedNames)).map (.app kind)

namespace TranslationUnit
variable (unit : TranslationUnit)

def aliases : List (Text × Node) := unit.usings.filterMap fun directive => directive.aliasType.map (directive.name, ·)

def registration : AliasTable × List Text :=
  unit.aliases.foldl (register (unit.aliases.map Prod.fst)) ([], [])

def processUnit (depth : Nat) : Option (List Text × Option (List Node)) :=
  if unit.aliases.isEmpty then some ([], unit.root)
  else if unit.registration.2 ≠ [] then some (unit.registration.2, unit.root)
  else
    match unit.root with
    | none => some ([], none)
    | some children =>
      (children.mapM (expandSlot unit.registration.1 depth [])).map fun expanded => ([], some expanded)

end TranslationUnit

def NodeKind.marked (out : Bool) : NodeKind → NodeKind
  | .array rank marked => .array rank (out || marked)
  | .generic marked => .generic (out || marked)
  | .qualified segments marked => .qualified segments (out || marked)
  | .other label => .other label

def marked (out : Bool) : Node → Node
  | .var name => .var { name with out := out || name.out }
  | .app kind children => .app (kind.marked out) children

inductive Expands (table : AliasTable) : Node → Node → Prop where
  | name {name : NameExpr} (absent : table.findAlias name.ident = none) : Expands table (.var name) (.var name)
  | target {name : NameExpr} {target expanded : Node} (found : table.findAlias name.ident = some target)
      (inner : Expands table target expanded) : Expands table (.var name) (marked name.out expanded)
  | app {kind : NodeKind} {children expanded : List Node} (length : children.length = expanded.length)
      (each : ∀ pair ∈ children.zip expanded, Expands table pair.1 pair.2) :
      Expands table (.app kind children) (.app kind expanded)

def names (node : Node) : List Text := node.vars.map NameExpr.ident

def AliasTable.next (table : AliasTable) (name : Text) : List Text := (table.findAlias name).elim [] names

def Plain (node : Node) : Prop :=
  ∀ kind ∈ node.symbols, (∃ rank out, kind = .array rank out) ∨ ∃ out, kind = .generic out

def Unmarked (table : AliasTable) (node : Node) : Prop :=
  ∀ name ∈ node.vars, name.out = true → table.findAlias name.ident = none

def withoutMarks : Node → Node := Term.map (fun
    | .array rank _ => .array rank false
    | .generic _ => .generic false
    | .qualified segments _ => .qualified segments false
    | .other label => .other label) fun name => { name with out := false }

theorem cloneTypeNodes_eq (children : List Node) : cloneTypeNodes children = children.mapM cloneTypeNode := by
  induction children with
  | nil => rfl
  | cons child children ih =>
    rw [cloneTypeNodes, List.mapM_cons, ih]

theorem cloneTypeNode_plain {node : Node} (plain : Plain node) : cloneTypeNode node = some node := by
  induction node using Term.induct with
  | var name => rfl
  | app kind children ih =>
    have each : cloneTypeNodes children = some children := by
      rw [cloneTypeNodes_eq]
      refine mapM_eq_some.mpr (List.forall₂_same.mpr fun child member => ih child member fun inner here => ?_)
      exact plain inner (Term.mem_symbols_app.mpr (.inr ⟨child, member, here⟩))
    rcases plain kind (Term.mem_symbols_app.mpr (.inl rfl)) with ⟨rank, out, rfl⟩ | ⟨out, rfl⟩
    · rw [cloneTypeNode, each, Option.map_some]
    · rw [cloneTypeNode, each, Option.map_some]

section Meaning
variable {table : AliasTable}

theorem marked_false (node : Node) : marked false node = node := by
  cases node with
  | var name => rfl
  | app kind children => cases kind <;> rfl

theorem withoutMarks_marked (out : Bool) (node : Node) : withoutMarks (marked out node) = withoutMarks node := by
  cases node with
  | var name => rfl
  | app kind children => cases kind <;> rfl

theorem withoutMarks_app {kind : NodeKind} {children others : List Node}
    (same : children.map withoutMarks = others.map withoutMarks) :
    withoutMarks (.app kind children) = withoutMarks (.app kind others) := by
  unfold withoutMarks at same ⊢
  rw [Term.map_app, Term.map_app, same]

theorem expands_app {kind : NodeKind} {children expanded : List Node} :
    Expands table (.app kind children) (.app kind expanded) ↔ List.Forall₂ (Expands table) children expanded := by
  rw [List.forall₂_iff_zip]
  constructor
  · intro expands
    cases expands with
    | app length each => exact ⟨length, fun member => each _ member⟩
  · rintro ⟨length, each⟩
    exact .app length fun pair member => each member

theorem Expands.unique {node first second : Node} (expands : Expands table node first)
    (again : Expands table node second) : first = second := by
  induction expands generalizing second with
  | name absent =>
    cases again with
    | name _ => rfl
    | target found _ => cases absent.symm.trans found
  | target found _ ih =>
    cases again with
    | name absent => cases absent.symm.trans found
    | target found' inner =>
      cases Option.some.inj (found.symm.trans found')
      rw [ih inner]
  | @app kind children expanded length each ih =>
    cases again with
    | @app _ _ others length' each' =>
      congr 1
      refine List.ext_getElem (length.symm.trans length') fun i inside inside' => ?_
      have at_i : i < children.length := length ▸ inside
      refine ih (children[i], expanded[i]) ?_ (each' (children[i], others[i]) ?_)
      · exact List.mem_iff_getElem.mpr ⟨i, by simp [at_i, inside], by simp⟩
      · exact List.mem_iff_getElem.mpr ⟨i, by simp [at_i, inside'], by simp⟩

end Meaning

section Walk
variable {table : AliasTable}

theorem expandSlot_var (table : AliasTable) (visitedNames : List Text) (name : NameExpr) :
    (∀ depth, expandSlot table (depth + 1) visitedNames (.var name) = some (.var name)) ∨
      ∃ target clone, table.findAlias name.ident = some target ∧ name.ident ∉ visitedNames ∧
        ∀ depth, expandSlot table (depth + 1) visitedNames (.var name) =
          expandSlot table depth (name.ident :: visitedNames) clone := by
  cases found : table.findAlias name.ident with
  | none => exact .inl fun depth => by rw [expandSlot, found]
  | some target =>
    by_cases visited : name.ident ∈ visitedNames
    · refine .inl fun depth => ?_
      rw [expandSlot, found]
      exact if_pos visited
    · cases copied : cloneTypeNode target with
      | none =>
        refine .inl fun depth => ?_
        rw [expandSlot, found]
        simp only [if_neg visited, copied]
      | some clone =>
        refine .inr ⟨target, clone, rfl, visited, fun depth => ?_⟩
        rw [expandSlot, found]
        simp only [if_neg visited, copied]

theorem expandSlot_succ {depth : Nat} {visitedNames : List Text} {node result : Node}
    (done : expandSlot table depth visitedNames node = some result) :
    expandSlot table (depth + 1) visitedNames node = some result := by
  induction depth generalizing visitedNames node result with
  | zero => cases done
  | succ depth ih =>
    cases node with
    | var name =>
      rcases expandSlot_var table visitedNames name with left | ⟨target, clone, -, -, entered⟩
      · rw [left] at done ⊢
        exact done
      · rw [entered] at done ⊢
        exact ih done
    | app kind children =>
      rw [expandSlot] at done ⊢
      obtain ⟨expanded, each, rfl⟩ := Option.map_eq_some_iff.mp done
      rw [mapM_eq_some.mpr ((mapM_eq_some.mp each).imp fun _ _ => ih), Option.map_some]

theorem expandSlot_le {depth depth' : Nat} {visitedNames : List Text} {node result : Node} (le : depth ≤ depth')
    (done : expandSlot table depth visitedNames node = some result) :
    expandSlot table depth' visitedNames node = some result := by
  induction le with
  | refl => exact done
  | step _ ih => exact expandSlot_succ ih

theorem expandAll_total {visitedNames : List Text} {children : List Node}
    (each : ∀ child ∈ children, ∃ depth result, expandSlot table depth visitedNames child = some result) :
    ∃ enough results, ∀ depth ≥ enough, children.mapM (expandSlot table depth visitedNames) = some results := by
  induction children with
  | nil => exact ⟨0, [], fun _ _ => rfl⟩
  | cons child children ih =>
    obtain ⟨depth, result, first⟩ := each child (.head _)
    obtain ⟨enough, results, others⟩ := ih fun other member => each other (.tail _ member)
    refine ⟨max depth enough, result :: results, fun more large => ?_⟩
    rw [List.mapM_cons, expandSlot_le (le_trans (le_max_left _ _) large) first,
      others more (le_trans (le_max_right _ _) large)]
    rfl

def unvisited (table : AliasTable) (visitedNames : List Text) : Nat :=
  ((table.map Prod.fst).filter (· ∉ visitedNames)).length

theorem findAlias_mem {name : Text} {target : Node} (found : table.findAlias name = some target) :
    name ∈ table.map Prod.fst := by
  obtain ⟨before, after, rfl, -⟩ := List.lookup_eq_some_iff.mp found
  simp

theorem unvisited_cons {visitedNames : List Text} {name : Text} {target : Node}
    (found : table.findAlias name = some target) (fresh : name ∉ visitedNames) :
    unvisited table (name :: visitedNames) < unvisited table visitedNames := by
  have fewer : (table.map Prod.fst).filter (· ∉ name :: visitedNames) =
      ((table.map Prod.fst).filter (· ∉ visitedNames)).filter (· ≠ name) := by
    rw [List.filter_filter]
    refine List.filter_congr fun other _ => ?_
    rw [← Bool.decide_and]
    exact decide_eq_decide.mpr (List.mem_cons.not.trans not_or)
  rw [unvisited, unvisited, fewer]
  refine List.length_filter_lt_length_iff_exists.mpr ⟨name, ?_, fun differs => ?_⟩
  · exact List.mem_filter.mpr ⟨findAlias_mem found, decide_eq_true fresh⟩
  · exact of_decide_eq_true differs rfl

theorem expandSlot_total (table : AliasTable) (visitedNames : List Text) (node : Node) :
    ∃ depth result, expandSlot table depth visitedNames node = some result := by
  obtain ⟨room, rest⟩ : ∃ room, unvisited table visitedNames = room := ⟨_, rfl⟩
  induction room using Nat.strong_induction_on generalizing visitedNames node with
  | _ room enter =>
    induction node using Term.induct with
    | var name =>
      rcases expandSlot_var table visitedNames name with left | ⟨target, clone, found, fresh, entered⟩
      · exact ⟨1, .var name, left 0⟩
      · obtain ⟨depth, result, done⟩ :=
          enter _ (rest ▸ unvisited_cons found fresh) (name.ident :: visitedNames) clone rfl
        exact ⟨depth + 1, result, (entered depth).trans done⟩
    | app kind children ih =>
      obtain ⟨enough, results, all⟩ := expandAll_total ih
      refine ⟨enough + 1, .app kind results, ?_⟩
      rw [expandSlot, all enough le_rfl, Option.map_some]

end Walk

section Acyclic
open Library.DepthFirst
variable {table : AliasTable}

theorem expandSlot_absent {depth : Nat} {visitedNames : List Text} {name : NameExpr}
    (absent : table.findAlias name.ident = none) :
    expandSlot table (depth + 1) visitedNames (.var name) = some (.var name) := by
  rw [expandSlot, absent]

theorem expandSlot_visited {depth : Nat} {visitedNames : List Text} {name : NameExpr} {target : Node}
    (found : table.findAlias name.ident = some target) (visited : name.ident ∈ visitedNames) :
    expandSlot table (depth + 1) visitedNames (.var name) = some (.var name) := by
  rw [expandSlot, found]
  exact if_pos visited

theorem expandSlot_enter {depth : Nat} {visitedNames : List Text} {name : NameExpr} {target : Node}
    (found : table.findAlias name.ident = some target) (fresh : name.ident ∉ visitedNames) (plain : Plain target) :
    expandSlot table (depth + 1) visitedNames (.var name) =
      expandSlot table depth (name.ident :: visitedNames) target := by
  rw [expandSlot, found]
  simp only [if_neg fresh, cloneTypeNode_plain plain]

theorem edge_of_found {name inner : Text} {target : Node} (found : table.findAlias name = some target) :
    Edge table.next name inner ↔ inner ∈ names target := by
  rw [Edge, AliasTable.next, found, Option.elim_some]

structure Meets (table : AliasTable) (node result full : Node) : Prop where
  expands : Expands table node full
  shape : withoutMarks result = withoutMarks full
  exact : (∀ name target, table.findAlias name = some target → Unmarked table target) → Unmarked table node → result = full
  free : ∀ name ∈ names result, table.findAlias name = none

theorem meets_all {children results : List Node}
    (each : List.Forall₂ (fun child result => ∃ full, Meets table child result full) children results) :
    ∃ fulls, List.Forall₂ (Expands table) children fulls ∧ results.map withoutMarks = fulls.map withoutMarks ∧
      ((∀ name target, table.findAlias name = some target → Unmarked table target) →
        (∀ child ∈ children, Unmarked table child) → results = fulls) ∧
      ∀ result ∈ results, ∀ name ∈ names result, table.findAlias name = none := by
  induction each with
  | nil => exact ⟨[], .nil, rfl, fun _ _ => rfl, fun _ member => nomatch member⟩
  | @cons child result children results first _ ih =>
    obtain ⟨full, meets⟩ := first
    obtain ⟨fulls, expands, shape, exact, free⟩ := ih
    refine ⟨full :: fulls, .cons meets.expands expands, ?_, fun targets unmarked => ?_, ?_⟩
    · rw [List.map_cons, List.map_cons, meets.shape, shape]
    · rw [meets.exact targets (unmarked child (.head _)),
        exact targets fun other member => unmarked other (.tail _ member)]
    · exact List.forall_mem_cons.mpr ⟨meets.free, free⟩

theorem expandSlot_full (acyclic : Acyclic table.next)
    (plain : ∀ name target, table.findAlias name = some target → Plain target) {depth : Nat} {visitedNames : List Text}
    {node result : Node} (path : ∀ outer ∈ visitedNames, ∀ name ∈ names node,
      Relation.TransGen (Edge table.next) outer name)
    (done : expandSlot table depth visitedNames node = some result) : ∃ full, Meets table node result full := by
  induction depth generalizing visitedNames node result with
  | zero => cases done
  | succ depth ih =>
    cases node with
    | var name =>
      cases found : table.findAlias name.ident with
      | none =>
        rw [expandSlot_absent found] at done
        cases done
        refine ⟨.var name, .name found, rfl, fun _ _ => rfl, fun other member => ?_⟩
        rwa [List.mem_singleton.mp member]
      | some target =>
        have fresh : name.ident ∉ visitedNames := fun visited =>
          acyclic name.ident (path name.ident visited name.ident (.head _))
        rw [expandSlot_enter found fresh (plain name.ident target found)] at done
        have path' : ∀ outer ∈ name.ident :: visitedNames, ∀ inner ∈ names target,
            Relation.TransGen (Edge table.next) outer inner := by
          refine List.forall_mem_cons.mpr ⟨fun inner member => ?_, fun outer visited inner member => ?_⟩
          · exact .single ((edge_of_found found).mpr member)
          · exact .tail (path outer visited name.ident (.head _)) ((edge_of_found found).mpr member)
        obtain ⟨full, meets⟩ := ih path' done
        refine ⟨marked name.out full, .target found meets.expands, ?_, fun targets unmarked => ?_, meets.free⟩
        · rw [withoutMarks_marked, meets.shape]
        · have notOut : name.out = false := by
            refine Bool.eq_false_iff.mpr fun out => ?_
            cases found.symm.trans (unmarked name (.head _) out)
          rw [notOut, marked_false, meets.exact targets (targets name.ident target found)]
    | app kind children =>
      rw [expandSlot] at done
      obtain ⟨results, each, rfl⟩ := Option.map_eq_some_iff.mp done
      have inside {child : Node} (member : child ∈ children) {name : NameExpr} (here : name ∈ child.vars) :
          name ∈ (Term.app kind children).vars := Term.mem_vars_app.mpr ⟨child, member, here⟩
      have below : List.Forall₂ (fun child result => ∃ full, Meets table child result full) children results := by
        refine ((List.forall₂_and_left _ _).mpr ⟨fun child member => member, mapM_eq_some.mp each⟩).imp ?_
        rintro child result ⟨member, made⟩
        refine ih (fun outer visited name here => path outer visited name ?_) made
        obtain ⟨written, inner, rfl⟩ := List.mem_map.mp here
        exact List.mem_map_of_mem (inside member inner)
      obtain ⟨fulls, expands, shape, exact, free⟩ := meets_all below
      refine ⟨.app kind fulls, expands_app.mpr expands, withoutMarks_app shape, fun targets unmarked => ?_,
        fun name member => ?_⟩
      · rw [exact targets fun child member name here => unmarked name (inside member here)]
      · obtain ⟨written, here, rfl⟩ := List.mem_map.mp member
        obtain ⟨child, inChild, inner⟩ := Term.mem_vars_app.mp here
        exact free child inChild written.ident (List.mem_map_of_mem inner)

end Acyclic

section Cycles
open Library.DepthFirst
variable {table : AliasTable} {goal : Text → Prop}

theorem expandSlot_names {depth : Nat} {visitedNames : List Text} {node result : Node}
    (done : expandSlot table depth visitedNames node = some result) {name : NameExpr} (member : name ∈ node.vars) :
    ∃ part, expandSlot table depth visitedNames (.var name) = some part ∧ ∀ inner ∈ names part, inner ∈ names result := by
  induction depth generalizing node result with
  | zero => cases done
  | succ depth ih =>
    cases node with
    | var written =>
      cases List.mem_singleton.mp member
      exact ⟨result, done, fun _ here => here⟩
    | app kind children =>
      rw [expandSlot] at done
      obtain ⟨results, each, rfl⟩ := Option.map_eq_some_iff.mp done
      obtain ⟨child, inside, here⟩ := Term.mem_vars_app.mp member
      obtain ⟨made, among, walked⟩ := exists_of_mem_left (mapM_eq_some.mp each) inside
      obtain ⟨part, run, kept⟩ := ih walked here
      refine ⟨part, expandSlot_succ run, fun inner found => ?_⟩
      obtain ⟨written, last, rfl⟩ := List.mem_map.mp (kept inner found)
      exact List.mem_map_of_mem (Term.mem_vars_app.mpr ⟨made, among, last⟩)

theorem expandSlot_edge (plain : ∀ name target, table.findAlias name = some target → Plain target)
    {depth : Nat} {visitedNames : List Text} {name : NameExpr} {part : Node} {inner : Text}
    (edge : Edge table.next name.ident inner)
    (done : expandSlot table (depth + 1) visitedNames (.var name) = some part) :
    (name.ident ∈ visitedNames ∧ part = .var name) ∨ (name.ident ∉ visitedNames ∧ ∃ target, inner ∈ names target ∧
      expandSlot table depth (name.ident :: visitedNames) target = some part) := by
  cases found : table.findAlias name.ident with
  | none =>
    rw [Edge, AliasTable.next, found] at edge
    cases edge
  | some target =>
    by_cases visited : name.ident ∈ visitedNames
    · rw [expandSlot_visited found visited] at done
      exact .inl ⟨visited, (Option.some.inj done).symm⟩
    · rw [expandSlot_enter found visited (plain name.ident target found)] at done
      exact .inr ⟨visited, target, (edge_of_found found).mp edge, done⟩

theorem expandSlot_inside (plain : ∀ name target, table.findAlias name = some target → Plain target)
    (closed : ∀ name, goal name → ∃ inner, goal inner ∧ Edge table.next name inner) {depth : Nat}
    {visitedNames : List Text} {node result : Node} (done : expandSlot table depth visitedNames node = some result)
    {name : Text} (member : name ∈ names node) (inside : goal name) : ∃ left ∈ names result, goal left := by
  induction depth generalizing visitedNames node result name with
  | zero => cases done
  | succ depth ih =>
    obtain ⟨written, here, rfl⟩ := List.mem_map.mp member
    obtain ⟨part, run, kept⟩ := expandSlot_names done here
    obtain ⟨inner, further, edge⟩ := closed written.ident inside
    rcases expandSlot_edge plain edge run with ⟨-, rfl⟩ | ⟨-, target, inTarget, entered⟩
    · exact ⟨written.ident, kept written.ident (.head _), inside⟩
    · obtain ⟨left, found, reached⟩ := ih entered inTarget further
      exact ⟨left, kept left found, reached⟩

theorem expandSlot_leads (plain : ∀ name target, table.findAlias name = some target → Plain target)
    (closed : ∀ name, goal name → ∃ inner, goal inner ∧ Edge table.next name inner) {depth : Nat}
    {visitedNames : List Text} {node result : Node} (done : expandSlot table depth visitedNames node = some result)
    {name : Text} (member : name ∈ names node) (way : DepthFirst.Leads table.next goal visitedNames name) :
    ∃ left ∈ names result, goal left := by
  induction depth generalizing visitedNames node result name with
  | zero => cases done
  | succ depth ih =>
    by_cases inside : goal name
    · exact expandSlot_inside plain closed done member inside
    · have fresh : name ∉ visitedNames := by
        cases way with
        | inside reached => exact absurd reached inside
        | step fresh _ _ => exact fresh
      obtain ⟨inner, edge, rest⟩ := way.leave inside
      obtain ⟨written, here, rfl⟩ := List.mem_map.mp member
      obtain ⟨part, run, kept⟩ := expandSlot_names done here
      rcases expandSlot_edge plain edge run with ⟨visited, -⟩ | ⟨-, target, inTarget, entered⟩
      · exact absurd visited fresh
      · obtain ⟨left, found, reached⟩ := ih entered inTarget rest
        exact ⟨left, kept left found, reached⟩

end Cycles

section Units
open Library.DepthFirst

def TranslationUnit.table (unit : TranslationUnit) : AliasTable := unit.registration.1

structure FullyExpanded (table : AliasTable) (children expanded full : List Node) : Prop where
  expands : ∀ other, List.Forall₂ (Expands table) children other ↔ other = full
  shape : expanded.map withoutMarks = full.map withoutMarks
  exact : (∀ name target, table.findAlias name = some target → Unmarked table target) →
    (∀ child ∈ children, Unmarked table child) → expanded = full
  free : ∀ node ∈ expanded, ∀ name ∈ names node, table.findAlias name = none

variable {table : AliasTable}

theorem expandsAll_iff {children full : List Node} (expands : List.Forall₂ (Expands table) children full)
    (other : List Node) : List.Forall₂ (Expands table) children other ↔ other = full := by
  refine ⟨fun again => ?_, fun same => same ▸ expands⟩
  have same := ((@expands_app table (.other 0) children full).mpr expands).unique (expands_app.mpr again)
  injection same with _ same
  exact same.symm

theorem fullyExpanded (acyclic : Acyclic table.next)
    (plain : ∀ name target, table.findAlias name = some target → Plain target) {depth : Nat}
    {children expanded : List Node} (done : children.mapM (expandSlot table depth []) = some expanded) :
    ∃ full, FullyExpanded table children expanded full := by
  have each := (mapM_eq_some.mp done).imp fun child result made =>
    expandSlot_full acyclic plain (fun _ visited => absurd visited List.not_mem_nil) made
  obtain ⟨fulls, expands, shape, exact, free⟩ := meets_all each
  exact ⟨fulls, expandsAll_iff expands, shape, exact, free⟩

theorem expands_nil (node : Node) : Expands [] node node := by
  induction node using Term.induct with
  | var name => exact .name rfl
  | app kind children ih => exact expands_app.mpr (List.forall₂_same.mpr ih)

theorem fullyExpanded_nil (children : List Node) : FullyExpanded [] children children children where
  expands := expandsAll_iff (List.forall₂_same.mpr fun child _ => expands_nil child)
  shape := rfl
  exact _ _ := rfl
  free _ _ _ _ := rfl

theorem leaves_cycle (plain : ∀ name target, table.findAlias name = some target → Plain target) {depth : Nat}
    {children expanded : List Node} (done : children.mapM (expandSlot table depth []) = some expanded)
    {cycle : List Text} (isCycle : IsCycle table.next cycle) {child : Node} (member : child ∈ children) {name entry : Text}
    (used : name ∈ names child) (onCycle : entry ∈ cycle)
    (reach : Relation.ReflTransGen (Edge table.next) name entry) : ∃ node ∈ expanded, ∃ left ∈ names node, left ∈ cycle := by
  obtain ⟨result, among, made⟩ := exists_of_mem_left (mapM_eq_some.mp done) member
  have closed : ∀ name, name ∈ cycle → ∃ inner, inner ∈ cycle ∧ Edge table.next name inner :=
    fun _ member => isCycle.step member
  exact ⟨result, among, expandSlot_leads plain closed made used (leads_of_reach reach onCycle)⟩

/-- The expansion of a unit ends. It leaves the tree alone where it reports an error; else, where no alias names a path of
members, aliases without cycles are expanded in full, and of a cycle that a name of the tree leads to a name is left. -/
theorem processUnit_expands (unit : TranslationUnit) : ∃ errors root,
    (∃ enough, ∀ depth ≥ enough, unit.processUnit depth = some (errors, root)) ∧ (errors ≠ [] → root = unit.root) ∧
      (errors = [] → (∀ name target, unit.table.findAlias name = some target → Plain target) →
        ∀ children, unit.root = some children → ∃ expanded, root = some expanded ∧
          (Acyclic unit.table.next → ∃ full, FullyExpanded unit.table children expanded full) ∧
          ∀ cycle, IsCycle unit.table.next cycle → ∀ child ∈ children, ∀ name ∈ names child, ∀ entry ∈ cycle,
            Relation.ReflTransGen (Edge unit.table.next) name entry →
              ∃ node ∈ expanded, ∃ left ∈ names node, left ∈ cycle) := by
  by_cases none_ : unit.aliases.isEmpty = true
  · refine ⟨[], unit.root, ⟨0, fun depth _ => if_pos none_⟩, fun _ => rfl, fun _ _ children root => ?_⟩
    have empty : unit.table = [] := by
      rw [TranslationUnit.table, TranslationUnit.registration, List.isEmpty_iff.mp none_]
      rfl
    rw [empty]
    refine ⟨children, root, fun _ => ⟨children, fullyExpanded_nil children⟩, fun cycle isCycle _ _ _ _ entry member => ?_⟩
    obtain ⟨inner, -, edge⟩ := isCycle.step member
    cases edge
  · by_cases failed : unit.registration.2 ≠ []
    · refine ⟨unit.registration.2, unit.root, ⟨0, fun depth _ => ?_⟩, fun _ => rfl, fun none_ => absurd none_ failed⟩
      rw [TranslationUnit.processUnit, if_neg none_, if_pos failed]
    · cases root : unit.root with
      | none =>
        refine ⟨[], none, ⟨0, fun depth _ => ?_⟩, fun _ => rfl, fun _ _ _ absent => nomatch absent⟩
        rw [TranslationUnit.processUnit, if_neg none_, if_neg failed, root]
      | some children =>
        obtain ⟨enough, expanded, all⟩ := expandAll_total fun child (_ : child ∈ children) =>
          expandSlot_total unit.table [] child
        refine ⟨[], some expanded, ⟨enough, fun depth large => ?_⟩, fun errors => absurd rfl errors,
          fun _ plain others same => ⟨expanded, rfl, fun acyclic => ?_, ?_⟩⟩
        · rw [TranslationUnit.processUnit, if_neg none_, if_neg failed, root]
          change (children.mapM (expandSlot unit.table depth [])).map _ = _
          rw [all depth large, Option.map_some]
        · cases same
          exact fullyExpanded acyclic plain (all enough le_rfl)
        · cases same
          intro cycle isCycle child member name used entry onCycle reach
          exact leaves_cycle plain (all enough le_rfl) isCycle member used onCycle reach

theorem memberPath_stays :
    let unit : TranslationUnit := ⟨[⟨[65], some (.app (.qualified [[110, 115], [84]] false) [])⟩],
      some [.app (.other 0) [.var ⟨[65], false, false⟩]]⟩
    Acyclic unit.table.next ∧ (∀ depth, unit.processUnit (depth + 2) = some ([], unit.root)) ∧
      unit.table.findAlias [65] ≠ none := by
  intro unit
  have edgeless (name inner : Text) : ¬ Edge unit.table.next name inner := by
    intro edge
    by_cases named : name = [65]
    · subst named
      cases edge
    · have absent : unit.table.findAlias name = none := List.lookup_eq_none_iff.mpr fun entry member => by
        cases List.mem_singleton.mp member
        exact bne_iff_ne.mpr named
      rw [Edge, AliasTable.next, absent] at edge
      cases edge
  refine ⟨fun name cycle => ?_, fun depth => rfl, nofun⟩
  obtain ⟨inner, edge, -⟩ := Relation.TransGen.head'_iff.mp cycle
  exact edgeless name inner edge

end Units

end NLang.Compiler.TypeAliases
