import Mathlib

/-!
# Cycles of a finite graph

A depth-first search that stops at the first cycle, and recursions that follow the edges of a graph without cycles.
-/

namespace NLang.Library.DepthFirst

variable {α : Type} (next : α → List α)

def Edge (a b : α) : Prop := b ∈ next a

def Acyclic : Prop := ∀ a, ¬ Relation.TransGen (Edge next) a a

variable {next}

theorem Acyclic.of_map {β : Type} {next' : β → List β} (acyclic : Acyclic next') (f : α → β)
    (edges : ∀ a b, Edge next a b → Edge next' (f a) (f b)) : Acyclic next :=
  fun a cycle => acyclic (f a) (cycle.lift f edges)

section Search

/-- Visits in turn, until one reports a cycle; `none` where the bound of a visit runs out. -/
def visitAll (visit : List α → α → Option (Except (List α) (List α))) :
    List α → List α → Option (Except (List α) (List α))
  | visited, [] => some (.ok visited)
  | visited, node :: nodes =>
    match visit visited node with
    | some (.ok visited) => visitAll visit visited nodes
    | stopped => stopped

inductive Finished (next : α → List α) : List α → Prop where
  | nil : Finished next []
  | cons {node : α} {rest : List α} (edges : next node ⊆ rest) (before : Finished next rest) :
      Finished next (node :: rest)

theorem Finished.edges {nodes : List α} (finished : Finished next nodes) {a b : α} (member : a ∈ nodes) (edge : Edge next a b) :
    b ∈ nodes := by
  induction finished with
  | nil => cases member
  | cons edges before ih =>
    rcases List.mem_cons.mp member with rfl | member
    · exact .tail _ (edges edge)
    · exact .tail _ (ih member)

theorem Finished.closed {nodes : List α} (finished : Finished next nodes) {a b : α} (reach : Relation.TransGen (Edge next) a b)
    (member : a ∈ nodes) : b ∈ nodes := by
  induction reach with
  | single edge => exact finished.edges member edge
  | tail _ edge ih => exact finished.edges ih edge

theorem Finished.not_cyclic {nodes : List α} (finished : Finished next nodes) {a : α} (member : a ∈ nodes) :
    ¬ Relation.TransGen (Edge next) a a := by
  induction finished with
  | nil => cases member
  | @cons node rest edges before ih =>
    intro cycle
    by_cases later : a ∈ rest
    · exact ih later cycle
    · have isNode : a = node := (List.mem_cons.mp member).resolve_right later
      subst isNode
      obtain ⟨b, step, back⟩ := Relation.TransGen.head'_iff.mp cycle
      rcases Relation.reflTransGen_iff_eq_or_transGen.mp back with same | back
      · exact later (same ▸ edges step)
      · exact later (before.closed back (edges step))

structure Explored (next : α → List α) (path visited finished : List α) : Prop where
  split : ∀ a, a ∈ visited ↔ a ∈ finished ∨ a ∈ path
  finished : Finished next finished

def Visits (next : α → List α) (path : List α) (step : List α → α → Option (Except (List α) (List α))) : Prop :=
  ∀ visited visited' finished node, step visited node = some (.ok visited') → Explored next path visited finished →
    ∃ finished', Explored next path visited' finished' ∧ finished ⊆ finished' ∧ node ∈ finished'

theorem visitAll_ok {path : List α} {step : List α → α → Option (Except (List α) (List α))} (visits : Visits next path step)
    {nodes visited visited' finished : List α} (done : visitAll step visited nodes = some (.ok visited'))
    (explored : Explored next path visited finished) :
    ∃ finished', Explored next path visited' finished' ∧ finished ⊆ finished' ∧ nodes ⊆ finished' := by
  induction nodes generalizing visited finished with
  | nil =>
    cases done
    exact ⟨finished, explored, List.Subset.refl _, List.nil_subset _⟩
  | cons node nodes ih =>
    rw [visitAll] at done
    split at done
    · rename_i first visited₁
      obtain ⟨finished₁, explored₁, grows, has⟩ := visits _ _ _ _ visited₁ explored
      obtain ⟨finished', explored', grows', have'⟩ := ih done explored₁
      exact ⟨finished', explored', List.Subset.trans grows grows', List.cons_subset.mpr ⟨grows' has, have'⟩⟩
    · rename_i stopped
      exact absurd done (stopped visited')

theorem visitAll_total {step : List α → α → Option (Except (List α) (List α))} {nodes : List α}
    (ends : ∀ visited, ∀ node ∈ nodes, step visited node ≠ none) (visited : List α) :
    visitAll step visited nodes ≠ none := by
  induction nodes generalizing visited with
  | nil => exact nofun
  | cons node nodes ih =>
    rw [visitAll]
    split
    · exact ih (fun visited node member => ends visited node (.tail _ member)) _
    · exact ends visited node (.head _)

theorem visitAll_error {step : List α → α → Option (Except (List α) (List α))} {Q : List α → Prop} {nodes : List α}
    (reports : ∀ visited, ∀ node ∈ nodes, ∀ cycle, step visited node = some (.error cycle) → Q cycle) {visited cycle : List α}
    (done : visitAll step visited nodes = some (.error cycle)) : Q cycle := by
  induction nodes generalizing visited with
  | nil => cases done
  | cons node nodes ih =>
    rw [visitAll] at done
    split at done
    · exact ih (fun visited node member => reports visited node (.tail _ member)) done
    · exact reports visited node (.head _) cycle done

structure IsCycle (next : α → List α) (nodes : List α) : Prop where
  edges : nodes.IsChain (Edge next)
  closed : nodes.head? = nodes.getLast?
  long : 2 ≤ nodes.length

theorem IsCycle.transGen {nodes : List α} (cycle : IsCycle next nodes) {a : α} (first : nodes.head? = some a) :
    Relation.TransGen (Edge next) a a := by
  match nodes, cycle, first with
  | a :: b :: rest, cycle, rfl =>
    obtain ⟨step, walk⟩ := List.isChain_cons_cons.mp cycle.edges
    have last : (b :: rest).getLast (List.cons_ne_nil b rest) = a := by
      have closed := cycle.closed
      rw [List.head?_cons, List.getLast?_cons_cons, List.getLast?_eq_getLast_of_ne_nil (List.cons_ne_nil b rest)] at closed
      exact (Option.some.inj closed).symm
    have back : Relation.ReflTransGen (Edge next) b a := List.relationReflTransGen_of_exists_isChain_cons rest walk last
    exact .head' step back

theorem IsCycle.step {nodes : List α} (cycle : IsCycle next nodes) {a : α} (member : a ∈ nodes) :
    ∃ b ∈ nodes, Edge next a b := by
  obtain ⟨i, inside, rfl⟩ := List.mem_iff_getElem.mp member
  have long := cycle.long
  by_cases more : i + 1 < nodes.length
  · exact ⟨nodes[i + 1], List.getElem_mem more, List.isChain_iff_getElem.mp cycle.edges i more⟩
  · have closed := cycle.closed
    have last : nodes.length - 1 = i := by omega
    rw [List.head?_eq_getElem?, List.getLast?_eq_getElem?, last, List.getElem?_eq_getElem (by omega),
      List.getElem?_eq_getElem inside] at closed
    rw [← Option.some.inj closed]
    exact ⟨nodes[1], List.getElem_mem long, List.isChain_iff_getElem.mp cycle.edges 0 long⟩

structure Descends (next : α → List α) (P : α → Prop) (path : List α) (node : α) : Prop where
  edges : (node :: path).IsChain fun inner outer => Edge next outer inner
  holds : ∀ a ∈ node :: path, P a

theorem Descends.enter {P : α → Prop} {path : List α} {node child : α} (descends : Descends next P path node)
    (closed : ∀ a b, P a → Edge next a b → P b) (edge : child ∈ next node) : Descends next P (node :: path) child where
  edges := List.isChain_cons_cons.mpr ⟨edge, descends.edges⟩
  holds := List.forall_mem_cons.mpr ⟨closed node child (descends.holds node (.head _)) edge, descends.holds⟩

variable [DecidableEq α]

variable (next)

def visit : Nat → List α → List α → α → Option (Except (List α) (List α))
  | 0, _, _, _ => none
  | bound + 1, path, visited, node =>
    if node ∈ path then some (.error ((path.reverse ++ [node]).dropWhile (· ≠ node)))
    else if node ∈ visited then some (.ok visited)
    else visitAll (visit bound (node :: path)) (node :: visited) (next node)

def search (bound : Nat) (roots : List α) : Option (Except (List α) (List α)) := visitAll (visit next bound []) [] roots

variable {next}

theorem visits (bound : Nat) (path : List α) : Visits next path (visit next bound path) := by
  induction bound generalizing path with
  | zero => exact fun _ _ _ _ done => nomatch done
  | succ bound ih =>
    intro visited visited' finished node done explored
    rw [visit] at done
    split at done
    · cases done
    · rename_i fresh
      split at done
      · rename_i seen
        cases done
        exact ⟨finished, explored, List.Subset.refl _, ((explored.split node).mp seen).resolve_right fresh⟩
      · have entered : Explored next (node :: path) (node :: visited) finished := by
          refine ⟨fun a => ?_, explored.finished⟩
          rw [List.mem_cons, List.mem_cons, explored.split]
          exact or_left_comm
        obtain ⟨below, explored', grows, edges⟩ := visitAll_ok (ih (node :: path)) done entered
        refine ⟨node :: below, ⟨fun a => ?_, .cons edges explored'.finished⟩, ?_, .head _⟩
        · rw [explored'.split, List.mem_cons, List.mem_cons]
          exact or_left_comm.trans or_assoc.symm
        · exact List.Subset.trans grows (List.subset_cons_self _ _)

theorem search_acyclic {bound : Nat} {roots visited : List α} (done : search next bound roots = some (.ok visited)) {root a : α}
    (member : root ∈ roots) (reach : Relation.ReflTransGen (Edge next) root a) : ¬ Relation.TransGen (Edge next) a a := by
  have start : Explored next [] [] [] := ⟨fun a => by simp, .nil⟩
  obtain ⟨finished, explored, -, covers⟩ := visitAll_ok (visits bound []) done start
  rcases Relation.reflTransGen_iff_eq_or_transGen.mp reach with rfl | reach
  · exact explored.finished.not_cyclic (covers member)
  · exact explored.finished.not_cyclic (explored.finished.closed reach (covers member))

theorem search_ok {bound : Nat} {roots visited : List α} (done : search next bound roots = some (.ok visited)) {a : α}
    (root : a ∈ roots) : ¬ Relation.TransGen (Edge next) a a :=
  search_acyclic done root .refl

theorem Descends.cycle {P : α → Prop} {path : List α} {node : α} (descends : Descends next P path node) (again : node ∈ path) :
    IsCycle next ((path.reverse ++ [node]).dropWhile (· ≠ node)) ∧
      ∀ a ∈ (path.reverse ++ [node]).dropWhile (· ≠ node), P a := by
  have walk : (path.reverse ++ [node]).IsChain (Edge next) := by
    rw [← List.reverse_cons]
    exact List.isChain_reverse.mpr descends.edges
  have met : path.reverse.dropWhile (· ≠ node) ≠ [] := by
    rw [ne_eq, List.dropWhile_eq_nil_iff]
    intro all
    simpa only [ne_eq, not_true_eq_false, decide_false, Bool.false_eq_true] using all node (List.mem_reverse.mpr again)
  have split : (path.reverse ++ [node]).dropWhile (· ≠ node) = path.reverse.dropWhile (· ≠ node) ++ [node] := by
    rw [List.dropWhile_append, if_neg (by simpa using met)]
  refine ⟨⟨walk.suffix (List.dropWhile_suffix _), ?_, ?_⟩, ?_⟩
  · rw [split, List.getLast?_concat, List.head?_append_of_ne_nil _ met]
    have first := List.head?_dropWhile_not (fun a => decide (a ≠ node)) path.reverse
    cases found : (path.reverse.dropWhile (· ≠ node)).head? with
    | none => exact absurd (List.head?_eq_none_iff.mp found) met
    | some a =>
      rw [found] at first
      simpa using first
  · rw [split, List.length_append, List.length_singleton]
    have := List.length_pos_iff.mpr met
    omega
  · intro a member
    have inside := (List.dropWhile_suffix _).subset member
    rw [List.mem_append, List.mem_reverse, List.mem_singleton] at inside
    exact descends.holds a (List.mem_cons.mpr inside.symm)

theorem visit_error {P : α → Prop} (closed : ∀ a b, P a → Edge next a b → P b) (bound : Nat) {path visited cycle : List α}
    {node : α} (descends : Descends next P path node) (done : visit next bound path visited node = some (.error cycle)) :
    IsCycle next cycle ∧ ∀ a ∈ cycle, P a := by
  induction bound generalizing path visited node cycle with
  | zero => cases done
  | succ bound ih =>
    rw [visit] at done
    split at done
    · rename_i again
      cases done
      exact descends.cycle again
    · split at done
      · cases done
      · refine @visitAll_error α _ (fun cycle => IsCycle next cycle ∧ ∀ a ∈ cycle, P a) _ ?_ _ _ done
        exact fun visited child edge cycle done => ih (descends.enter closed edge) done

theorem search_error {bound : Nat} {roots cycle : List α} (done : search next bound roots = some (.error cycle)) :
    IsCycle next cycle ∧ ∀ a ∈ cycle, ∃ root ∈ roots, Relation.ReflTransGen (Edge next) root a := by
  let Reached (a : α) : Prop := ∃ root ∈ roots, Relation.ReflTransGen (Edge next) root a
  refine @visitAll_error α _ (fun cycle => IsCycle next cycle ∧ ∀ a ∈ cycle, Reached a) _ ?_ _ _ done
  intro visited root member cycle done
  refine visit_error (fun a b => ?_) bound ⟨.singleton root, ?_⟩ done
  · rintro ⟨root, member, reach⟩ edge
    exact ⟨root, member, reach.tail edge⟩
  · intro a isRoot
    exact ⟨root, member, List.mem_singleton.mp isRoot ▸ .refl⟩

theorem visit_total {nodes : List α} (closed : ∀ a ∈ nodes, next a ⊆ nodes) (bound : Nat) {path : List α} (nodup : path.Nodup)
    (inside : path ⊆ nodes) (room : nodes.length < bound + path.length) (visited : List α) {node : α} (member : node ∈ nodes) :
    visit next bound path visited node ≠ none := by
  induction bound generalizing path visited node with
  | zero =>
    have := (List.subperm_of_subset nodup inside).length_le
    omega
  | succ bound ih =>
    rw [visit]
    split
    · exact nofun
    · rename_i fresh
      split
      · exact nofun
      · refine visitAll_total (fun visited child below => ?_) _
        refine ih (List.nodup_cons.mpr ⟨fresh, nodup⟩) (List.cons_subset.mpr ⟨member, inside⟩) ?_ visited
          (closed node member below)
        rw [List.length_cons]
        omega

theorem search_total {nodes : List α} (closed : ∀ a ∈ nodes, next a ⊆ nodes) {roots : List α} (inside : roots ⊆ nodes) {bound : Nat}
    (enough : nodes.length < bound) : search next bound roots ≠ none :=
  visitAll_total (fun visited _ root => visit_total closed _ List.nodup_nil (List.nil_subset _) enough visited (inside root)) []

end Search

theorem Acyclic.acc {nodes : List α} (acyclic : Acyclic next) (inside : ∀ a b, Edge next a b → a ∈ nodes) (a : α) :
    Acc (fun b a => Edge next a b) a := by
  let Below (b a : { a // a ∈ nodes }) : Prop := Relation.TransGen (Edge next) a.1 b.1
  have : Finite { a // a ∈ nodes } := (List.finite_toSet nodes).to_subtype
  have : IsTrans _ Below := ⟨fun _ _ _ first second => Relation.TransGen.trans second first⟩
  have : Std.Irrefl Below := ⟨fun a => acyclic a.1⟩
  have founded : WellFounded Below := Finite.wellFounded_of_trans_of_irrefl Below
  have node (a : { a // a ∈ nodes }) : Acc (fun b a => Edge next a b) a.1 := by
    induction a using founded.induction with
    | _ a ih =>
      refine ⟨_, fun b step => ?_⟩
      by_cases member : b ∈ nodes
      · exact ih ⟨b, member⟩ (.single step)
      · exact ⟨_, fun c further => absurd (inside b c further) member⟩
  by_cases member : a ∈ nodes
  · exact node ⟨a, member⟩
  · exact ⟨_, fun c further => absurd (inside a c further) member⟩

def Settles {σ γ : Type} (unfinished : γ) (run : Nat → σ → α → γ) (a : α) : Prop :=
  ∃ enough, ∀ bound ≥ enough, ∀ s, run bound s a ≠ unfinished

theorem settles {σ γ : Type} {unfinished : γ} {run : Nat → σ → α → γ}
    (step : ∀ bound a, (∀ b, Edge next a b → ∀ s, run bound s b ≠ unfinished) → ∀ s, run (bound + 1) s a ≠ unfinished) {a : α}
    (ends : Acc (fun b a => Edge next a b) a) : Settles unfinished run a := by
  induction ends with
  | intro a _ ih =>
    have common : ∀ bs ⊆ next a, ∃ enough, ∀ b ∈ bs, ∀ bound ≥ enough, ∀ s, run bound s b ≠ unfinished := by
      intro bs inside
      induction bs with
      | nil => exact ⟨0, fun _ member => nomatch member⟩
      | cons b bs others =>
        obtain ⟨first, settled⟩ := ih b (inside (.head _))
        obtain ⟨enough, rest⟩ := others fun c member => inside (.tail _ member)
        refine ⟨max first enough, fun c member bound more => ?_⟩
        rcases List.mem_cons.mp member with rfl | member
        · exact settled bound (le_trans (le_max_left _ _) more)
        · exact rest c member bound (le_trans (le_max_right _ _) more)
    obtain ⟨enough, below⟩ := common (next a) (List.Subset.refl _)
    refine ⟨enough + 1, fun bound more s => ?_⟩
    cases bound with
    | zero => omega
    | succ bound => exact step bound a (fun b edge => below b edge bound (by omega)) s

inductive Leads (next : α → List α) (goal : α → Prop) (path : List α) : α → Prop where
  | inside {a : α} (reached : goal a) : Leads next goal path a
  | step {a b : α} (fresh : a ∉ path) (edge : Edge next a b) (rest : Leads next goal path b) : Leads next goal path a

theorem leads_of_reach {goal : α → Prop} {a b : α} (reach : Relation.ReflTransGen (Edge next) a b) (reached : goal b) :
    Leads next goal [] a := by
  induction reach using Relation.ReflTransGen.head_induction_on with
  | refl => exact .inside reached
  | head edge _ ih => exact .step List.not_mem_nil edge ih

theorem Leads.leave {goal : α → Prop} {path : List α} {a : α} (leads : Leads next goal path a) (outside : ¬ goal a) :
    ∃ b, Edge next a b ∧ Leads next goal (a :: path) b := by
  have cut {m : α} (way : Leads next goal path m) :
      Leads next goal (a :: path) m ∨ ∃ b, Edge next a b ∧ Leads next goal (a :: path) b := by
    induction way with
    | inside reached => exact .inl (.inside reached)
    | @step m b fresh edge _ ih =>
      rcases ih with rest | found
      · by_cases same : m = a
        · subst same
          exact .inr ⟨b, edge, rest⟩
        · exact .inl (.step (fun member => (List.mem_cons.mp member).elim same fresh) edge rest)
      · exact .inr found
  cases leads with
  | inside reached => exact absurd reached outside
  | step _ edge rest =>
    rcases cut rest with rest | found
    · exact ⟨_, edge, rest⟩
    · exact found

end NLang.Library.DepthFirst
