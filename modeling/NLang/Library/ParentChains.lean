import Mathlib

/-!
# Chains of parents

Every node has at most one parent. Where no node is its own ancestor, the chain from a node to its root is no longer
than there are nodes.
-/

namespace NLang.Library.ParentChains

variable {α : Type} (parent : α → Option α)

def Parent (a b : α) : Prop := parent a = some b

def Acyclic : Prop := ∀ a, ¬ Relation.TransGen (Parent parent) a a

def chainFrom : Nat → α → Option (List α)
  | 0, _ => none
  | room + 1, a =>
    match parent a with
    | none => some [a]
    | some b => (chainFrom room b).map (a :: ·)

variable {parent}

theorem chainFrom_cons {room : Nat} {a b : α} (up : parent a = some b) :
    chainFrom parent (room + 1) a = (chainFrom parent room b).map (a :: ·) := by rw [chainFrom, up]

theorem chainFrom_root {room : Nat} {a : α} (root : parent a = none) : chainFrom parent (room + 1) a = some [a] := by
  rw [chainFrom, root]

theorem chainFrom_more {room : Nat} {a : α} {chain : List α} (found : chainFrom parent room a = some chain) :
    chainFrom parent (room + 1) a = some chain := by
  induction room generalizing a chain with
  | zero => cases found
  | succ room ih =>
    cases up : parent a with
    | none => rwa [chainFrom_root up] at found ⊢
    | some b =>
      rw [chainFrom_cons up, Option.map_eq_some_iff] at found ⊢
      obtain ⟨rest, above, same⟩ := found
      exact ⟨rest, ih above, same⟩

theorem chainFrom_add {room : Nat} {a : α} {chain : List α} (more : Nat) (found : chainFrom parent room a = some chain) :
    chainFrom parent (room + more) a = some chain := by
  induction more with
  | zero => exact found
  | succ more ih => exact chainFrom_more ih

theorem chainFrom_agree {room room' : Nat} {a : α} {chain chain' : List α} (found : chainFrom parent room a = some chain)
    (found' : chainFrom parent room' a = some chain') : chain = chain' := by
  have one := chainFrom_add room' found
  have other := chainFrom_add room found'
  rw [Nat.add_comm, other] at one
  exact (Option.some.inj one).symm

theorem chainFrom_head {room : Nat} {a : α} {chain : List α} (found : chainFrom parent room a = some chain) :
    ∃ rest, chain = a :: rest := by
  cases room with
  | zero => cases found
  | succ room =>
    cases up : parent a with
    | none =>
      rw [chainFrom_root up] at found
      exact ⟨[], (Option.some.inj found).symm⟩
    | some b =>
      rw [chainFrom_cons up, Option.map_eq_some_iff] at found
      obtain ⟨rest, -, same⟩ := found
      exact ⟨rest, same.symm⟩

theorem chainFrom_invariant {P : α → Prop} {room : Nat} {a : α} {chain : List α}
    (found : chainFrom parent room a = some chain) (start : P a)
    (inherit : ∀ b ∈ chain, ∀ c, P b → parent b = some c → P c) : ∀ b ∈ chain, P b := by
  induction room generalizing a chain with
  | zero => cases found
  | succ room ih =>
    cases up : parent a with
    | none =>
      rw [chainFrom_root up, Option.some.injEq] at found
      subst found
      intro b member
      rwa [List.mem_singleton.mp member]
    | some c =>
      rw [chainFrom_cons up, Option.map_eq_some_iff] at found
      obtain ⟨rest, above, rfl⟩ := found
      have next := ih above (inherit a (.head _) c start up) fun b member => inherit b (.tail _ member)
      intro b member
      rcases List.mem_cons.mp member with rfl | member
      · exact start
      · exact next b member

theorem chainFrom_map {β : Type} {parent' : β → Option β} {f : α → β} {room : Nat} {a : α} {chain : List α}
    (found : chainFrom parent room a = some chain) (follows : ∀ b ∈ chain, parent' (f b) = (parent b).map f) :
    chainFrom parent' room (f a) = some (chain.map f) := by
  induction room generalizing a chain with
  | zero => cases found
  | succ room ih =>
    obtain ⟨rest, rfl⟩ := chainFrom_head found
    have up := follows a (.head _)
    cases link : parent a with
    | none =>
      rw [chainFrom_root link] at found
      obtain rfl := (List.cons.inj (Option.some.inj found)).2
      exact chainFrom_root (by rw [up, link, Option.map_none])
    | some b =>
      rw [chainFrom_cons link, Option.map_eq_some_iff] at found
      obtain ⟨rest', above, same⟩ := found
      obtain rfl := (List.cons.inj same).2
      have above' := ih above fun c member => follows c (.tail _ member)
      rw [chainFrom_cons (b := f b) (by rw [up, link, Option.map_some]), above', Option.map_some, List.map_cons]

theorem chainFrom_suffix {room : Nat} {a d : α} {below above : List α}
    (found : chainFrom parent room a = some (below ++ d :: above)) : chainFrom parent room d = some (d :: above) := by
  induction below generalizing room a with
  | nil =>
    obtain ⟨rest, same⟩ := chainFrom_head found
    rw [List.nil_append, List.cons.injEq] at same
    rw [same.1]
    exact same.1 ▸ found
  | cons e below ih =>
    cases room with
    | zero => cases found
    | succ room =>
      cases up : parent a with
      | none =>
        rw [chainFrom_root up, List.cons_append] at found
        have short := congrArg List.length (Option.some.inj found)
        simp at short
      | some b =>
        rw [chainFrom_cons up, Option.map_eq_some_iff] at found
        obtain ⟨rest, later, same⟩ := found
        obtain rfl := (List.cons.inj same).2
        exact chainFrom_more (ih later)

private theorem chainFrom_seen (acyclic : Acyclic parent) {nodes : List α}
    (closed : ∀ a ∈ nodes, ∀ b, parent a = some b → b ∈ nodes) (room : Nat) (seen : List α) (nodup : seen.Nodup)
    (inside : seen ⊆ nodes) (enough : nodes.length ≤ room + seen.length) {a : α} (node : a ∈ nodes)
    (below : ∀ c ∈ seen, Relation.TransGen (Parent parent) c a) : ∃ chain, chainFrom parent room a = some chain := by
  induction room generalizing seen a with
  | zero =>
    have fresh : a ∉ seen := fun member => acyclic a (below a member)
    have distinct : (a :: seen).Nodup := List.nodup_cons.mpr ⟨fresh, nodup⟩
    have count := (List.subperm_of_subset distinct (List.cons_subset.mpr ⟨node, inside⟩)).length_le
    rw [List.length_cons] at count
    omega
  | succ room ih =>
    cases up : parent a with
    | none => exact ⟨[a], chainFrom_root up⟩
    | some b =>
      have fresh : a ∉ seen := fun member => acyclic a (below a member)
      have next : ∀ c ∈ a :: seen, Relation.TransGen (Parent parent) c b := by
        intro c member
        rcases List.mem_cons.mp member with rfl | member
        · exact .single up
        · exact .tail (below c member) up
      obtain ⟨chain, above⟩ := ih (a :: seen) (List.nodup_cons.mpr ⟨fresh, nodup⟩)
        (List.cons_subset.mpr ⟨node, inside⟩) (by rw [List.length_cons]; omega) (closed a node b up) next
      exact ⟨a :: chain, by rw [chainFrom_cons up, above]; rfl⟩

theorem chainFrom_total (acyclic : Acyclic parent) {nodes : List α}
    (closed : ∀ a ∈ nodes, ∀ b, parent a = some b → b ∈ nodes) {a : α} (node : a ∈ nodes) :
    ∃ chain, chainFrom parent nodes.length a = some chain :=
  chainFrom_seen acyclic closed nodes.length [] List.nodup_nil (List.nil_subset _) (Nat.le_add_right _ _) node
    fun _ member => nomatch member

theorem not_cyclic_of_chain {room : Nat} {a : α} {chain : List α} (found : chainFrom parent room a = some chain) :
    ¬ Relation.TransGen (Parent parent) a a := by
  induction room generalizing a chain with
  | zero => cases found
  | succ room ih =>
    intro cycle
    obtain ⟨b, up, back⟩ := Relation.TransGen.head'_iff.mp cycle
    rw [chainFrom_cons up, Option.map_eq_some_iff] at found
    obtain ⟨rest, above, -⟩ := found
    exact ih above (Relation.TransGen.tail' back up)

end NLang.Library.ParentChains
