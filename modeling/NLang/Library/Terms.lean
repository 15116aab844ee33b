import Mathlib

/-!
# Terms

First-order terms over symbols that take any number of arguments, and partial functions on lists of them.
-/

namespace NLang.Library

inductive Term (σ ν : Type) where
  | var (v : ν)
  | app (symbol : σ) (args : List (Term σ ν))

namespace Term
variable {σ ν : Type}

theorem induct {motive : Term σ ν → Prop} (var : ∀ v, motive (.var v))
    (app : ∀ symbol args, (∀ t ∈ args, motive t) → motive (.app symbol args)) (t : Term σ ν) : motive t :=
  @Term.rec σ ν motive (fun args => ∀ t ∈ args, motive t) var app (fun _ member => nomatch member)
    (fun _ _ first others => List.forall_mem_cons.mpr ⟨first, others⟩) t

mutual

def vars : Term σ ν → List ν
  | .var v => [v]
  | .app _ args => varsAll args

def varsAll : List (Term σ ν) → List ν
  | [] => []
  | t :: ts => vars t ++ varsAll ts

end

mutual

def symbols : Term σ ν → List σ
  | .var _ => []
  | .app symbol args => symbol :: symbolsAll args

def symbolsAll : List (Term σ ν) → List σ
  | [] => []
  | t :: ts => symbols t ++ symbolsAll ts

end

mutual

def map {σ' ν' : Type} (f : σ → σ') (g : ν → ν') : Term σ ν → Term σ' ν'
  | .var v => .var (g v)
  | .app symbol args => .app (f symbol) (mapAll f g args)

def mapAll {σ' ν' : Type} (f : σ → σ') (g : ν → ν') : List (Term σ ν) → List (Term σ' ν')
  | [] => []
  | t :: ts => map f g t :: mapAll f g ts

end

@[simp] theorem mem_vars_var {v w : ν} : v ∈ (var w : Term σ ν).vars ↔ v = w := List.mem_singleton

theorem mem_vars_app {v : ν} {symbol : σ} {args : List (Term σ ν)} :
    v ∈ (app symbol args).vars ↔ ∃ t ∈ args, v ∈ t.vars := by
  change v ∈ varsAll args ↔ _
  induction args with
  | nil => exact iff_of_false List.not_mem_nil fun ⟨_, member, _⟩ => nomatch member
  | cons t ts ih => rw [varsAll, List.mem_append, ih, List.exists_mem_cons_iff]

theorem mem_symbols_app {s symbol : σ} {args : List (Term σ ν)} :
    s ∈ (app symbol args).symbols ↔ s = symbol ∨ ∃ t ∈ args, s ∈ t.symbols := by
  rw [symbols, List.mem_cons]
  refine or_congr_right ?_
  induction args with
  | nil => exact iff_of_false List.not_mem_nil fun ⟨_, member, _⟩ => nomatch member
  | cons t ts ih => rw [symbolsAll, List.mem_append, ih, List.exists_mem_cons_iff]

theorem map_app {σ' ν' : Type} (f : σ → σ') (g : ν → ν') (symbol : σ) (args : List (Term σ ν)) :
    (app symbol args).map f g = app (f symbol) (args.map (map f g)) := by
  rw [map]
  congr 1
  induction args with
  | nil => rfl
  | cons t ts ih => rw [mapAll, ih, List.map_cons]

end Term

section Partial
variable {α β : Type}

theorem mapM_eq_some {f : α → Option β} {as : List α} {bs : List β} :
    as.mapM f = some bs ↔ List.Forall₂ (fun a b => f a = some b) as bs := by
  induction as generalizing bs with
  | nil =>
    rw [List.mapM_nil, List.forall₂_nil_left_iff]
    exact ⟨fun same => (Option.some.inj same).symm, fun empty => congrArg some empty.symm⟩
  | cons a as ih =>
    rw [List.mapM_cons, List.forall₂_cons_left_iff]
    cases f a with
    | none => exact ⟨nofun, fun ⟨_, _, absent, _⟩ => nomatch absent⟩
    | some b =>
      cases rest : as.mapM f with
      | none =>
        refine ⟨fun done => ?_, fun ⟨_, bs, _, each, _⟩ => ?_⟩
        · rw [Option.bind_eq_bind, Option.bind_some] at done
          cases done
        · rw [← ih, rest] at each
          cases each
      | some bs' =>
        rw [Option.bind_eq_bind, Option.bind_some, Option.bind_eq_bind, Option.bind_some]
        constructor
        · intro done
          cases done
          exact ⟨b, bs', rfl, ih.mp rest, rfl⟩
        · rintro ⟨_, _, same, each, rfl⟩
          cases same
          rw [← ih, rest] at each
          cases each
          rfl

theorem exists_of_mem_right {R : α → β → Prop} {as : List α} {bs : List β} (each : List.Forall₂ R as bs) {b : β}
    (member : b ∈ bs) : ∃ a ∈ as, R a b := by
  induction each with
  | nil => cases member
  | cons first _ ih =>
    rcases List.mem_cons.mp member with rfl | member
    · exact ⟨_, .head _, first⟩
    · obtain ⟨a, inside, related⟩ := ih member
      exact ⟨a, .tail _ inside, related⟩

theorem exists_of_mem_left {R : α → β → Prop} {as : List α} {bs : List β} (each : List.Forall₂ R as bs) {a : α}
    (member : a ∈ as) : ∃ b ∈ bs, R a b := exists_of_mem_right each.flip member

end Partial

end NLang.Library
