import Mathlib

/-!
# Worklists

Marking of a finite graph: an element is marked when it is pushed, so it is pushed once. The slack of a
worklist bounds the iterations that are left.
-/

namespace NLang.Library

structure Worklist (α : Type) where
  marked : List α := []
  work : List α := []

namespace Worklist
variable {α : Type} [DecidableEq α]

def push (s : Worklist α) (x : α) : Worklist α :=
  if x ∈ s.marked then s else ⟨x :: s.marked, x :: s.work⟩

def pushAll (s : Worklist α) (xs : List α) : Worklist α := xs.foldl push s

structure Within (all : List α) (s : Worklist α) : Prop where
  nodup : s.marked.Nodup
  subset : ∀ x ∈ s.marked, x ∈ all
  pending : ∀ x ∈ s.work, x ∈ s.marked

def slack (all : List α) (s : Worklist α) : Nat := 2 * (all.length - s.marked.length) + s.work.length

section Push
variable (s : Worklist α) (x : α)

theorem mem_push {y : α} : y ∈ (s.push x).marked ↔ y = x ∨ y ∈ s.marked := by
  unfold push
  split
  · rename_i known
    exact ⟨.inr, fun either => either.elim (fun same => same ▸ known) id⟩
  · exact List.mem_cons

theorem mem_push_work {y : α} (member : y ∈ s.work) : y ∈ (s.push x).work := by
  unfold push
  split
  · exact member
  · exact List.mem_cons_of_mem _ member

theorem mem_work_of_push {y : α} (fresh : y ∉ s.marked) (member : y ∈ (s.push x).marked) :
    y ∈ (s.push x).work := by
  unfold push at member ⊢
  split at member
  · exact absurd member fresh
  · rename_i unknown
    rw [if_neg unknown]
    rcases List.mem_cons.mp member with rfl | old
    · exact List.mem_cons_self
    · exact absurd old fresh

variable {s x} {all : List α}

theorem Within.push (within : Within all s) (inside : x ∈ all) : Within all (s.push x) := by
  unfold Worklist.push
  split
  · exact within
  · rename_i unknown
    refine ⟨List.nodup_cons.mpr ⟨unknown, within.nodup⟩, ?_, ?_⟩
    · intro y member
      rcases List.mem_cons.mp member with rfl | old
      · exact inside
      · exact within.subset y old
    · intro y member
      rcases List.mem_cons.mp member with rfl | old
      · exact List.mem_cons_self
      · exact List.mem_cons_of_mem _ (within.pending y old)

omit [DecidableEq α] in
theorem Within.length_le (within : Within all s) : s.marked.length ≤ all.length :=
  within.nodup.length_le_of_subset within.subset

theorem slack_push (within : Within all s) (inside : x ∈ all) :
    (s.push x).slack all ≤ s.slack all := by
  have after := (within.push inside).length_le
  unfold Worklist.push at after ⊢
  split
  · exact Nat.le_refl _
  · rename_i unknown
    rw [if_neg unknown] at after
    simp only [slack, List.length_cons] at after ⊢
    omega

end Push

section PushAll
variable {all : List α}

theorem mem_pushAll (s : Worklist α) (xs : List α) {y : α} :
    y ∈ (s.pushAll xs).marked ↔ y ∈ xs ∨ y ∈ s.marked := by
  induction xs generalizing s with
  | nil => simp [pushAll]
  | cons x xs ih =>
    have rest := ih (s.push x)
    rw [pushAll] at rest
    rw [pushAll, List.foldl_cons, rest, mem_push, List.mem_cons]
    tauto

theorem mem_pushAll_work (s : Worklist α) (xs : List α) {y : α} (member : y ∈ s.work) :
    y ∈ (s.pushAll xs).work := by
  induction xs generalizing s with
  | nil => exact member
  | cons x xs ih => exact ih (s.push x) (s.mem_push_work x member)

theorem mem_work_of_pushAll (s : Worklist α) (xs : List α) {y : α} (fresh : y ∉ s.marked)
    (member : y ∈ (s.pushAll xs).marked) : y ∈ (s.pushAll xs).work := by
  induction xs generalizing s with
  | nil => exact absurd member fresh
  | cons x xs ih =>
    by_cases now : y ∈ (s.push x).marked
    · exact mem_pushAll_work _ xs (s.mem_work_of_push x fresh now)
    · exact ih (s.push x) now member

theorem Within.pushAll {s : Worklist α} (within : Within all s) (xs : List α)
    (inside : ∀ x ∈ xs, x ∈ all) :
    Within all (s.pushAll xs) ∧ (s.pushAll xs).slack all ≤ s.slack all := by
  induction xs generalizing s with
  | nil => exact ⟨within, Nat.le_refl _⟩
  | cons x xs ih =>
    have head := inside x List.mem_cons_self
    obtain ⟨after, less⟩ := ih (within.push head) fun y member =>
      inside y (List.mem_cons_of_mem _ member)
    exact ⟨after, Nat.le_trans less (slack_push within head)⟩

end PushAll

def Traced (next : α → List α) (s : Worklist α) : Prop :=
  ∀ x ∈ s.marked, x ∈ s.work ∨ ∀ y ∈ next x, y ∈ s.marked

def visit (next : α → List α) (s : Worklist α) : Worklist α :=
  match s.work with
  | [] => s
  | x :: rest => ({ s with work := rest } : Worklist α).pushAll (next x)

def drain (next : α → List α) : Nat → Worklist α → Worklist α
  | 0, s => s
  | fuel+1, s => drain next fuel (s.visit next)

section Drain
variable {next : α → List α} {all : List α} {s : Worklist α}

omit [DecidableEq α] in
theorem Within.pop {x : α} {rest : List α} (within : Within all s) (top : s.work = x :: rest) :
    x ∈ all ∧ Within all ({ s with work := rest } : Worklist α) ∧
      ({ s with work := rest } : Worklist α).slack all < s.slack all := by
  refine ⟨within.subset x (within.pending x ?_), ⟨within.nodup, within.subset, ?_⟩, ?_⟩
  · rw [top]
    exact List.mem_cons_self
  · intro y member
    refine within.pending y ?_
    rw [top]
    exact List.mem_cons_of_mem _ member
  · simp only [slack, top, List.length_cons]
    omega

theorem Within.visit (within : Within all s) (closed : ∀ x ∈ all, ∀ y ∈ next x, y ∈ all) :
    Within all (s.visit next) ∧ (s.work ≠ [] → (s.visit next).slack all < s.slack all) := by
  unfold Worklist.visit
  split
  · rename_i empty
    exact ⟨within, fun busy => absurd empty busy⟩
  · rename_i x rest top
    obtain ⟨inside, popped, less⟩ := within.pop top
    obtain ⟨after, bound⟩ := popped.pushAll (next x) (closed x inside)
    exact ⟨after, fun _ => Nat.lt_of_le_of_lt bound less⟩

theorem Traced.visit (traced : Traced next s) : Traced next (s.visit next) := by
  unfold Worklist.visit
  split
  · exact traced
  · rename_i x rest top
    intro y member
    by_cases old : y ∈ s.marked
    · rcases traced y old with waits | done
      · rw [top] at waits
        rcases List.mem_cons.mp waits with rfl | later
        · exact .inr fun z successor => (mem_pushAll _ _).mpr (.inl successor)
        · exact .inl (mem_pushAll_work _ _ later)
      · exact .inr fun z successor => (mem_pushAll _ _).mpr (.inr (done z successor))
    · exact .inl (mem_work_of_pushAll _ _ old member)

theorem mem_visit {y : α} (member : y ∈ s.marked) : y ∈ (s.visit next).marked := by
  unfold visit
  split
  · exact member
  · exact (mem_pushAll _ _).mpr (.inr member)

theorem mem_of_visit {y : α} (member : y ∈ (s.visit next).marked) :
    y ∈ s.marked ∨ ∃ x ∈ s.work, y ∈ next x := by
  unfold visit at member
  split at member
  · exact .inl member
  · rename_i x rest top
    rw [top]
    rcases (mem_pushAll _ _).mp member with new | old
    · exact .inr ⟨x, List.mem_cons_self, new⟩
    · exact .inl old

theorem visit_done (empty : s.work = []) : s.visit next = s := by rw [visit, empty]

theorem drain_closed (closed : ∀ x ∈ all, ∀ y ∈ next x, y ∈ all) (fuel : Nat) (within : Within all s)
    (traced : Traced next s) (enough : s.slack all < fuel) :
    Within all (s.drain next fuel) ∧
      ∀ x ∈ (s.drain next fuel).marked, ∀ y ∈ next x, y ∈ (s.drain next fuel).marked := by
  induction fuel generalizing s with
  | zero => omega
  | succ fuel ih =>
    obtain ⟨after, less⟩ := within.visit closed
    by_cases empty : s.work = []
    · have stays : ∀ n, s.drain next n = s := by
        intro n
        induction n with
        | zero => rfl
        | succ n ih => rw [drain, visit_done empty, ih]
      rw [stays]
      refine ⟨within, ?_⟩
      intro x member
      rcases traced x member with waits | done
      · rw [empty] at waits
        cases waits
      · exact done
    · have bound := less empty
      exact ih after traced.visit (by omega)

theorem mem_drain (fuel : Nat) {y : α} (member : y ∈ s.marked) : y ∈ (s.drain next fuel).marked := by
  induction fuel generalizing s with
  | zero => exact member
  | succ fuel ih => exact ih (mem_visit member)

theorem drain_sound {reached : α → Prop} (step : ∀ x, reached x → ∀ y ∈ next x, reached y)
    (fuel : Nat) (within : Within all s) (closed : ∀ x ∈ all, ∀ y ∈ next x, y ∈ all)
    (start : ∀ x ∈ s.marked, reached x) {y : α} (member : y ∈ (s.drain next fuel).marked) :
    reached y := by
  induction fuel generalizing s with
  | zero => exact start y member
  | succ fuel ih =>
    refine ih (within.visit closed).1 ?_ member
    intro x marked
    rcases mem_of_visit marked with old | ⟨z, waits, successor⟩
    · exact start x old
    · exact step z (start z (within.pending z waits)) x successor

end Drain
end Worklist
end NLang.Library
