import Mathlib

/-!
# Sharded stacks

A pool of free indices that is split into stacks, each a list with its top first.
-/

namespace NLang.Library.ShardStacks
variable {α : Type} {shards : List (List α)} {shard : Nat}

theorem exists_others (inside : shard < shards.length) :
    ∃ others, shards.flatten.Perm (shards.getD shard [] ++ others) ∧
      ∀ stack, (shards.set shard stack).flatten.Perm (stack ++ others) := by
  refine ⟨(shards.take shard).flatten ++ (shards.drop (shard + 1)).flatten, ?_, ?_⟩
  · have stack : shards.getD shard [] = shards[shard] := by simp [inside]
    rw [stack]
    conv_lhs => rw [← List.take_append_drop shard shards]
    rw [List.drop_eq_getElem_cons inside, List.flatten_append, List.flatten_cons]
    exact List.perm_append_comm_assoc _ _ _
  · intro stack
    rw [List.set_eq_take_append_cons_drop, if_pos inside, List.flatten_append, List.flatten_cons]
    exact List.perm_append_comm_assoc _ _ _

theorem flatten_modify (inside : shard < shards.length) (block : List α) :
    (shards.modify shard (block ++ ·)).flatten.Perm (block ++ shards.flatten) := by
  obtain ⟨others, before, after⟩ := exists_others inside
  have pushed : shards.modify shard (block ++ ·) = shards.set shard (block ++ shards.getD shard []) := by
    rw [List.modify_eq_set, List.getD_eq_getElem?_getD]
    rfl
  rw [pushed]
  refine (after _).trans ?_
  rw [List.append_assoc]
  exact (before.append_left block).symm

theorem inside_of_top {x : α} {rest : List α} (top : shards.getD shard [] = x :: rest) : shard < shards.length := by
  by_contra outside
  have none : shards[shard]? = none := List.getElem?_eq_none (Nat.not_lt.mp outside)
  rw [List.getD_eq_getElem?_getD, none] at top
  cases top

theorem flatten_pop {x : α} {rest : List α} (top : shards.getD shard [] = x :: rest) :
    shards.flatten.Perm (x :: (shards.set shard rest).flatten) := by
  obtain ⟨others, before, after⟩ := exists_others (inside_of_top top)
  rw [top] at before
  exact before.trans ((after rest).cons x).symm

end NLang.Library.ShardStacks
