import NLang.Vm.StringRuns

/-!
# Concatenation strings

A node stands for the tree below it, in which a subtree may be shared. `StrVal` and `StrValCopy` return the leaves
from left to right, and the children of a node stay until it is flattened.
-/

namespace NLang.Vm
open NLang.Library.Runs

inductive ConcatTree where
  | leaf (content : List UInt8)
  | concat (left right : ConcatTree)

namespace ConcatTree

def size : ConcatTree → Nat
  | leaf _ => 1
  | concat left right => left.size + right.size + 1

def leaves : ConcatTree → List (List UInt8)
  | leaf content => [content]
  | concat left right => left.leaves ++ right.leaves

end ConcatTree

namespace StringHeap

def strValCopy (h : StringHeap) (fuel : Nat) (handle : Int) : Option (List UInt8) :=
  if h.isLiveStringHandle handle then
    match (h.obj handle.toNat).form with
    | .cons _ _ => h.flattenInto fuel [] [handle]
    | _ => some (h.obj handle.toNat).str
  else some []

/-- The tree below a handle; a side that is null or dead is an empty leaf. -/
inductive Tree (h : StringHeap) : Int → ConcatTree → Prop where
  | dead {handle : Int} : h.isLiveStringHandle handle = false → Tree h handle (.leaf [])
  | flat {handle : Int} : h.isLiveStringHandle handle = true → (h.obj handle.toNat).form = .flat →
      Tree h handle (.leaf (h.obj handle.toNat).str)
  | cons {handle left right : Int} {t u : ConcatTree} : h.isLiveStringHandle handle = true →
      (h.obj handle.toNat).form = .cons left right → Tree h left t → Tree h right u →
      Tree h handle (.concat t u)

section Tree
variable {h : StringHeap} {handle : Int} {t : ConcatTree}

theorem Content.tree {content : List UInt8} (holds : h.Content handle content) : ∃ t, h.Tree handle t := by
  induction holds with
  | dead dead => exact ⟨_, .dead dead⟩
  | flat live flat => exact ⟨_, .flat live flat⟩
  | cons live node _ _ ihLeft ihRight =>
    obtain ⟨t, first⟩ := ihLeft
    obtain ⟨u, second⟩ := ihRight
    exact ⟨_, .cons live node first second⟩

theorem Tree.content (tree : h.Tree handle t) : h.Content handle t.leaves.flatten := by
  induction tree with
  | dead dead => exact .dead dead
  | flat live flat =>
    rw [ConcatTree.leaves, List.flatten_singleton]
    exact .flat live flat
  | cons live node _ _ ihLeft ihRight =>
    rw [ConcatTree.leaves, List.flatten_append]
    exact .cons live node ihLeft ihRight

theorem Tree.flattenInto (tree : h.Tree handle t) (fuel : Nat) (out : List UInt8) (work : List Int) :
    h.flattenInto (t.size + fuel) out (handle :: work) = h.flattenInto fuel (out ++ t.leaves.flatten) work := by
  induction tree generalizing fuel out work with
  | dead dead =>
    rw [ConcatTree.size, Nat.add_comm, StringHeap.flattenInto, dead]
    simp [ConcatTree.leaves]
  | flat live flat =>
    rw [ConcatTree.size, Nat.add_comm, StringHeap.flattenInto, if_pos live, flat]
    simp [ConcatTree.leaves]
  | @cons _ left right t u live node _ _ ihLeft ihRight =>
    have shape : (ConcatTree.concat t u).size + fuel = (t.size + (u.size + fuel)) + 1 := by
      rw [ConcatTree.size]
      omega
    rw [shape, StringHeap.flattenInto, if_pos live, node]
    dsimp only
    rw [ihLeft, ihRight, ConcatTree.leaves, List.flatten_append, List.append_assoc]

theorem Tree.walk (tree : h.Tree handle t) {fuel : Nat} (enough : t.size < fuel) :
    h.flattenInto fuel [] [handle] = some t.leaves.flatten := by
  obtain ⟨more, rfl⟩ := Nat.exists_eq_add_of_lt enough
  have shape : t.size + more + 1 = t.size + (more + 1) := by omega
  rw [shape, tree.flattenInto, StringHeap.flattenInto, List.nil_append]

theorem Tree.strValCopy (tree : h.Tree handle t) {fuel : Nat} (enough : t.size < fuel) :
    h.strValCopy fuel handle = some t.leaves.flatten := by
  have walked := tree.walk enough
  unfold StringHeap.strValCopy
  cases tree with
  | dead dead => rw [if_neg (by rw [dead]; exact Bool.false_ne_true), ConcatTree.leaves, List.flatten_singleton]
  | flat live flat => rw [if_pos live, flat, ConcatTree.leaves, List.flatten_singleton]
  | cons live node _ _ =>
    rw [if_pos live, node]
    exact walked

end Tree

def Reads (h : StringHeap) (handle : Int) (content : List UInt8) : Prop :=
  ∃ n, ∀ fuel, n ≤ fuel → h.strValCopy fuel handle = some content ∧ ∃ h', h.strVal fuel handle = some (content, h')

section Readers
variable {h : StringHeap} {stringConstants : List (List UInt8)} (formed : Formed h stringConstants)
include formed

theorem Formed.strValCopy_eq (fuel : Nat) (handle : Int) :
    h.strValCopy fuel handle = (h.strVal fuel handle).map Prod.fst := by
  unfold StringHeap.strValCopy StringHeap.strVal
  by_cases live : h.isLiveStringHandle handle = true
  · rw [if_pos live, if_pos live]
    cases form : (h.obj handle.toNat).form with
    | flat => rfl
    | dead => rfl
    | cons left right =>
      dsimp only
      rw [Option.map_map]
      exact Option.map_id'.symm
  · rw [if_neg live, if_neg live, Option.map_some, formed.empty.str]

theorem Formed.readers_agree {fuel : Nat} {handle : Int} {content : List UInt8}
    (copied : h.strValCopy fuel handle = some content) : ∃ h', h.strVal fuel handle = some (content, h') := by
  rw [formed.strValCopy_eq] at copied
  obtain ⟨⟨_, h'⟩, read, rfl⟩ := Option.map_eq_some_iff.mp copied
  exact ⟨h', read⟩

theorem Formed.reads_iff {handle : Int} {content : List UInt8} :
    h.Reads handle content ↔ h.Content handle content := by
  constructor
  · rintro ⟨n, both⟩
    obtain ⟨-, h', read⟩ := both n (Nat.le_refl n)
    exact (formed.strVal read).2.2.1
  · intro holds
    obtain ⟨t, tree⟩ := holds.tree
    rw [holds.unique tree.content]
    refine ⟨t.size + 1, fun fuel enough => ?_⟩
    have copied := tree.strValCopy (Nat.lt_of_succ_le enough)
    exact ⟨copied, formed.readers_agree copied⟩

end Readers

def Node (h : StringHeap) (i : Nat) (left right : Int) : Prop :=
  h.Allocated i ∧ (h.obj i).form = .cons left right

theorem Formed.child_operands {h : StringHeap} {stringConstants : List (List UInt8)} {i : Nat} {left right : Int}
    (formed : Formed h stringConstants) (node : h.Node i left right) : ∀ c ∈ [left, right], h.Operand c := by
  obtain ⟨leftOperand, rightOperand⟩ := formed.closed i left right node.1 node.2
  simp [leftOperand, rightOperand]

structure Preserved (h h' : StringHeap) (handle : Int) : Prop where
  operand : h'.Operand handle
  record : h.Allocated handle.toNat → h'.obj handle.toNat = h.obj handle.toNat ∨ (h'.obj handle.toNat).form = .flat
  content : ∀ content, h.Content handle content → h'.Content handle content

section Preserved
variable {h h' h'' : StringHeap} {handle : Int}

theorem Operand.preserved (operand : h.Operand handle) : Preserved h h handle :=
  ⟨operand, fun _ => .inl rfl, fun _ holds => holds⟩

theorem Preserved.trans (first : Preserved h h' handle) (second : Preserved h' h'' handle) :
    Preserved h h'' handle where
  operand := second.operand
  record := by
    intro old
    have allocated : h'.Allocated handle.toNat := by
      rcases first.operand with rfl | allocated
      · exact absurd old.1 (by simp)
      · exact allocated
    rcases second.record allocated with same | flat
    · rw [same]
      exact first.record old
    · exact .inr flat
  content content holds := second.content content (first.content content holds)

theorem strVal_record {fuel : Nat} {content : List UInt8} {c : Int} (read : h.strVal fuel c = some (content, h'))
    (j : Nat) : h'.obj j = h.obj j ∨ (h'.obj j).form = .flat := by
  unfold StringHeap.strVal at read
  split at read
  · split at read
    · obtain ⟨flat, -, same⟩ := Option.map_eq_some_iff.mp read
      cases same
      by_cases rewritten : j = c.toNat
      · rw [rewritten, setObj_obj_self]
        exact .inr rfl
      · exact .inl (setObj_obj_of_ne _ _ _ rewritten)
    · cases read
      exact .inl rfl
  · cases read
    exact .inl rfl

variable {stringConstants : List (List UInt8)} (formed : Formed h stringConstants)
include formed

theorem Formed.created_preserved {i : Nat} (created : Created h h' i) (operand : h.Operand handle) :
    Preserved h h' handle where
  operand := operand.keeps created.keeps
  record allocated := .inl (created.keeps _ allocated).2
  content _ holds := formed.content_keeps created.sound created.keeps operand holds

theorem Formed.strVal_preserved {fuel : Nat} {content : List UInt8} {c : Int}
    (read : h.strVal fuel c = some (content, h')) (operand : h.Operand handle) : Preserved h h' handle where
  operand := (formed.strVal read).2.1.operand.mpr operand
  record _ := strVal_record read _
  content x holds := ((formed.strVal read).2.1.content handle x).mpr holds

theorem Formed.stringsEqual_preserved {fuel : Nat} {result : Bool} {hA hB : Int}
    (compared : h.stringsEqual fuel hA hB = some (result, h')) (operand : h.Operand handle) :
    Preserved h h' handle := by
  unfold StringHeap.stringsEqual at compared
  by_cases short : (h.isInternedString hA && h.isInternedString hB) = true
  · rw [if_pos short] at compared
    cases compared
    exact operand.preserved
  · rw [if_neg short] at compared
    obtain ⟨⟨x, g⟩, readFirst, rest⟩ := Option.bind_eq_some_iff.mp compared
    obtain ⟨⟨y, g'⟩, readSecond, same⟩ := Option.bind_eq_some_iff.mp rest
    cases same
    have first := formed.strVal_preserved readFirst operand
    exact first.trans ((formed.strVal readFirst).1.strVal_preserved readSecond first.operand)

theorem Formed.opConcat_preserved {shard quantum fuel i : Nat} {hA hB : Int}
    (made : h.opConcat shard quantum fuel hA hB = some (i, h')) (operand : h.Operand handle) :
    Preserved h h' handle := by
  unfold StringHeap.opConcat at made
  by_cases doubled : hA = hB
  · rw [if_pos doubled] at made
    obtain ⟨⟨x, g⟩, readFirst, rest⟩ := Option.bind_eq_some_iff.mp made
    obtain ⟨⟨y, g'⟩, readSecond, minted⟩ := Option.bind_eq_some_iff.mp rest
    have formedFirst := (formed.strVal readFirst).1
    have formedSecond := (formedFirst.strVal readSecond).1
    have first := formed.strVal_preserved readFirst operand
    have second := formedFirst.strVal_preserved readSecond first.operand
    have last := formedSecond.created_preserved (formedSecond.mint minted).2.1 second.operand
    exact (first.trans second).trans last
  · rw [if_neg doubled] at made
    exact formed.created_preserved (allocConsString_created formed.sound made).1 operand

theorem Formed.collect_preserved (roots : List Int) {i : Nat} {left right : Int}
    (kept : (h.collect roots).Allocated i) (node : (h.obj i).form = .cons left right) :
    ∀ c ∈ [left, right], Preserved h (h.collect roots) c := by
  obtain ⟨marks, -⟩ := strMarks_roots roots h.store.strMarks_nil
  have swept := swept_sweepStrings formed.sound (roots.foldl h.store.markString [])
  intro c member
  obtain ⟨operand, isMarked⟩ := formed.marked_children marks swept kept node c member
  obtain ⟨inside, contents⟩ := (formed.afterSweep marks swept).2 c operand isMarked
  refine ⟨inside, fun old => .inl ?_, contents⟩
  rcases inside with rfl | allocated
  · exact absurd old.1 (by simp)
  · exact swept.obj (swept.allocated.mp allocated).2.2

end Preserved

end StringHeap

namespace StringProgram
variable {stringConstants : List (List UInt8)} {s s' : StringProgram} {i : Nat} {left right : Int}

theorem Holds.operand_preserved {action : StringAction} (holds : Holds stringConstants s)
    (taken : s.step stringConstants action = some s') (kept : ∀ others, action ≠ .collect others) {c : Int}
    (operand : s.heap.Operand c) : StringHeap.Preserved s.heap s'.heap c := by
  have formed := holds.formed
  cases action with
  | mint shard quantum content =>
    obtain ⟨⟨j, h⟩, minted, rfl⟩ := Option.map_eq_some_iff.mp taken
    exact formed.created_preserved (formed.mint minted).2.1 operand
  | constant k =>
    simp only [StringProgram.step] at taken
    split at taken
    · cases taken
      exact operand.preserved
    · cases taken
  | concat shard quantum fuel x y =>
    simp only [StringProgram.step] at taken
    split at taken
    · obtain ⟨⟨j, h⟩, made, rfl⟩ := Option.map_eq_some_iff.mp taken
      exact formed.opConcat_preserved made operand
    · cases taken
  | flatten fuel handle =>
    obtain ⟨⟨content, h⟩, read, rfl⟩ := Option.map_eq_some_iff.mp taken
    exact formed.strVal_preserved read operand
  | compare fuel hA hB =>
    obtain ⟨⟨result, h⟩, compared, rfl⟩ := Option.map_eq_some_iff.mp taken
    exact formed.stringsEqual_preserved compared operand
  | drop entry =>
    cases taken
    exact operand.preserved
  | collect others => exact absurd rfl (kept others)

theorem Holds.step_preserved {action : StringAction} (holds : Holds stringConstants s)
    (taken : s.step stringConstants action = some s') (before : s.heap.Node i left right)
    (after : s'.heap.Node i left right) : ∀ c ∈ [left, right], StringHeap.Preserved s.heap s'.heap c := by
  by_cases kept : ∀ others, action ≠ .collect others
  · exact fun c member => holds.operand_preserved taken kept (holds.formed.child_operands before c member)
  · rw [not_forall] at kept
    obtain ⟨others, isCollect⟩ := kept
    rw [not_not] at isCollect
    subst isCollect
    cases taken
    exact holds.formed.collect_preserved _ after.1 before.2

theorem Holds.children_preserved (holds : Holds stringConstants s)
    (run : Run (StringProgram.step stringConstants) (fun t _ => t.heap.Node i left right) s s')
    (after : s'.heap.Node i left right) : ∀ c ∈ [left, right], StringHeap.Preserved s.heap s'.heap c := by
  -- the nodes that a step meets are still there, so its own state is one the run has reached
  have reached : Holds stringConstants s' ∧ (s'.heap.Node i left right →
      ∀ c ∈ [left, right], StringHeap.Preserved s.heap s'.heap c) := by
    clear after
    induction run with
    | refl =>
      exact ⟨holds, fun node c member => (holds.formed.child_operands node c member).preserved⟩
    | tail _ met taken ih =>
      refine ⟨ih.1.step taken, fun node c member => ?_⟩
      exact (ih.2 met c member).trans (ih.1.step_preserved taken met node c member)
  exact reached.2 after

/-- At every moment of a run there is a tree below every value, and both readers return its leaves from left to
right; a string that is held reads as what it was created as. Flattening changes what no value reads as. While a node is
not flattened its children are null or allocated, with the contents they had. -/
theorem concats_flatten {carriers shard quantum : Nat} {start : StringHeap}
    (started : StringHeap.initStringStore carriers shard quantum stringConstants = some start)
    (run : Run (step stringConstants) (fun _ _ => True) ⟨start, []⟩ s) :
    (∀ handle : Int, ∃ t, s.heap.Tree handle t) ∧
    (∀ (handle : Int) (t : ConcatTree), s.heap.Tree handle t → ∀ fuel, t.size < fuel →
      s.heap.strValCopy fuel handle = some t.leaves.flatten ∧
        ∃ h, s.heap.strVal fuel handle = some (t.leaves.flatten, h)) ∧
    (∀ entry ∈ s.held, s.heap.Reads entry.1 entry.2) ∧
    (∀ (fuel : Nat) (handle : Int) (content : List UInt8) (h : StringHeap),
      s.heap.strVal fuel handle = some (content, h) →
        ∀ (other : Int) (x : List UInt8), h.Reads other x ↔ s.heap.Reads other x) ∧
    (∀ (i : Nat) (left right : Int) (s' : StringProgram),
      Run (step stringConstants) (fun t _ => t.heap.Node i left right) s s' → s'.heap.Node i left right →
        ∀ c ∈ [left, right], StringHeap.Preserved s.heap s'.heap c) := by
  have first : Holds stringConstants ⟨start, []⟩ :=
    ⟨StringHeap.initStringStore_formed started, fun _ none => (nomatch none), fun _ none => (nomatch none)⟩
  have holds : Holds stringConstants s :=
    run.invariant (Holds stringConstants) first fun _ _ _ before _ taken => before.step taken
  refine ⟨?_, ?_, ?_, ?_, fun _ _ _ _ later after => holds.children_preserved later after⟩
  · intro handle
    obtain ⟨content, reads⟩ := holds.readable handle
    exact reads.tree
  · intro handle t tree fuel enough
    have copied := tree.strValCopy enough
    exact ⟨copied, holds.formed.readers_agree copied⟩
  · exact fun entry held => holds.formed.reads_iff.mpr (holds.content entry held)
  · intro fuel handle content h read other x
    obtain ⟨formed, flattened, -⟩ := holds.formed.strVal read
    rw [formed.reads_iff, holds.formed.reads_iff]
    exact flattened.content other x

def sharedConcat : Option StringProgram := do
  let start ← StringHeap.initStringStore 1 0 1 [[97], [98]]
  [StringAction.constant 0, .constant 1, .concat 0 1 9 (1, [97]) (2, [98]), .concat 0 1 9 (2, [98]) (4, [97, 98]),
    .concat 0 1 9 (4, [97, 98]) (5, [98, 97, 98]), .drop (4, [97, 98]), .drop (5, [98, 97, 98])].foldlM
      (step [[97], [98]]) ⟨start, []⟩

theorem concats_flatten_shared :
    ∃ s s' : StringProgram, sharedConcat = some s ∧ s.heap.strValCopy 10 6 = some [97, 98, 98, 97, 98] ∧
      Run (step [[97], [98]]) (fun t _ => t.heap.Node 6 4 5) s s' ∧ (s'.heap.obj 5).form = .flat ∧
      ∀ c ∈ [4, 5], StringHeap.Preserved s.heap s'.heap c := by
  have started : StringHeap.initStringStore 1 0 1 [[97], [98]] = some _ := rfl
  have run : Run (step [[97], [98]]) (fun _ _ => True) _ (sharedConcat.get rfl) :=
    Run.refl.actions (fun _ _ _ => trivial) (show [StringAction.constant 0, .constant 1,
      .concat 0 1 9 (1, [97]) (2, [98]), .concat 0 1 9 (2, [98]) (4, [97, 98]),
      .concat 0 1 9 (4, [97, 98]) (5, [98, 97, 98]), .drop (4, [97, 98]), .drop (5, [98, 97, 98])].foldlM
        (step [[97], [98]]) ⟨(StringHeap.initStringStore 1 0 1 [[97], [98]]).get rfl, []⟩ = some _ from rfl)
  obtain ⟨-, readers, -, -, children⟩ := concats_flatten started run
  have inner : (sharedConcat.get rfl).heap.Tree 4 (.concat (.leaf [97]) (.leaf [98])) :=
    .cons rfl rfl (.flat rfl rfl) (.flat rfl rfl)
  have tree : (sharedConcat.get rfl).heap.Tree 6 (.concat (.concat (.leaf [97]) (.leaf [98]))
      (.concat (.leaf [98]) (.concat (.leaf [97]) (.leaf [98])))) :=
    .cons rfl rfl inner (.cons rfl rfl (.flat rfl rfl) inner)
  have collected : step [[97], [98]] (sharedConcat.get rfl) (.collect []) = some _ := (Option.some_get rfl).symm
  have flattened : step [[97], [98]] ((step [[97], [98]] (sharedConcat.get rfl) (.collect [])).get rfl)
      (.flatten 9 5) = some _ := rfl
  have later : Run (step [[97], [98]]) (fun t _ => t.heap.Node 6 4 5) (sharedConcat.get rfl) _ :=
    .tail (.tail .refl ⟨⟨by decide, by decide, by decide⟩, rfl⟩ collected)
      ⟨⟨by decide, by decide, by decide⟩, rfl⟩ flattened
  exact ⟨_, _, rfl, (readers 6 _ tree 10 (by decide)).1, later, rfl,
    children 6 4 5 _ later ⟨⟨by decide, by decide, by decide⟩, rfl⟩⟩

end StringProgram

end NLang.Vm
