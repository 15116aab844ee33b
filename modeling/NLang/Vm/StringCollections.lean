import NLang.Vm.StringInterning
import NLang.Vm.Trace

/-!
# Collecting strings

`SweepStrings` and the marking before it. Whatever the roots are, the table loses the entries of the objects
that die, and no others.
-/

namespace NLang.Vm
open NLang.Library

namespace StringHeap

def Survives (h : StringHeap) (marked : List Nat) (i : Nat) : Prop :=
  (h.obj i).form ≠ .dead ∧ ((h.obj i).immortal = true ∨ i ∈ marked)

structure Swept (before : StringHeap) (marked : List Nat) (i : Nat) (h : StringHeap) : Prop where
  size : h.size = before.size
  configured : h.shards ≠ []
  cache : h.constStrCache = before.constStrCache
  empty : h.emptyStrHandle = before.emptyStrHandle
  kept : ∀ j, (1 ≤ j → j < i → before.Survives marked j) → h.obj j = before.obj j
  cleared : ∀ j, 1 ≤ j → j < i → ¬ before.Survives marked j → h.obj j = { form := .dead }
  nodup : h.freeIndices.Nodup
  listed : ∀ j, j ∈ h.freeIndices ↔ 1 ≤ j ∧ j < i ∧ ¬ before.Survives marked j
  entries : ∀ key j, h.shortStrTable key = some j ↔
    before.shortStrTable key = some j ∧ (j < i → before.Survives marked j)

theorem strSweepPush_freeIndices {h : StringHeap} (configured : h.shards ≠ []) (i : Nat) :
    (h.strSweepPush i).freeIndices.Perm (i :: h.freeIndices) :=
  ShardStacks.flatten_modify (Nat.mod_lt _ (List.length_pos_of_ne_nil configured)) [i]

@[simp] theorem clearAll_freeIndices (h : StringHeap) : h.clearAll.freeIndices = [] := by
  simp [freeIndices, clearAll]

section Sweep
variable {before h : StringHeap} {marked : List Nat} {i : Nat} (sound : Sound before)
include sound

theorem swept_clearAll : Swept before marked 1 before.clearAll where
  size := rfl
  configured := by simp [clearAll, sound.configured]
  cache := rfl
  empty := rfl
  kept _ _ := rfl
  cleared j positive early := by omega
  nodup := by rw [clearAll_freeIndices]; exact List.nodup_nil
  listed j := by
    rw [clearAll_freeIndices]
    exact iff_of_false List.not_mem_nil fun early => by omega
  entries key j := by
    refine ⟨fun found => ⟨found, fun early => ?_⟩, fun both => both.1⟩
    have positive := (sound.entry key j found).1.1
    omega

omit sound in
theorem Swept.push (swept : Swept before marked i h) (positive : 1 ≤ i) (doomed : ¬ before.Survives marked i)
    {g : StringHeap} (size : g.size = h.size) (shards : g.shards = h.shards) (cache : g.constStrCache = h.constStrCache)
    (empty : g.emptyStrHandle = h.emptyStrHandle) (others : ∀ j, j ≠ i → g.obj j = h.obj j)
    (cleared : g.obj i = { form := .dead })
    (entries : ∀ key j, g.shortStrTable key = some j ↔ h.shortStrTable key = some j ∧ j ≠ i) :
    Swept before marked (i + 1) (g.strSweepPush i) where
  size := size.trans swept.size
  configured := by
    have configured := swept.configured
    rw [← shards] at configured
    simpa [strSweepPush] using configured
  cache := cache.trans swept.cache
  empty := empty.trans swept.empty
  kept := by
    intro j survives
    have other : j ≠ i := by
      rintro rfl
      exact doomed (survives positive (Nat.lt_succ_self j))
    exact (others j other).trans (swept.kept j fun one early => survives one (by omega))
  cleared := by
    intro j one early gone
    by_cases same : j = i
    · rw [same]
      exact cleared
    · exact (others j same).trans (swept.cleared j one (by omega) gone)
  nodup := by
    have configured := swept.configured
    rw [← shards] at configured
    have free : g.freeIndices = h.freeIndices := congrArg List.flatten shards
    refine (strSweepPush_freeIndices configured i).nodup_iff.mpr (List.nodup_cons.mpr ⟨?_, free ▸ swept.nodup⟩)
    rw [free, swept.listed]
    exact fun early => Nat.lt_irrefl i early.2.1
  listed := by
    intro j
    have configured := swept.configured
    rw [← shards] at configured
    have free : g.freeIndices = h.freeIndices := congrArg List.flatten shards
    rw [(strSweepPush_freeIndices configured i).mem_iff, List.mem_cons, free, swept.listed, Nat.lt_succ_iff_lt_or_eq]
    constructor
    · rintro (rfl | ⟨one, early, gone⟩)
      · exact ⟨positive, .inr rfl, doomed⟩
      · exact ⟨one, .inl early, gone⟩
    · rintro ⟨one, early | rfl, gone⟩
      · exact .inr ⟨one, early, gone⟩
      · exact .inl rfl
  entries := by
    intro key j
    rw [strSweepPush_shortStrTable, entries, swept.entries]
    constructor
    · rintro ⟨⟨found, early⟩, other⟩
      exact ⟨found, fun later => early (by omega)⟩
    · rintro ⟨found, early⟩
      refine ⟨⟨found, fun earlier => early (by omega)⟩, ?_⟩
      rintro rfl
      exact doomed (early (Nat.lt_succ_self j))

theorem Swept.step (swept : Swept before marked i h) (positive : 1 ≤ i) (inside : i < before.size) :
    Swept before marked (i + 1) (h.sweepString marked i) := by
  have same : h.obj i = before.obj i := swept.kept i fun _ early => absurd early (Nat.lt_irrefl i)
  unfold sweepString
  simp only [same]
  by_cases dead : (before.obj i).form = .dead
  · rw [if_pos dead]
    have free : i ∈ before.freeIndices := by
      by_contra used
      exact sound.used i ⟨positive, inside, used⟩ dead
    have blank : before.obj i = { form := .dead } := by
      rcases (sound.blank i free).2.2 with blank | blank
      · rw [blank] at dead
        cases dead
      · exact blank
    refine swept.push positive (fun survives => survives.1 dead) rfl rfl rfl rfl (fun _ _ => rfl)
      (same.trans blank) fun key j => ⟨fun found => ⟨found, ?_⟩, fun both => both.1⟩
    rintro rfl
    exact (sound.entry key j ((swept.entries key j).mp found).1).1.2.2 free
  rw [if_neg dead]
  by_cases stays : ((before.obj i).immortal || decide (i ∈ marked)) = true
  · have survives : before.Survives marked i := ⟨dead, by simpa using stays⟩
    rw [if_pos stays]
    have bound : ∀ j, j < i + 1 ∧ ¬ before.Survives marked j ↔ j < i ∧ ¬ before.Survives marked j := by
      intro j
      refine ⟨fun late => ⟨?_, late.2⟩, fun early => ⟨by omega, early.2⟩⟩
      have other : j ≠ i := fun equal => late.2 (equal ▸ survives)
      omega
    exact
      { size := swept.size
        configured := swept.configured
        cache := swept.cache
        empty := swept.empty
        kept := fun j later => swept.kept j fun one early => later one (by omega)
        cleared := fun j one early gone => swept.cleared j one ((bound j).mp ⟨early, gone⟩).1 gone
        nodup := swept.nodup
        listed := fun j => by rw [swept.listed, bound]
        entries := fun key j => by
          rw [swept.entries]
          refine and_congr_right fun _ => ⟨fun early late => ?_, fun late early => late (by omega)⟩
          by_contra gone
          exact gone (early ((bound j).mp ⟨late, gone⟩).1) }
  · rw [if_neg stays]
    have doomed : ¬ before.Survives marked i := fun survives => stays (by simpa using survives.2)
    have entries : ∀ key j, (if (before.obj i).interned = true then h.setEntry (before.obj i).str none else h).shortStrTable key =
        some j ↔ h.shortStrTable key = some j ∧ j ≠ i := by
      intro key j
      by_cases isInterned : (before.obj i).interned = true
      · obtain ⟨-, listed⟩ := sound.interned i inside isInterned
        rw [if_pos isInterned]
        change (if key = (before.obj i).str then none else h.shortStrTable key) = some j ↔ _
        by_cases own : key = (before.obj i).str
        · rw [if_pos own]
          refine ⟨fun no => (nomatch no), ?_⟩
          rintro ⟨found, other⟩
          have old := ((swept.entries key j).mp found).1
          rw [own, listed, Option.some.injEq] at old
          exact absurd old.symm other
        · rw [if_neg own]
          refine ⟨fun found => ⟨found, ?_⟩, fun both => both.1⟩
          rintro rfl
          exact own (sound.entry key j ((swept.entries key j).mp found).1).2.2.symm
      · rw [if_neg isInterned]
        refine ⟨fun found => ⟨found, ?_⟩, fun both => both.1⟩
        rintro rfl
        exact isInterned (sound.entry key j ((swept.entries key j).mp found).1).2.1
    refine swept.push positive doomed ?_ ?_ ?_ ?_ ?_ (setObj_obj_self _ i _) entries
    · split <;> rfl
    · split <;> rfl
    · split <;> rfl
    · split <;> rfl
    · intro j other
      rw [setObj_obj_of_ne _ i _ other]
      split <;> rfl

theorem swept_sweepStrings (marked : List Nat) : Swept before marked before.size (before.sweepStrings marked) := by
  have done : 1 ≤ 1 + (before.size - 1) ∧
      Swept before marked (1 + (before.size - 1)) (before.sweepStrings marked) :=
    Loops.foldl_range_invariant (fun i h => 1 ≤ i ∧ Swept before marked i h) before.size
      (fun i h inside both => ⟨by omega, both.2.step sound both.1 inside⟩)
      (by have one := sound.sentinel; omega) ⟨Nat.le_refl 1, swept_clearAll sound⟩
  have ends : 1 + (before.size - 1) = before.size := Nat.add_sub_cancel' sound.sentinel
  rw [ends] at done
  exact done.2

end Sweep

theorem strMarks_roots {strings : StringStore} (roots : List Int) {marked : List Nat} (marks : strings.StrMarks marked) :
    strings.StrMarks (roots.foldl strings.markString marked) ∧
      ∀ x, x ∈ strings.live roots ∨ x ∈ marked → x ∈ roots.foldl strings.markString marked := by
  induction roots generalizing marked with
  | nil => exact ⟨marks, fun x known => known.elim (fun none => (nomatch none)) id⟩
  | cons root roots ih =>
    obtain ⟨after, mem⟩ := ih (StringStore.markString_marks marks root)
    refine ⟨after, fun x known => mem x ?_⟩
    have split : x ∈ strings.live (root :: roots) ↔ x ∈ strings.live [root] ∨ x ∈ strings.live roots := by
      rw [StringStore.live, ← List.singleton_append, List.filter_append, List.map_append, List.mem_append]
      rfl
    rcases known with isRoot | old
    · exact (split.mp isRoot).symm.imp_right fun first => StringStore.mem_markString root (.inl first)
    · exact .inr (StringStore.mem_markString root (.inr old))

section Collect
variable {h h' : StringHeap} {stringConstants : List (List UInt8)} {marked : List Nat}
variable (formed : Formed h stringConstants) (swept : Swept h marked h.size h')

section
include swept

theorem Swept.allocated {i : Nat} : h'.Allocated i ↔ 1 ≤ i ∧ i < h.size ∧ h.Survives marked i := by
  rw [Allocated, swept.size, swept.listed]
  constructor
  · rintro ⟨one, below, used⟩
    exact ⟨one, below, by_contra fun gone => used ⟨one, below, gone⟩⟩
  · rintro ⟨one, below, survives⟩
    exact ⟨one, below, fun free => free.2.2 survives⟩

theorem Swept.obj {i : Nat} (survives : h.Survives marked i) : h'.obj i = h.obj i :=
  swept.kept i fun _ _ => survives

theorem Swept.obj_cases {i : Nat} (below : i < h.size) :
    h'.obj i = h.obj i ∧ (1 ≤ i → h.Survives marked i) ∨ h'.obj i = { form := .dead } := by
  by_cases stays : 1 ≤ i → h.Survives marked i
  · exact .inl ⟨swept.kept i fun one _ => stays one, stays⟩
  · rw [Classical.not_imp] at stays
    exact .inr (swept.cleared i stays.1 below stays.2)

theorem Swept.sound (sound : Sound h) : Sound h' where
  configured := swept.configured
  sentinel := swept.size ▸ sound.sentinel
  nodup := swept.nodup
  blank := by
    intro i free
    obtain ⟨one, below, gone⟩ := (swept.listed i).mp free
    exact ⟨one, swept.size ▸ below, .inr (swept.cleared i one below gone)⟩
  used := by
    intro i allocated
    have survives := (swept.allocated.mp allocated).2.2
    rw [swept.obj survives]
    exact survives.1
  entry := by
    intro key i found
    obtain ⟨old, survives⟩ := (swept.entries key i).mp found
    obtain ⟨allocated, same⟩ := sound.entry key i old
    have stays := survives allocated.2.1
    rw [swept.obj stays]
    exact ⟨swept.allocated.mpr ⟨allocated.1, allocated.2.1, stays⟩, same⟩
  interned := by
    intro i below isInterned
    rw [swept.size] at below
    rcases swept.obj_cases below with ⟨same, survives⟩ | cleared
    · rw [same] at isInterned ⊢
      obtain ⟨flat, listed⟩ := sound.interned i below isInterned
      exact ⟨flat, (swept.entries _ i).mpr ⟨listed, fun _ => survives (sound.entry _ i listed).1.1⟩⟩
    · rw [cleared] at isInterned
      cases isInterned
  immortal := by
    intro i below isImmortal
    rw [swept.size] at below
    rcases swept.obj_cases below with ⟨same, -⟩ | cleared
    · rw [same] at isImmortal ⊢
      exact sound.immortal i below isImmortal
    · rw [cleared] at isImmortal
      cases isImmortal

end

include formed

theorem Formed.marked_children (marks : h.store.StrMarks marked) (swept : Swept h marked h.size h') {i : Nat}
    {left right : Int} (allocated : h'.Allocated i) (node : (h.obj i).form = .cons left right) :
    ∀ c ∈ [left, right], h.Operand c ∧ (h.isLiveStringHandle c = true → c.toNat ∈ marked) := by
  obtain ⟨one, below, survives⟩ := swept.allocated.mp allocated
  have isMarked : i ∈ marked := by
    rcases survives.2 with isImmortal | isMarked
    · rw [formed.sound.immortal i below isImmortal] at node
      cases node
    · exact isMarked
  have old : h.Allocated i := by
    refine ⟨one, below, fun free => ?_⟩
    rcases (formed.sound.blank i free).2.2 with blank | blank
    · rw [blank] at node
      cases node
    · rw [blank] at node
      cases node
  obtain ⟨leftOperand, rightOperand⟩ := formed.closed i left right old node
  intro c member
  constructor
  · simp only [List.mem_cons, List.not_mem_nil, or_false] at member
    rcases member with rfl | rfl
    · exact leftOperand
    · exact rightOperand
  · intro live
    apply marks.closed i isMarked c.toNat
    have form : h.store.form i = .cons left right := node
    rw [StringStore.children, form]
    exact List.mem_map.mpr ⟨c, List.mem_filter.mpr ⟨member, live⟩, rfl⟩

theorem Formed.afterSweep (marks : h.store.StrMarks marked) (swept : Swept h marked h.size h') :
    Formed h' stringConstants ∧ ∀ handle, h.Operand handle → (h.isLiveStringHandle handle = true → handle.toNat ∈ marked) →
      h'.Operand handle ∧ ∀ content, h.Content handle content → h'.Content handle content := by
  have sound := swept.sound formed.sound
  -- operands that are null or marked, and blank slots that a root happens to mark
  let inside : Int → Prop := fun c => c = 0 ∨ h'.Allocated c.toNat
  have alive : ∀ c, inside c → h'.isLiveStringHandle c = h.isLiveStringHandle c := by
    intro c member
    rcases member with rfl | allocated
    · rw [isLiveStringHandle_zero, isLiveStringHandle_zero]
    · obtain ⟨one, below, survives⟩ := swept.allocated.mp allocated
      rw [Bool.eq_iff_iff, isLiveStringHandle_iff, isLiveStringHandle_iff, swept.size, swept.obj survives]
  have same : ∀ c, inside c → h.isLiveStringHandle c = true → h'.obj c.toNat = h.obj c.toNat := by
    intro c member live
    rcases member with rfl | allocated
    · rw [isLiveStringHandle_zero] at live
      cases live
    · exact swept.obj (swept.allocated.mp allocated).2.2
  have marked_inside : ∀ c, h.Operand c → (h.isLiveStringHandle c = true → c.toNat ∈ marked) → inside c := by
    intro c operand isMarked
    refine operand.imp_right fun allocated => swept.allocated.mpr ⟨allocated.1, allocated.2.1, ?_⟩
    exact ⟨formed.sound.used _ allocated, .inr (isMarked ((operand.live formed.sound).mpr allocated))⟩
  have children : ∀ i left right, h'.Allocated i → (h.obj i).form = .cons left right → inside left ∧ inside right := by
    intro i left right allocated node
    have child := formed.marked_children marks swept allocated node
    obtain ⟨leftOperand, leftMarked⟩ := child left (by simp)
    obtain ⟨rightOperand, rightMarked⟩ := child right (by simp)
    exact ⟨marked_inside left leftOperand leftMarked, marked_inside right rightOperand rightMarked⟩
  have closed : ∀ c left right, inside c → h.isLiveStringHandle c = true →
      (h.obj c.toNat).form = .cons left right → inside left ∧ inside right := by
    intro c left right member live node
    rcases member with rfl | allocated
    · rw [isLiveStringHandle_zero] at live
      cases live
    · exact children c.toNat left right allocated node
  have fixed : ∀ i str, h.Fixed i str → h'.Fixed i str := by
    intro i str fixed
    have survives : h.Survives marked i := ⟨formed.sound.used i fixed.allocated, .inl fixed.immortal⟩
    refine ⟨swept.allocated.mpr ⟨fixed.allocated.1, fixed.allocated.2.1, survives⟩, ?_, ?_⟩
    · rw [swept.obj survives]
      exact fixed.immortal
    · rw [swept.obj survives]
      exact fixed.str
  refine ⟨⟨sound, ?_, ?_, ?_, ?_⟩, ?_⟩
  · intro i left right allocated node
    rw [swept.obj (swept.allocated.mp allocated).2.2] at node
    exact children i left right allocated node
  · intro i allocated
    by_cases old : h.Allocated i
    · obtain ⟨content, holds⟩ := formed.readable i old
      exact ⟨content, holds.transfer inside alive same closed (.inr allocated)⟩
    · obtain ⟨one, below, survives⟩ := swept.allocated.mp allocated
      have free : i ∈ h.freeIndices := by_contra fun used => old ⟨one, below, used⟩
      have flat : (h'.obj i).form = .flat := by
        rw [swept.obj survives]
        rcases (formed.sound.blank i free).2.2 with blank | blank
        · rw [blank]
        · exact absurd (congrArg StrObj.form blank) survives.1
      exact ⟨_, .flat (allocated.live sound) flat⟩
  · rw [swept.empty]
    exact fixed _ _ formed.empty
  · rw [swept.cache]
    exact formed.constants.imp fixed
  · intro handle operand isMarked
    have member := marked_inside handle operand isMarked
    exact ⟨member, fun content holds => holds.transfer inside alive same closed member⟩

theorem Formed.collect (roots : List Int) : Formed (h.collect roots) stringConstants ∧
    ∀ handle ∈ roots, h.Operand handle →
      (h.collect roots).Operand handle ∧ ∀ content, h.Content handle content → (h.collect roots).Content handle content := by
  obtain ⟨marks, mem⟩ := strMarks_roots roots h.store.strMarks_nil
  obtain ⟨after, kept⟩ := formed.afterSweep marks (swept_sweepStrings formed.sound _)
  refine ⟨after, fun handle isRoot operand => kept handle operand fun live => mem handle.toNat (.inl ?_)⟩
  exact List.mem_map.mpr ⟨handle, List.mem_filter.mpr ⟨isRoot, live⟩, rfl⟩

end Collect

end StringHeap

end NLang.Vm
