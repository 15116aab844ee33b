import NLang.Vm.Mark

/-!
# What a mark phase marks

A mark phase returns on every heap whose array and view records are well formed, and marks exactly what the
collector's own edges reach from the values its root scans test.
-/

namespace NLang.Vm
open Relation NLang.Library

inductive Ref where
  | record (i : Nat)
  | string (handle : Nat)
  deriving DecidableEq

namespace MarkAction
variable (h : Heap) (strings : StringStore)

def stringTargets (value : Int) : List Ref := (strings.live [value]).map .string
def recordTargets (value : Int) : List Ref := if h.inRange value then [.record value.toNat] else []

def targets : MarkAction → List Ref
  | .string value => stringTargets strings value
  | .record value => recordTargets h value
  | .both value => stringTargets strings value ++ recordTargets h value

theorem targets_inside {h : Heap} {strings : StringStore} {action : MarkAction} {i : Nat}
    (target : .record i ∈ action.targets h strings) : i < h.size := by
  have ofRecord : ∀ value, .record i ∈ recordTargets h value → i < h.size := by
    intro value member
    unfold recordTargets at member
    split at member
    · rename_i inRange
      cases List.mem_singleton.mp member
      simp only [Heap.inRange, decide_eq_true_eq] at inRange
      exact inRange.2
    · cases member
  have notString : ∀ value, .record i ∉ stringTargets strings value := by
    intro value member
    obtain ⟨x, -, same⟩ := List.mem_map.mp member
    cases same
  cases action with
  | string value => exact absurd target (notString value)
  | record value => exact ofRecord value target
  | both value =>
    rcases List.mem_append.mp target with str | rec
    · exact absurd str (notString value)
    · exact ofRecord value rec

end MarkAction

section Edges
variable (tables : TypeTables) (h : Heap) (strings : StringStore)

def TraceEdge : Ref → Ref → Prop
  | .record i, target => ∃ actions, h.markRecord tables i = some actions ∧
      ∃ action ∈ actions, target ∈ action.targets h strings
  | .string handle, .string child => child ∈ strings.children handle
  | .string _, .record _ => False

def Rooted (roots : List MarkAction) (target : Ref) : Prop :=
  ∃ action ∈ roots, target ∈ action.targets h strings

def Traces (roots : List MarkAction) (target : Ref) : Prop :=
  ∃ root, Rooted h strings roots root ∧ ReflTransGen (TraceEdge tables h strings) root target

theorem Traces.step {roots : List MarkAction} {x y : Ref} (traces : Traces tables h strings roots x)
    (edge : TraceEdge tables h strings x y) : Traces tables h strings roots y := by
  obtain ⟨root, rooted, chain⟩ := traces
  exact ⟨root, rooted, chain.tail edge⟩

theorem Traces.inside {roots : List MarkAction} {i : Nat}
    (traces : Traces tables h strings roots (.record i)) : i < h.size := by
  obtain ⟨root, ⟨action, -, target⟩, chain⟩ := traces
  cases chain with
  | refl => exact MarkAction.targets_inside target
  | @tail middle _ _ edge =>
    cases middle with
    | record j =>
      obtain ⟨actions, -, action, -, target⟩ := edge
      exact MarkAction.targets_inside target
    | string handle => exact edge.elim

end Edges

namespace StringStore
variable (strings : StringStore)

theorem mem_live {values : List Int} {x : Nat} (member : x ∈ strings.live values) : x < strings.size := by
  obtain ⟨value, inside, rfl⟩ := List.mem_map.mp member
  have alive := (List.mem_filter.mp inside).2
  simp only [isLive, decide_eq_true_eq] at alive
  exact alive.2.1

theorem mem_children {x y : Nat} (member : y ∈ strings.children x) : y < strings.size := by
  unfold children at member
  split at member
  · exact strings.mem_live member
  · cases member

theorem children_closed : ∀ x ∈ List.range strings.size, ∀ y ∈ strings.children x,
    y ∈ List.range strings.size :=
  fun _ _ _ member => List.mem_range.mpr (strings.mem_children member)

structure StrMarks (marked : List Nat) : Prop where
  within : Worklist.Within (List.range strings.size) ⟨marked, []⟩
  closed : ∀ x ∈ marked, ∀ y ∈ strings.children x, y ∈ marked

theorem strMarks_nil : strings.StrMarks [] := ⟨⟨by simp, by simp, by simp⟩, by simp⟩

variable {strings} {marked : List Nat} (marks : strings.StrMarks marked)
include marks

theorem markString_pushed (handle : Int) :
    Worklist.Within (List.range strings.size) (Worklist.pushAll ⟨marked, []⟩ (strings.live [handle])) ∧
      (Worklist.pushAll ⟨marked, []⟩ (strings.live [handle])).slack (List.range strings.size) ≤
        2 * strings.size := by
  obtain ⟨within, less⟩ := marks.within.pushAll (strings.live [handle])
    fun x member => List.mem_range.mpr (strings.mem_live member)
  refine ⟨within, Nat.le_trans less ?_⟩
  simp only [Worklist.slack, List.length_range, List.length_nil]
  omega

theorem markString_marks (handle : Int) : strings.StrMarks (strings.markString marked handle) := by
  obtain ⟨within, less⟩ := markString_pushed marks handle
  have traced : Worklist.Traced strings.children (Worklist.pushAll ⟨marked, []⟩ (strings.live [handle])) := by
    intro x member
    by_cases old : x ∈ marked
    · exact .inr fun y child => (Worklist.mem_pushAll _ _).mpr (.inr (marks.closed x old y child))
    · exact .inl (Worklist.mem_work_of_pushAll _ _ old member)
  obtain ⟨done, closed⟩ := Worklist.drain_closed strings.children_closed (2 * strings.size + 2)
    within traced (by omega)
  exact ⟨⟨done.nodup, done.subset, by simp⟩, closed⟩

omit marks in
theorem mem_markString (handle : Int) {x : Nat} (member : x ∈ strings.live [handle] ∨ x ∈ marked) :
    x ∈ strings.markString marked handle :=
  Worklist.mem_drain _ ((Worklist.mem_pushAll _ _).mpr member)

theorem markString_sound {handle : Int} (reached : Nat → Prop)
    (step : ∀ x, reached x → ∀ y ∈ strings.children x, reached y) (start : ∀ x ∈ marked, reached x)
    (root : ∀ x ∈ strings.live [handle], reached x) {x : Nat}
    (member : x ∈ strings.markString marked handle) : reached x := by
  obtain ⟨within, -⟩ := markString_pushed marks handle
  refine Worklist.drain_sound step _ within strings.children_closed ?_ member
  intro y pushed
  rcases (Worklist.mem_pushAll _ _).mp pushed with new | old
  · exact root y new
  · exact start y old

end StringStore

namespace MarkState
variable (tables : TypeTables) (h : Heap) (strings : StringStore)

def Marks (s : MarkState) : Ref → Prop
  | .record i => i ∈ s.records.marked
  | .string handle => handle ∈ s.strMarks

structure Sound (reached : Ref → Prop) (s : MarkState) : Prop where
  records : Worklist.Within (List.range h.size) s.records
  strings : strings.StrMarks s.strMarks
  marked : ∀ r, s.Marks r → reached r

structure Extends (s s' : MarkState) : Prop where
  keeps : ∀ r, s.Marks r → s'.Marks r
  waits : ∀ i ∈ s.records.work, i ∈ s'.records.work
  fresh : ∀ i ∈ s'.records.marked, i ∈ s.records.marked ∨ i ∈ s'.records.work
  slack : s'.records.slack (List.range h.size) ≤ s.records.slack (List.range h.size)

theorem Extends.refl (s : MarkState) : Extends h s s :=
  ⟨fun _ marked => marked, fun _ waits => waits, fun _ marked => .inl marked, Nat.le_refl _⟩

theorem Extends.trans {s s' s'' : MarkState} (first : Extends h s s') (second : Extends h s' s'') :
    Extends h s s'' where
  keeps r marked := second.keeps r (first.keeps r marked)
  waits i waits := second.waits i (first.waits i waits)
  fresh i marked := by
    rcases second.fresh i marked with earlier | waits
    · exact (first.fresh i earlier).imp_right (second.waits i)
    · exact .inr waits
  slack := Nat.le_trans second.slack first.slack

section Act
variable {h strings} {reached : Ref → Prop} {s : MarkState} (sound : Sound h strings reached s)
include sound

theorem markString_spec (step : ∀ x, reached (.string x) → ∀ y ∈ strings.children x, reached (.string y))
    (value : Int) (root : ∀ r ∈ MarkAction.stringTargets strings value, reached r) :
    Sound h strings reached (s.markString strings value) ∧ Extends h s (s.markString strings value) ∧
      ∀ r ∈ MarkAction.stringTargets strings value, (s.markString strings value).Marks r := by
  refine ⟨⟨sound.records, StringStore.markString_marks sound.strings value, ?_⟩,
    ⟨?_, fun _ waits => waits, fun _ marked => .inl marked, Nat.le_refl _⟩, ?_⟩
  · intro r marked
    cases r with
    | record i => exact sound.marked (.record i) marked
    | string x =>
      exact StringStore.markString_sound sound.strings (fun x => reached (.string x)) step
        (fun y old => sound.marked (.string y) old)
        (fun y live => root (.string y) (List.mem_map.mpr ⟨y, live, rfl⟩)) marked
  · intro r marked
    cases r with
    | record i => exact marked
    | string x => exact StringStore.mem_markString value (.inr marked)
  · intro r target
    obtain ⟨x, live, rfl⟩ := List.mem_map.mp target
    exact StringStore.mem_markString value (.inl live)

theorem pushRecord_spec (value : Int) (root : ∀ r ∈ MarkAction.recordTargets h value, reached r) :
    Sound h strings reached (s.pushRecord h value) ∧ Extends h s (s.pushRecord h value) ∧
      ∀ r ∈ MarkAction.recordTargets h value, (s.pushRecord h value).Marks r := by
  by_cases inRange : h.inRange value = true
  · have inside : value.toNat ∈ List.range h.size := by
      simp only [Heap.inRange, decide_eq_true_eq] at inRange
      exact List.mem_range.mpr inRange.2
    have target : MarkAction.recordTargets h value = [.record value.toNat] := by
      rw [MarkAction.recordTargets, if_pos inRange]
    rw [pushRecord, if_pos inRange, target]
    rw [target] at root
    refine ⟨⟨sound.records.push inside, sound.strings, ?_⟩, ⟨?_, ?_, ?_, ?_⟩, ?_⟩
    · intro r marked
      cases r with
      | record i =>
        rcases (Worklist.mem_push _ _).mp marked with rfl | old
        · exact root _ (List.mem_singleton.mpr rfl)
        · exact sound.marked (.record i) old
      | string x => exact sound.marked (.string x) marked
    · intro r marked
      cases r with
      | record i => exact (Worklist.mem_push _ _).mpr (.inr marked)
      | string x => exact marked
    · exact fun i waits => Worklist.mem_push_work _ _ waits
    · intro i marked
      by_cases old : i ∈ s.records.marked
      · exact .inl old
      · exact .inr (Worklist.mem_work_of_push _ _ old marked)
    · exact Worklist.slack_push sound.records inside
    · intro r member
      cases List.mem_singleton.mp member
      exact (Worklist.mem_push _ _).mpr (.inl rfl)
  · rw [pushRecord, if_neg inRange]
    refine ⟨sound, .refl h s, ?_⟩
    intro r target
    rw [MarkAction.recordTargets, if_neg inRange] at target
    cases target

theorem act_spec (step : ∀ x, reached (.string x) → ∀ y ∈ strings.children x, reached (.string y))
    (action : MarkAction) (root : ∀ r ∈ action.targets h strings, reached r) :
    Sound h strings reached (s.act h strings action) ∧ Extends h s (s.act h strings action) ∧
      ∀ r ∈ action.targets h strings, (s.act h strings action).Marks r := by
  cases action with
  | string value => exact markString_spec sound step value root
  | record value => exact pushRecord_spec sound value root
  | both value =>
    obtain ⟨middle, first, strMarked⟩ := markString_spec sound step value
      fun r target => root r (List.mem_append_left _ target)
    obtain ⟨final, second, recMarked⟩ := pushRecord_spec middle value
      fun r target => root r (List.mem_append_right _ target)
    refine ⟨final, first.trans h second, ?_⟩
    intro r target
    rcases List.mem_append.mp target with str | rec
    · exact second.keeps r (strMarked r str)
    · exact recMarked r rec

theorem actAll_spec (step : ∀ x, reached (.string x) → ∀ y ∈ strings.children x, reached (.string y))
    (actions : List MarkAction) (root : ∀ r, Rooted h strings actions r → reached r) :
    Sound h strings reached (s.actAll h strings actions) ∧ Extends h s (s.actAll h strings actions) ∧
      ∀ r, Rooted h strings actions r → (s.actAll h strings actions).Marks r := by
  induction actions generalizing s with
  | nil =>
    refine ⟨sound, .refl h s, ?_⟩
    rintro r ⟨action, member, -⟩
    cases member
  | cons action actions ih =>
    obtain ⟨middle, first, headMarked⟩ := act_spec sound step action
      fun r target => root r ⟨action, List.mem_cons_self, target⟩
    obtain ⟨final, second, tailMarked⟩ := ih middle fun r rooted => by
      obtain ⟨other, member, target⟩ := rooted
      exact root r ⟨other, List.mem_cons_of_mem _ member, target⟩
    refine ⟨final, first.trans h second, ?_⟩
    rintro r ⟨other, member, target⟩
    rcases List.mem_cons.mp member with rfl | later
    · exact second.keeps r (headMarked r target)
    · exact tailMarked r ⟨other, later, target⟩

end Act

def Traced (s : MarkState) : Prop :=
  ∀ i ∈ s.records.marked, i ∈ s.records.work ∨
    ∀ r, TraceEdge tables h strings (.record i) r → s.Marks r

variable {tables h strings} {reached : Ref → Prop}

theorem trace_spec (formed : ∀ i < h.size, h.markRecord tables i ≠ none)
    (step : ∀ x y, reached x → TraceEdge tables h strings x y → reached y) (fuel : Nat) {s : MarkState}
    (sound : Sound h strings reached s) (traced : Traced tables h strings s)
    (enough : s.records.slack (List.range h.size) < fuel) :
    ∃ s', s.trace tables h strings fuel = some s' ∧ Sound h strings reached s' ∧
      (∀ r, s.Marks r → s'.Marks r) ∧
      ∀ x y, s'.Marks x → TraceEdge tables h strings x y → s'.Marks y := by
  induction fuel generalizing s with
  | zero => omega
  | succ fuel ih =>
    cases top : s.records.work with
    | nil =>
      refine ⟨s, by rw [trace, top], sound, fun _ marked => marked, ?_⟩
      intro x y marked edge
      cases x with
      | record i =>
        rcases traced i marked with waits | done
        · rw [top] at waits
          cases waits
        · exact done y edge
      | string x =>
        cases y with
        | record i => exact edge.elim
        | string y => exact sound.strings.closed x marked y edge
    | cons i rest =>
      obtain ⟨inside, popped, less⟩ := sound.records.pop top
      obtain ⟨actions, arm⟩ := Option.ne_none_iff_exists'.mp (formed i (List.mem_range.mp inside))
      let before : MarkState := { s with records := { s.records with work := rest } }
      have soundBefore : Sound h strings reached before := ⟨popped, sound.strings, sound.marked⟩
      have reachedTop : reached (.record i) := by
        refine sound.marked (.record i) (sound.records.pending i ?_)
        rw [top]
        exact List.mem_cons_self
      obtain ⟨after, grows, marksArm⟩ := actAll_spec soundBefore
        (fun x old y child => step (.string x) (.string y) old child) actions
        (fun r rooted => step (.record i) r reachedTop ⟨actions, arm, rooted⟩)
      have tracedAfter : Traced tables h strings (actAll h strings before actions) := by
        intro j marked
        rcases grows.fresh j marked with old | waits
        · rcases traced j old with waiting | done
          · rw [top] at waiting
            rcases List.mem_cons.mp waiting with rfl | later
            · refine .inr fun r edge => ?_
              obtain ⟨others, same, rooted⟩ := edge
              rw [arm] at same
              cases same
              exact marksArm r rooted
            · exact .inl (grows.waits j later)
          · exact .inr fun r edge => grows.keeps r (done r edge)
        · exact .inl waits
      have bound := grows.slack
      obtain ⟨s', run, final, keeps, closed⟩ := ih after tracedAfter
        (Nat.lt_of_le_of_lt bound (Nat.lt_of_lt_of_le less (Nat.le_of_lt_succ enough)))
      refine ⟨s', ?_, final, fun r marked => keeps r (grows.keeps r marked), closed⟩
      simp only [trace, top, arm, Option.bind_some]
      exact run

end MarkState

theorem markPhase_spec {tables : TypeTables} {h : Heap} (strings : StringStore)
    (formed : ∀ i < h.size, h.markRecord tables i ≠ none) (roots : List MarkAction) :
    ∃ s, markPhase tables h strings roots = some s ∧
      ∀ r, s.Marks r ↔ Traces tables h strings roots r := by
  have step : ∀ x y, Traces tables h strings roots x → TraceEdge tables h strings x y →
      Traces tables h strings roots y := fun _ _ traces edge => traces.step tables h strings edge
  have empty : MarkState.Sound h strings (Traces tables h strings roots) {} := by
    refine ⟨⟨by simp, by simp, by simp⟩, strings.strMarks_nil, ?_⟩
    intro r marked
    cases r with
    | record i => cases marked
    | string x => cases marked
  obtain ⟨rooted, grows, marksRoots⟩ := MarkState.actAll_spec empty
    (fun x traces y child => step (.string x) (.string y) traces child) roots
    (fun r root => ⟨r, root, .refl⟩)
  have traced : MarkState.Traced tables h strings (MarkState.actAll h strings {} roots) := by
    intro i marked
    rcases grows.fresh i marked with old | waits
    · cases old
    · exact .inl waits
  have bound : (MarkState.actAll h strings {} roots).records.slack (List.range h.size) <
      2 * h.size + 2 := by
    have shrinks := grows.slack
    simp only [Worklist.slack, List.length_range, List.length_nil] at shrinks ⊢
    omega
  obtain ⟨s, run, sound, keeps, closed⟩ :=
    MarkState.trace_spec formed step (2 * h.size + 2) rooted traced bound
  refine ⟨s, run, fun r => ⟨sound.marked r, ?_⟩⟩
  rintro ⟨root, isRoot, chain⟩
  induction chain with
  | refl => exact keeps root (marksRoots root isRoot)
  | tail _ edge ih => exact closed _ _ ih edge

end NLang.Vm
