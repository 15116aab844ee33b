import NLang.Backend.Types
import NLang.Vm.Trace

/-!
# Completeness of marking

The collector decides by pairs of a compiled kind and a slot kind. Here the cells keep the declared types
that the kinds were compiled from and the references that were stored in them, so that the pairs the arms
miss can be listed.
-/

namespace NLang.Vm
open Relation NLang.Backend

structure Declarations where
  tables : TypeTables
  structTypes : Nat → List DeclType
  classTypes : Nat → List DeclType
  elemType : Nat → DeclType
  structKinds : ∀ s, (tables.structRow s).fields.map (·.kind) = (structTypes s).map runtimeTypeKind
  classKinds : ∀ c, (tables.classFields c).map (·.kind) = (classTypes c).map runtimeTypeKind
  elemKinds : ∀ t row, tables.arrayTypes[t]? = some row → row.elemKind = runtimeTypeKind (elemType t)

inductive Role where
  | classField (type : DeclType)
  | structField (type : DeclType)
  | element (type : DeclType)
  | boxed (tag : Int)
  | receiver
  | viewTarget
  | contained

def Ref.kind (h : Heap) : Ref → Option Rtk
  | .record i => some (h.slot i).kind
  | .string _ => none

def fitsType : DeclType → Option Rtk → Bool
  | .string, none => true
  | .struct _, some .struct => true
  | .cls, some .cls => true
  | .iface, some .cls => true
  | .func, some .func => true
  | .array, some .array => true
  | .array, some .arrayView => true
  | .object, none => true
  | .object, some kind => Heap.isChildBearingHeapKind kind
  | .typeParam, none => true
  | .typeParam, some kind => Heap.isChildBearingHeapKind kind
  | _, _ => false

def Role.fits : Role → Option Rtk → Bool
  | .classField type, kind => fitsType type kind
  | .structField type, kind => fitsType type kind
  | .element type, kind => fitsType type kind
  | .boxed tag, none => tag = Heap.rtkStringCode
  | .boxed _, some _ => false
  | .receiver, some kind => Heap.isChildBearingHeapKind kind
  | .receiver, none => false
  | .viewTarget, kind => kind = some .array
  | .contained, some kind => Heap.isChildBearingHeapKind kind
  | .contained, none => false

def missedInObject : Option Rtk → Bool
  | none => true
  | some kind => kind = .struct ∨ kind = .func

def Role.missed : Role → Option Rtk → Bool
  | .classField .iface, _ => true
  | .structField .iface, _ => true
  | .element .iface, _ => true
  | .classField .object, kind => missedInObject kind
  | .structField .object, kind => missedInObject kind
  | .element .object, kind => missedInObject kind
  | .structField .typeParam, _ => true
  | .element .typeParam, _ => true
  | .receiver, kind => kind ≠ some .cls
  | _, _ => false

namespace Heap
variable (decls : Declarations) (h : Heap) (strings : StringStore)

def refCells (i : Nat) : List (Role × Int) :=
  match (h.slot i).kind with
  | .cls =>
    (decls.classTypes (sizeCast (h.cell i 0))).zipIdx.map
        (fun (type, p) => (.classField type, h.cell i (2 * p + 1))) ++
      (h.containerElements .list i ++ h.containerElements .dict i ++
        h.containerElements .channel i).map fun value => (.contained, value)
  | .struct =>
    (decls.structTypes (h.slot i).structIdx).zipIdx.map fun (type, p) =>
      (.structField type, h.cell i (2 * p))
  | .array =>
    let type := decls.elemType (h.slot i).structIdx
    (List.range (h.cell i 3).toNat).map fun p =>
      (.element type, h.cell i
        ((h.slot i).arrayPayloadBase.getD 0 + p * arrayElemCells (runtimeTypeKind type)))
  | .arrayView => [(.viewTarget, h.cell i (arrayViewTargetCell (h.cell i 2).toNat))]
  | .func => [(.receiver, h.cell i 1)]
  | .boxed => [(.boxed (h.cell i 0), h.cell i 1)]
  | _ => []

def traceRole : Role → Int → List MarkAction
  | .classField type, value => h.markClassField (runtimeTypeKind type) value
  | .structField type, value => h.markStructField (runtimeTypeKind type) value
  | .element type, value => h.markArrayElement (runtimeTypeKind type) value
  | .boxed tag, value => if tag = rtkStringCode then [.string value] else []
  | .receiver, value => h.testRef (· = .cls) value
  | .viewTarget, value => h.testRef (· = .array) value
  | .contained, value => h.testRef isChildBearingHeapKind value

theorem zipIdx_flatMap_kinds {types : List DeclType} {fields : List FieldEntry}
    (kinds : fields.map (·.kind) = types.map runtimeTypeKind) (arm : Rtk → Nat → List MarkAction) :
    fields.zipIdx.flatMap (fun (field, p) => arm field.kind p) =
      types.zipIdx.flatMap (fun (type, p) => arm (runtimeTypeKind type) p) := by
  have left : fields.zipIdx.flatMap (fun (field, p) => arm field.kind p) =
      (fields.map (·.kind)).zipIdx.flatMap (fun (kind, p) => arm kind p) := by
    rw [List.zipIdx_map, List.flatMap_map]
    rfl
  have right : types.zipIdx.flatMap (fun (type, p) => arm (runtimeTypeKind type) p) =
      (types.map runtimeTypeKind).zipIdx.flatMap (fun (kind, p) => arm kind p) := by
    rw [List.zipIdx_map, List.flatMap_map]
    rfl
  rw [left, right, kinds]

theorem markRecord_eq {i : Nat} {actions : List MarkAction}
    (arm : h.markRecord decls.tables i = some actions) :
    actions = (h.refCells decls i).flatMap fun (role, value) => h.traceRole role value := by
  unfold markRecord at arm
  unfold refCells
  split at arm
  · rename_i kind
    rw [kind, ← Option.some.inj arm]
    simp [traceRole, markFuncReceiver]
  · rename_i kind
    rw [kind, ← Option.some.inj arm]
    simp [traceRole, markBoxedPayload]
  · rename_i kind
    rw [kind, ← Option.some.inj arm]
    simp only [List.flatMap_append, List.map_append, List.flatMap_map, traceRole, markListElements,
      markDictEntries, markChannelElements, markContainerElements, markClassFields, List.append_assoc]
    rw [zipIdx_flatMap_kinds (decls.classKinds _)
      fun kind p => h.markClassField kind (h.cell i (2 * p + 1))]
  · rename_i kind
    rw [kind, ← Option.some.inj arm]
    simp only [List.flatMap_map, traceRole, markStructFields]
    rw [zipIdx_flatMap_kinds (decls.structKinds _) fun kind p => h.markStructField kind (h.cell i (2 * p))]
  · rename_i kind
    rw [kind]
    unfold markArrayElements at arm
    split at arm
    · cases arm
    · rename_i row found
      obtain ⟨base, payload, rfl⟩ := Option.map_eq_some_iff.mp arm
      rw [decls.elemKinds _ _ found, payload]
      simp only [List.flatMap_map, traceRole, Option.getD_some]
  · rename_i kind
    rw [kind]
    unfold markArrayViewTarget at arm
    simp only at arm
    split at arm
    · cases arm
    · rw [← Option.some.inj arm]
      simp [traceRole]
  · rw [← Option.some.inj arm]
    split
    · contradiction
    · contradiction
    · contradiction
    · contradiction
    · contradiction
    · contradiction
    · rfl

def Denotes (value : Int) : Ref → Prop
  | .record i => h.inRange value = true ∧ value.toNat = i
  | .string handle => strings.isLive value = true ∧ value.toNat = handle

theorem Denotes.positive {h : Heap} {strings : StringStore} {value : Int} {ref : Ref}
    (denotes : h.Denotes strings value ref) : 0 < value := by
  cases ref with
  | string handle =>
    have isLive := denotes.1
    simp only [StringStore.isLive, decide_eq_true_eq] at isLive
    exact isLive.1
  | record i =>
    have inside := denotes.1
    simp only [inRange, decide_eq_true_eq] at inside
    exact inside.1

end Heap

def fieldTraces (kind : Rtk) : Option Rtk → Bool
  | none => kind = .string
  | some runtime => kind ≠ .string ∧ Heap.declaredFieldAcceptsRuntime kind runtime

def Role.traces : Role → Option Rtk → Bool
  | .classField type, kind => runtimeTypeKind type = .typeParam ∨ fieldTraces (runtimeTypeKind type) kind
  | .structField type, kind => fieldTraces (runtimeTypeKind type) kind
  | .element type, kind => fieldTraces (runtimeTypeKind type) kind
  | .boxed tag, kind => tag = Heap.rtkStringCode ∧ kind = none
  | .receiver, kind => kind = some .cls
  | .viewTarget, kind => kind = some .array
  | .contained, kind => kind.any Heap.isChildBearingHeapKind

theorem fitsType_scalar (kind : Rtk) (runtime : Option Rtk) : fitsType (.scalar kind) runtime = false := by
  cases runtime <;> rfl

theorem fieldTraces_eq {type : DeclType} {kind : Option Rtk} (fits : fitsType type kind = true) :
    fieldTraces (runtimeTypeKind type) kind = !Role.missed (.structField type) kind := by
  cases type with
  | scalar scalar => simp [fitsType_scalar] at fits
  | _ => rcases kind with _ | kind <;> (try cases kind) <;> first | rfl | cases fits

theorem Role.traces_eq {role : Role} {kind : Option Rtk} (fits : role.fits kind = true) :
    role.traces kind = !role.missed kind := by
  cases role with
  | classField type =>
    have arm := fieldTraces_eq fits
    cases type with
    | scalar scalar => simp [Role.fits, fitsType_scalar] at fits
    | typeParam => rfl
    | _ =>
      rw [Role.traces, arm]
      simp only [runtimeTypeKind, reduceCtorEq, false_or, Bool.decide_eq_true]
      rfl
  | structField type => exact fieldTraces_eq fits
  | element type =>
    cases type with
    | _ => exact fieldTraces_eq fits
  | boxed tag =>
    cases kind with
    | none => simpa [Role.fits, Role.traces, Role.missed] using fits
    | some kind => cases fits
  | receiver => cases kind <;> simp [Role.traces, Role.missed]
  | viewTarget =>
    simp only [Role.fits, decide_eq_true_eq] at fits
    rw [fits]
    rfl
  | contained =>
    cases kind with
    | none => cases fits
    | some kind => simpa [Role.fits, Role.traces, Role.missed] using fits

namespace Heap
variable {h : Heap} {strings : StringStore} {value : Int} {ref : Ref}
variable (denotes : h.Denotes strings value ref)
include denotes

theorem mem_string_targets : (∃ action ∈ [MarkAction.string value], ref ∈ action.targets h strings) ↔
    ref.kind h = none := by
  cases ref with
  | record i => simp [MarkAction.targets, MarkAction.stringTargets, Ref.kind]
  | string handle =>
    obtain ⟨isLive, rfl⟩ := denotes
    simp [MarkAction.targets, MarkAction.stringTargets, Ref.kind, StringStore.live, isLive]

theorem mem_both_targets :
    ∃ action ∈ [MarkAction.both value], ref ∈ action.targets h strings := by
  refine ⟨_, List.mem_singleton.mpr rfl, ?_⟩
  cases ref with
  | record i =>
    obtain ⟨inRange, rfl⟩ := denotes
    simp [MarkAction.targets, MarkAction.recordTargets, inRange]
  | string handle =>
    obtain ⟨isLive, rfl⟩ := denotes
    simp [MarkAction.targets, MarkAction.stringTargets, StringStore.live, isLive]

theorem mem_testRef_targets (accepts : Rtk → Bool) :
    (∃ action ∈ h.testRef accepts value, ref ∈ action.targets h strings) ↔
      (ref.kind h).any accepts = true := by
  cases ref with
  | record i =>
    obtain ⟨inRange, rfl⟩ := denotes
    by_cases accepted : accepts (h.refKind value) = true
    · have kind : accepts (h.slot value.toNat).kind = true := accepted
      simp [testRef, inRange, accepted, MarkAction.targets, MarkAction.recordTargets, Ref.kind, kind]
    · have kind : ¬ accepts (h.slot value.toNat).kind = true := accepted
      simp [testRef, accepted, Ref.kind, kind]
  | string handle =>
    simp only [Ref.kind, Option.any_none, Bool.false_eq_true, iff_false]
    rintro ⟨action, member, target⟩
    unfold testRef at member
    split at member
    · cases List.mem_singleton.mp member
      simp only [MarkAction.targets, MarkAction.recordTargets] at target
      split at target
      · cases List.mem_singleton.mp target
      · cases target
    · cases member

theorem mem_field_targets (kind : Rtk) :
    (∃ action ∈ h.markStructField kind value, ref ∈ action.targets h strings) ↔
      fieldTraces kind (ref.kind h) = true := by
  by_cases isString : kind = .string
  · subst isString
    rw [markStructField, mem_string_targets denotes]
    cases ref.kind h <;> simp [fieldTraces]
  · have arm : h.markStructField kind value = h.testRef (declaredFieldAcceptsRuntime kind) value := by
      unfold markStructField
      split
      · contradiction
      · rfl
    rw [arm, mem_testRef_targets denotes]
    cases ref.kind h <;> simp [fieldTraces, isString]

omit denotes in
theorem markClassField_eq {kind : Rtk} (notParam : kind ≠ .typeParam) :
    h.markClassField kind value = h.markStructField kind value := by
  cases kind <;> first | rfl | contradiction

theorem mem_traceRole (role : Role) :
    (∃ action ∈ h.traceRole role value, ref ∈ action.targets h strings) ↔
      role.traces (ref.kind h) = true := by
  cases role with
  | classField type =>
    by_cases isParam : runtimeTypeKind type = .typeParam
    · simp only [traceRole, isParam, markClassField, Role.traces, true_or, decide_true, iff_true]
      exact mem_both_targets denotes
    · rw [traceRole, markClassField_eq isParam, mem_field_targets denotes]
      simp [Role.traces, isParam]
  | structField type => exact mem_field_targets denotes _
  | element type => exact mem_field_targets denotes _
  | boxed tag =>
    by_cases isString : tag = rtkStringCode
    · simp only [traceRole, Role.traces, isString, true_and, decide_eq_true_eq]
      exact mem_string_targets denotes
    · simp [traceRole, isString, Role.traces]
  | receiver =>
    rw [traceRole, mem_testRef_targets denotes]
    cases ref.kind h <;> simp [Role.traces]
  | viewTarget =>
    rw [traceRole, mem_testRef_targets denotes]
    cases ref.kind h <;> simp [Role.traces]
  | contained => exact mem_testRef_targets denotes _

end Heap
structure Contents (decls : Declarations) (h : Heap) (strings : StringStore) where
  held : Nat → Nat → Option Ref
  fits : ∀ i p ref, held i p = some ref → ∃ role value,
    (h.refCells decls i)[p]? = some (role, value) ∧ h.Denotes strings value ref ∧
      role.fits (ref.kind h) = true

namespace Contents
variable {decls : Declarations} {h : Heap} {strings : StringStore} (contents : Contents decls h strings)

def Edge : Ref → Ref → Prop
  | .record i, target => ∃ p, contents.held i p = some target
  | .string handle, .string child => child ∈ strings.children handle
  | .string _, .record _ => False

def Misses (i : Nat) (target : Ref) : Prop :=
  ∃ p role value, contents.held i p = some target ∧ (h.refCells decls i)[p]? = some (role, value) ∧
    role.missed (target.kind h) = true

def Complete (s : MarkState) : Prop :=
  ∀ x y, s.Marks x → ReflTransGen contents.Edge x y → s.Marks y

theorem traceEdge_of_not_misses {i : Nat} {target : Ref} {actions : List MarkAction}
    (arm : h.markRecord decls.tables i = some actions) (edge : contents.Edge (.record i) target)
    (kept : ¬ contents.Misses i target) : TraceEdge decls.tables h strings (.record i) target := by
  obtain ⟨p, held⟩ := edge
  obtain ⟨role, value, found, denotes, fits⟩ := contents.fits i p target held
  have seen : role.missed (target.kind h) = false := by
    by_contra missed
    exact kept ⟨p, role, value, held, found, by simpa using missed⟩
  have traced : role.traces (target.kind h) = true := by rw [Role.traces_eq fits, seen]; rfl
  obtain ⟨action, member, marks⟩ := (Heap.mem_traceRole denotes role).mpr traced
  refine ⟨actions, arm, action, ?_, marks⟩
  rw [Heap.markRecord_eq decls h arm]
  exact List.mem_flatMap.mpr ⟨(role, value), List.mem_of_getElem? found, member⟩

end Contents

def RecordsFormed (tables : TypeTables) (h : Heap) : Prop :=
  ∀ i < h.size, h.markRecord tables i ≠ none

/-- Marking is complete exactly when whatever sits in a missed cell of a traced record is traced on another
way. -/
theorem marking_complete_iff (decls : Declarations) (h : Heap) (strings : StringStore)
    (contents : Contents decls h strings) (roots : List MarkAction)
    (formed : RecordsFormed decls.tables h) :
    ∃ s, markPhase decls.tables h strings roots = some s ∧
      (contents.Complete s ↔ ∀ i target, Traces decls.tables h strings roots (.record i) →
        contents.Misses i target → Traces decls.tables h strings roots target) := by
  obtain ⟨s, run, marks⟩ := markPhase_spec strings formed roots
  refine ⟨s, run, ?_⟩
  constructor
  · intro complete i target traced misses
    obtain ⟨p, role, value, held, -⟩ := misses
    rw [← marks] at traced ⊢
    exact complete _ _ traced (.single ⟨p, held⟩)
  · intro anchored x y marked chain
    induction chain with
    | refl => exact marked
    | @tail middle last _ edge ih =>
      rw [marks] at ih ⊢
      cases middle with
      | string handle =>
        cases last with
        | string child => exact ih.step decls.tables h strings edge
        | record i => exact edge.elim
      | record i =>
        by_cases misses : contents.Misses i last
        · exact anchored i last ih misses
        · obtain ⟨actions, arm⟩ :=
            Option.ne_none_iff_exists'.mp (formed i (ih.inside decls.tables h strings))
          exact ih.step decls.tables h strings (contents.traceEdge_of_not_misses arm edge misses)

/-- Class 0 has one field of an interface type; class 1 has none. -/
def shapeDecls : Declarations where
  tables :=
    { structs := []
      classes := [{ name := "Canvas", fields := [{ kind := .int32 }] }, { name := "Circle" }]
      arrayTypes := []
      depth := fun _ => 0
      depth_lt := TypeTables.depth_lt_nil }
  structTypes := fun _ => []
  classTypes := fun c => if c = 0 then [.iface] else []
  elemType := fun _ => .iface
  structKinds := by
    intro s
    rfl
  classKinds := by
    intro c
    match c with
    | 0 => rfl
    | 1 => rfl
    | c + 2 => rfl
  elemKinds := by
    intro t row found
    cases found

def shapeHeap : Heap where
  size := 3
  slot := fun i =>
    if i = 1 then { kind := .cls, cells := [0, 2, 0] }
    else if i = 2 then { kind := .cls, cells := [1] }
    else {}
  shards := [[]]
  table := fun _ => {}

def noStrings : StringStore := ⟨1, fun _ => .dead⟩

def shapeContents : Contents shapeDecls shapeHeap noStrings where
  held := fun i p => if i = 1 ∧ p = 0 then some (.record 2) else none
  fits := by
    intro i p ref held
    split at held
    · rename_i position
      obtain ⟨rfl, rfl⟩ := position
      cases held
      exact ⟨.classField .iface, 2, rfl, ⟨rfl, rfl⟩, rfl⟩
    · cases held

theorem interface_field_unmarked :
    ∃ s, markPhase shapeDecls.tables shapeHeap noStrings [.record 1] = some s ∧
      s.Marks (.record 1) ∧ shapeContents.Edge (.record 1) (.record 2) ∧ ¬ s.Marks (.record 2) ∧
      ¬ shapeContents.Complete s := by
  refine ⟨⟨⟨[1], []⟩, []⟩, rfl, ?_, ⟨0, rfl⟩, ?_, ?_⟩
  · exact List.mem_singleton.mpr rfl
  · intro marked
    cases List.mem_singleton.mp marked
  · intro complete
    have marked := complete (.record 1) (.record 2) (List.mem_singleton.mpr rfl) (.single ⟨0, rfl⟩)
    cases List.mem_singleton.mp marked

theorem shapeHeap_formed : RecordsFormed shapeDecls.tables shapeHeap := by
  intro i inside
  match i, inside with
  | 0, _ => exact fun none => by cases none
  | 1, _ => exact fun none => by cases none
  | 2, _ => exact fun none => by cases none

theorem marking_complete_iff_rooted :
    ∃ s, markPhase shapeDecls.tables shapeHeap noStrings [.record 1, .record 2] = some s ∧
      shapeContents.Complete s := by
  obtain ⟨s, run, exact_⟩ := marking_complete_iff shapeDecls shapeHeap noStrings shapeContents
    [.record 1, .record 2] shapeHeap_formed
  refine ⟨s, run, exact_.mpr ?_⟩
  rintro i target - ⟨p, role, value, held, -⟩
  have second : target = .record 2 := by
    simp only [shapeContents] at held
    split at held
    · exact (Option.some.inj held).symm
    · cases held
  subst second
  refine ⟨.record 2, ⟨.record 2, by simp, ?_⟩, .refl⟩
  exact List.mem_singleton.mpr rfl

end NLang.Vm
