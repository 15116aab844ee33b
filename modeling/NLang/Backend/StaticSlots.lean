import NLang.Backend.RootMap
import NLang.Backend.TypeDesc

/-!
# Static storage

The static slot table of a module (`AllocateStaticFieldSlot`, `BuildStaticFieldTypeDescs`,
`RegisterInterfaceConstants`, `RegisterStaticLocalDeclarators`) and the scan of its cells
(`MarkStaticSlotRoots`).
-/

namespace NLang.Backend
open NLang.Vm

inductive OwnerKind where
  | cls | iface | staticLocal

structure CompiledStaticSlot where
  name : String
  ownerKey : String
  ownerKind : OwnerKind
  isRuntimeConst : Bool
  hasInitializer : Bool
  type : TypeDesc

def CompiledStaticSlot.setType (type : TypeDesc) (slot : CompiledStaticSlot) : CompiledStaticSlot := { slot with type }

structure StaticField where
  name : String
  type : TypeNode
  hasInitializer : Bool
  folds : Bool

structure StaticLocal where
  name : String
  funcKey : String
  type : TypeNode
  hasInitializer : Bool

structure StaticDecls where
  classes : List (String × List StaticField)
  interfaces : List (String × List StaticField)
  locals : List StaticLocal

namespace StaticDecls
variable (decls : StaticDecls) (slots : TypeLeafSlots)

def slotFields (owners : List (String × List StaticField)) : List (String × StaticField) :=
  owners.flatMap fun (key, fields) => (fields.filter (!·.folds)).map (key, ·)

def slotIndex (position : Nat) : Nat := position % 2 ^ 16

def allocateStaticFieldSlot : String × StaticField → CompiledStaticSlot
  | (key, field) =>
    { name := field.name, ownerKey := key, ownerKind := .cls, isRuntimeConst := false
      hasInitializer := field.hasInitializer, type := .nonSerialized }

def buildStaticFieldTypeDescs (fields : List (String × StaticField)) (table : List CompiledStaticSlot) :
    List CompiledStaticSlot :=
  fields.zipIdx.foldl (fun table field =>
    table.modify (slotIndex field.2) (.setType (buildTypeDesc slots field.1.2.type 0))) table

def registerInterfaceConstant : String × StaticField → CompiledStaticSlot
  | (key, field) =>
    { name := field.name, ownerKey := key, ownerKind := .iface, isRuntimeConst := true
      hasInitializer := true, type := buildTypeDesc slots field.type 0 }

def registerStaticLocal (decl : StaticLocal) : CompiledStaticSlot :=
  { name := decl.name, ownerKey := decl.funcKey, ownerKind := .staticLocal, isRuntimeConst := false
    hasInitializer := decl.hasInitializer, type := buildTypeDesc slots decl.type 0 }

def classFields : List (String × StaticField) := slotFields decls.classes

def staticSlots : List CompiledStaticSlot :=
  buildStaticFieldTypeDescs slots decls.classFields (decls.classFields.map allocateStaticFieldSlot) ++
    (slotFields decls.interfaces).map (registerInterfaceConstant slots) ++
    decls.locals.map (registerStaticLocal slots)

def classTypes : List TypeNode := decls.classFields.map (·.2.type)

def laterTypes : List TypeNode :=
  (slotFields decls.interfaces).map (·.2.type) ++ decls.locals.map (·.type)

def placed : List (Nat × TypeNode) :=
  (decls.classTypes ++ decls.laterTypes).zipIdx.map fun (type, position) => (slotIndex position, type)

end StaticDecls

def markStaticSlot (kind : Option Rtk) (value : Int) : List MarkAction :=
  match kind with
  | some .string => [.string value]
  | some .typeParam => [.both value]
  | some .struct | some .cls | some .array | some .func => [.record value]
  | _ => []

def markStaticSlotRoots (table : List CompiledStaticSlot) (cells : Nat → Int) : List MarkAction :=
  table.zipIdx.flatMap fun row => markStaticSlot row.1.type.kind (cells row.2)

def staticSlotClass : Option Rtk → EvalSlotClass
  | some .string => escStrHandle
  | some .typeParam => escDual
  | some .struct | some .cls | some .array | some .func => escHeapIndex
  | _ => escNone

def TypeNode.declType : TypeNode → DeclType
  | .arrayToken _ _ | .unresolvedArray | .generic .array [_] _ => .array
  | .enumDecl => .enum
  | .structDecl decl => .struct decl
  | .interfaceDecl => .iface
  | .func _ => .func
  | .typeParam => .typeParam
  | .generic _ _ _ | .classDecl _ => .cls
  | .object => .object
  | .string => .string
  | .missing | .void => .scalar .void
  | .builtin kind => .scalar kind

/-- The domains that the scan tests in a slot declared with the type: none for an interface, a `List` or a
`Dict`. -/
def TypeNode.scanned : TypeNode → EvalSlotClass
  | .string => escStrHandle
  | .typeParam => escDual
  | .structDecl _ | .classDecl _ | .object | .arrayToken _ _ | .func (_ :: _) => escHeapIndex
  | .generic .list [_] _ | .generic .dict [_, _] _ => escNone
  | .generic _ _ _ => escHeapIndex
  | _ => escNone

theorem staticSlotClass_buildTypeDesc (slots : TypeLeafSlots) (type : TypeNode) :
    staticSlotClass (buildTypeDesc slots type 0).kind = type.scanned := by
  cases type with
  | func args =>
    cases args with
    | nil => rfl
    | cons ret params => cases ret <;> rfl
  | generic base args decl =>
    -- The arity decides, too: a `List` of two arguments is a plain class.
    rcases args with _ | ⟨first, _ | ⟨second, _ | ⟨third, rest⟩⟩⟩ <;> cases base <;> rfl
  | builtin kind => cases kind <;> rfl
  | _ => rfl

namespace StaticDecls
variable (decls : StaticDecls) (slots : TypeLeafSlots)

def lastClassType (s : Nat) : Option TypeNode :=
  (decls.classTypes.zipIdx.filter fun field => slotIndex field.2 = s).getLast?.map (·.1)

def ruler (s : Nat) : Option TypeNode :=
  (decls.lastClassType s).or decls.laterTypes[s - decls.classTypes.length]?

theorem foldl_modify_getElem? {α β : Type} (items : List (α × Nat)) (index : Nat → Nat) (write : α → β → β)
    (overwrites : ∀ a b slot, write a (write b slot) = write a slot) (table : List β) (s : Nat) :
    (items.foldl (fun table item => table.modify (index item.2) (write item.1)) table)[s]? =
      table[s]?.map fun slot =>
        (items.filter fun item => index item.2 = s).getLast?.elim slot fun item => write item.1 slot := by
  induction items generalizing table with
  | nil => simp
  | cons item rest ih =>
    rw [List.foldl_cons, ih, List.getElem?_modify]
    by_cases here : index item.2 = s
    · rw [List.filter_cons_of_pos (by simpa using here)]
      cases last : (rest.filter fun item => index item.2 = s).getLast? with
      | none =>
        have empty := List.getLast?_eq_none_iff.mp last
        simp [empty, here, Function.comp_def]
      | some item =>
        rw [List.getLast?_cons, last]
        simp [here, Option.map_map, Function.comp_def, overwrites]
    · rw [List.filter_cons_of_neg (by simpa using here)]
      simp [here]

variable {decls slots} {s : Nat}

theorem lastClassType_isSome (within : s < 2 ^ 16) (class_ : s < decls.classTypes.length) :
    (decls.lastClassType s).isSome := by
  have member : (decls.classTypes[s], s) ∈ decls.classTypes.zipIdx.filter fun field => slotIndex field.2 = s := by
    apply List.mem_filter.mpr
    constructor
    · exact List.mk_mem_zipIdx_iff_getElem?.mpr (List.getElem?_eq_getElem class_)
    · simpa [slotIndex] using Nat.mod_eq_of_lt within
  rw [lastClassType, Option.isSome_map, Option.isSome_iff_ne_none, ne_eq, List.getLast?_eq_none_iff]
  exact List.ne_nil_of_mem member

theorem lastClassType_lt (some_ : (decls.lastClassType s).isSome) : s < decls.classTypes.length := by
  rw [lastClassType, Option.isSome_map] at some_
  obtain ⟨field, last⟩ := Option.isSome_iff_exists.mp some_
  have member := List.mem_of_getLast? last
  obtain ⟨inFields, here⟩ := List.mem_filter.mp member
  have bound : field.2 < decls.classTypes.length := by
    have found := List.mk_mem_zipIdx_iff_getElem?.mp inFields
    exact (List.getElem?_eq_some_iff.mp found).1
  have reduced : slotIndex field.2 = s := by simpa using here
  have smaller : slotIndex field.2 ≤ field.2 := Nat.mod_le _ _
  omega

theorem lastClassType_eq : decls.lastClassType s =
    (decls.classFields.zipIdx.filter fun field => slotIndex field.2 = s).getLast?.map (·.1.2.type) := by
  rw [lastClassType, classTypes, List.zipIdx_map, List.filter_map, List.getLast?_map, Option.map_map]
  rfl

theorem classRow_eq (within : s < 2 ^ 16) :
    ((buildStaticFieldTypeDescs slots decls.classFields (decls.classFields.map allocateStaticFieldSlot))[s]?.map
      (·.type)) = (decls.lastClassType s).map (buildTypeDesc slots · 0) := by
  rw [buildStaticFieldTypeDescs, foldl_modify_getElem? decls.classFields.zipIdx slotIndex
    (fun field : String × StaticField => CompiledStaticSlot.setType (buildTypeDesc slots field.2.type 0))
    (fun _ _ _ => rfl)]
  by_cases class_ : s < decls.classTypes.length
  · have some_ := lastClassType_isSome within class_
    obtain ⟨field, last⟩ : ∃ field, (decls.classFields.zipIdx.filter fun field =>
        slotIndex field.2 = s).getLast? = some field := by
      rw [lastClassType_eq, Option.isSome_map] at some_
      exact Option.isSome_iff_exists.mp some_
    have row : s < decls.classFields.length := by simpa [classTypes] using class_
    rw [lastClassType_eq, last]
    simp [row, CompiledStaticSlot.setType]
  · have none_ : decls.lastClassType s = none := by
      by_contra some_
      exact class_ (lastClassType_lt (Option.isSome_iff_ne_none.mpr some_))
    have row : decls.classFields.length ≤ s := by simpa [classTypes] using class_
    simp [none_, row]

theorem classRows_length :
    (buildStaticFieldTypeDescs slots decls.classFields (decls.classFields.map allocateStaticFieldSlot)).length =
      decls.classTypes.length := by
  have fold : ∀ (items : List ((String × StaticField) × Nat)) (table : List CompiledStaticSlot),
      (items.foldl (fun table field => table.modify (slotIndex field.2)
        (.setType (buildTypeDesc slots field.1.2.type 0))) table).length = table.length := by
    intro items
    induction items with
    | nil => intro table; rfl
    | cons item rest ih =>
      intro table
      rw [List.foldl_cons, ih, List.length_modify]
  rw [buildStaticFieldTypeDescs, fold]
  simp [classTypes]

theorem row_eq (decls : StaticDecls) (slots : TypeLeafSlots) {s : Nat} (within : s < 2 ^ 16) :
    (decls.staticSlots slots)[s]?.map (·.type) = (decls.ruler s).map (buildTypeDesc slots · 0) := by
  rw [staticSlots, List.append_assoc, ruler]
  by_cases class_ : s < decls.classTypes.length
  · rw [List.getElem?_append_left (by rw [classRows_length]; exact class_), classRow_eq within]
    obtain ⟨type, last⟩ := Option.isSome_iff_exists.mp (lastClassType_isSome within class_)
    rw [last]
    rfl
  · have none_ : decls.lastClassType s = none := by
      by_contra some_
      exact class_ (lastClassType_lt (Option.isSome_iff_ne_none.mpr some_))
    rw [List.getElem?_append_right (by rw [classRows_length]; exact Nat.not_lt.mp class_), classRows_length, none_,
      Option.none_or, ← List.getElem?_map, ← List.getElem?_map, laterTypes]
    simp [List.map_append, Function.comp_def, registerInterfaceConstant, registerStaticLocal]

theorem placed_within (slots : TypeLeafSlots) {static : Nat × TypeNode} (member : static ∈ decls.placed) :
    static.1 < 2 ^ 16 ∧ static.1 < (decls.staticSlots slots).length := by
  obtain ⟨⟨type, position⟩, inTypes, rfl⟩ := List.mem_map.mp member
  have found := List.mk_mem_zipIdx_iff_getElem?.mp inTypes
  have bound := (List.getElem?_eq_some_iff.mp found).1
  have total : (decls.staticSlots slots).length = (decls.classTypes ++ decls.laterTypes).length := by
    simp [staticSlots, classRows_length, laterTypes]
  have smaller : slotIndex position ≤ position := Nat.mod_le _ _
  constructor
  · exact Nat.mod_lt _ (by decide)
  · rw [total]
    exact Nat.lt_of_le_of_lt smaller bound

end StaticDecls

def staticScans (table : List CompiledStaticSlot) : List (Nat × EvalSlotClass) :=
  table.zipIdx.map fun row => (row.2, staticSlotClass row.1.type.kind)

theorem rooted_markStaticSlotRoots {h : Heap} {strings : StringStore} {ref : Ref} {table : List CompiledStaticSlot}
    {cells : Nat → Int} :
    Rooted h strings (markStaticSlotRoots table cells) ref ↔
      ∃ scan ∈ staticScans table, ref ∈ classTargets h strings scan.2 (cells scan.1) := by
  have one : ∀ (kind : Option Rtk) (value : Int),
      Rooted h strings (markStaticSlot kind value) ref ↔ ref ∈ classTargets h strings (staticSlotClass kind) value := by
    intro kind value
    cases kind with
    | none => simp [Rooted, markStaticSlot, classTargets, staticSlotClass, escNone]
    | some kind =>
      cases kind <;>
        simp [Rooted, markStaticSlot, MarkAction.targets, classTargets, staticSlotClass, escNone, escStrHandle,
          escHeapIndex, escDual]
  simp only [markStaticSlotRoots, rooted_flatMap, one, staticScans, List.mem_map, exists_exists_and_eq_and]

theorem cellRooted_iff {table : List CompiledStaticSlot} {s : Nat} {slot : CompiledStaticSlot}
    (found : table[s]? = some slot) (type : DeclType) :
    (∀ (h : Heap) (strings : StringStore) (cells : Nat → Int) (ref : Ref),
      h.Denotes strings (cells s) ref → fitsType type (ref.kind h) →
        Rooted h strings (markStaticSlotRoots table cells) ref) ↔
      Covers (staticSlotClass slot.type.kind) type := by
  have row : ∀ bit, (∃ scan ∈ staticScans table, scan.1 = s ∧ scan.2.getLsbD bit) ↔
      (staticSlotClass slot.type.kind).getLsbD bit := by
    intro bit
    simp only [staticScans, List.mem_map, exists_exists_and_eq_and]
    constructor
    · intro ⟨row, member, here, tested⟩
      have there := List.mk_mem_zipIdx_iff_getElem?.mp member
      rw [here, found] at there
      cases there
      exact tested
    · intro tested
      exact ⟨(slot, s), List.mk_mem_zipIdx_iff_getElem?.mpr found, rfl, tested⟩
  simp only [rooted_markStaticSlotRoots]
  rw [scans_mark_iff, row, row, covers_iff]

def StaticRooted (decls : StaticDecls) (slots : TypeLeafSlots) (static : Nat × TypeNode) : Prop :=
  ∀ (h : Heap) (strings : StringStore) (cells : Nat → Int) (ref : Ref),
    h.Denotes strings (cells static.1) ref → fitsType static.2.declType (ref.kind h) →
      Rooted h strings (markStaticSlotRoots (decls.staticSlots slots) cells) ref

theorem staticRooted_iff {decls : StaticDecls} (slots : TypeLeafSlots) {static : Nat × TypeNode}
    (member : static ∈ decls.placed) :
    StaticRooted decls slots static ↔ ∃ ruler, decls.ruler static.1 = some ruler ∧
      Covers ruler.scanned static.2.declType := by
  obtain ⟨within, inTable⟩ := StaticDecls.placed_within slots member
  obtain ⟨slot, found⟩ : ∃ slot, (decls.staticSlots slots)[static.1]? = some slot :=
    ⟨_, List.getElem?_eq_getElem inTable⟩
  have row := StaticDecls.row_eq decls slots within
  rw [found, Option.map_some] at row
  obtain ⟨ruler, rules, described⟩ := Option.map_eq_some_iff.mp row.symm
  rw [StaticRooted, cellRooted_iff found, ← described, staticSlotClass_buildTypeDesc, rules]
  constructor
  · intro covered
    exact ⟨ruler, rfl, covered⟩
  · intro ⟨_, same, covered⟩
    cases same
    exact covered

theorem StaticDecls.ruler_self {decls : StaticDecls}
    (few : (decls.classTypes ++ decls.laterTypes).length ≤ 2 ^ 16) {static : Nat × TypeNode}
    (member : static ∈ decls.placed) : decls.ruler static.1 = some static.2 := by
  obtain ⟨⟨type, position⟩, inTypes, rfl⟩ := List.mem_map.mp member
  have found := List.mk_mem_zipIdx_iff_getElem?.mp inTypes
  have bound := (List.getElem?_eq_some_iff.mp found).1
  have index : slotIndex position = position := Nat.mod_eq_of_lt (Nat.lt_of_lt_of_le bound few)
  rw [List.length_append] at few
  show decls.ruler (slotIndex position) = some type
  rw [index, ruler]
  by_cases class_ : position < decls.classTypes.length
  · have within : position < 2 ^ 16 := by omega
    obtain ⟨last, isLast⟩ := Option.isSome_iff_exists.mp (lastClassType_isSome within class_)
    rw [isLast, Option.some_or]
    obtain ⟨field, there, rfl⟩ := Option.map_eq_some_iff.mp isLast
    obtain ⟨inFields, here⟩ := List.mem_filter.mp (List.mem_of_getLast? there)
    have atField := List.mk_mem_zipIdx_iff_getElem?.mp inFields
    have fieldBound := (List.getElem?_eq_some_iff.mp atField).1
    have same : field.2 = position := by
      have unwrapped : slotIndex field.2 = field.2 := Nat.mod_eq_of_lt (by omega)
      simpa [unwrapped] using here
    rw [List.getElem?_append_left class_, ← same, atField] at found
    exact found
  · have none_ : decls.lastClassType position = none := by
      by_contra some_
      exact class_ (lastClassType_lt (Option.isSome_iff_ne_none.mpr some_))
    rw [none_, Option.none_or, ← List.getElem?_append_right (Nat.not_lt.mp class_)]
    exact found

def TypeNode.unrooted : TypeNode → Bool
  | .interfaceDecl | .generic .list [_] _ | .generic .dict [_, _] _ | .object => true
  | .func [] | .unresolvedArray => true
  | _ => false

theorem TypeNode.covers_scanned (type : TypeNode) : Covers type.scanned type.declType ↔ type.unrooted = false := by
  cases type with
  | func args =>
    cases args <;> simp [Covers, scanned, declType, unrooted, DeclType.domains, escNone, escHeapIndex]
  | generic base args decl =>
    rcases args with _ | ⟨first, _ | ⟨second, _ | ⟨third, rest⟩⟩⟩ <;> cases base <;>
      simp [Covers, scanned, declType, unrooted, DeclType.domains, escNone, escHeapIndex]
  | _ =>
    simp [Covers, scanned, declType, unrooted, DeclType.domains, escNone, escHeapIndex, escStrHandle, escDual]

theorem staticRooted_iff_of_few {decls : StaticDecls} (slots : TypeLeafSlots)
    (few : (decls.classTypes ++ decls.laterTypes).length ≤ 2 ^ 16) {static : Nat × TypeNode}
    (member : static ∈ decls.placed) : StaticRooted decls slots static ↔ static.2.unrooted = false := by
  rw [staticRooted_iff slots member, StaticDecls.ruler_self few member, ← TypeNode.covers_scanned]
  simp

/-- Static storage is a complete root set just if each static's row is ruled by a type that the scan tests in
every domain the static can refer to. -/
theorem staticsRooted_iff (decls : StaticDecls) (slots : TypeLeafSlots) :
    (∀ static ∈ decls.placed, StaticRooted decls slots static) ↔
      ∀ static ∈ decls.placed, ∃ ruler, decls.ruler static.1 = some ruler ∧
        Covers ruler.scanned static.2.declType := by
  apply forall_congr'
  intro static
  apply forall_congr'
  intro member
  exact staticRooted_iff slots member

def oneStatic (type : TypeNode) : StaticDecls :=
  { classes := [("C", [{ name := "f", type, hasInitializer := false, folds := false }])], interfaces := []
    locals := [] }

def someSlots : TypeLeafSlots := { structSlotOf := id, classSlotOf := fun _ => 0 }

theorem staticList_unmarked :
    ¬ ∀ static ∈ (oneStatic (.generic .list [.builtin .int32] 0)).placed,
      StaticRooted (oneStatic (.generic .list [.builtin .int32] 0)) someSlots static := by
  intro rooted
  have member : (0, TypeNode.generic .list [.builtin .int32] 0) ∈
      (oneStatic (.generic .list [.builtin .int32] 0)).placed := List.mem_singleton.mpr rfl
  have covered := (staticRooted_iff_of_few someSlots (by decide) member).mp (rooted _ member)
  cases covered

end NLang.Backend
