import NLang.Backend.Claims
import NLang.Vm.MarkCompleteness

/-!
# Root maps of frames

The record of a compiled function as far as the collector reads it (`BuildEvalAreaHandleMask`), and the scan of
one frame (`MarkFrameLocals`, `MarkFrameBand`). Frame sizes count slots.
-/

namespace NLang.Backend
open NLang.Compiler NLang.Vm

structure CompiledFunction where
  locals : List LocalDescriptor
  paramCount : Nat
  localsSize : Nat
  evalAreaHandleMask : List (BitVec 8)

def CompiledFunction.bandSlots (cf : CompiledFunction) : Nat := cf.localsSize - cf.paramCount

def evalSlotClassOfKind : Rtk → EvalSlotClass
  | .string => escStrHandle
  | .struct | .cls | .array | .arrayView | .func => escHeapIndex
  | .typeParam => escDual
  | _ => escNone

structure Band where
  first : Nat
  size : Nat

def Band.write (band : Band) (slot : Nat) (update : EvalSlotClass → EvalSlotClass)
    (classes : Nat → EvalSlotClass) : Nat → EvalSlotClass :=
  if band.first ≤ slot ∧ slot < band.first + band.size then
    Function.update classes slot (update (classes slot))
  else classes

namespace Band
variable (band : Band)

def scratch (evalAreaBase : Nat) : Nat → EvalSlotClass :=
  fun slot => if evalAreaBase < band.first ∨ slot < evalAreaBase then escDual else escNone

def assignLocals (locals : List LocalDescriptor) (classes : Nat → EvalSlotClass) : Nat → EvalSlotClass :=
  locals.foldl (fun classes d =>
    if d.isParam then classes else band.write d.slot (fun _ => evalSlotClassOfKind d.kind) classes) classes

def assignReturn (returnSlot : Nat) (returnKind : Option Rtk) (classes : Nat → EvalSlotClass) :
    Nat → EvalSlotClass :=
  match returnKind with
  | none => classes
  | some kind => band.write returnSlot (fun _ => evalSlotClassOfKind kind) classes

def mergeClaim (claim : Claim) (classes : Nat → EvalSlotClass) : Nat → EvalSlotClass :=
  (List.range claim.slots).foldl (fun classes i =>
    band.write (slotAt claim.base + i) (· ||| claim.slotClass) classes) classes

def mergeClaims (claims : List Claim) (classes : Nat → EvalSlotClass) : Nat → EvalSlotClass :=
  claims.foldl (fun classes claim => band.mergeClaim claim classes) classes

end Band

def packByte (a b c d : EvalSlotClass) : BitVec 8 :=
  a.setWidth 8 ||| b.setWidth 8 <<< 2 ||| c.setWidth 8 <<< 4 ||| d.setWidth 8 <<< 6

def packMask (classes : Nat → EvalSlotClass) (bandSlots : Nat) : List (BitVec 8) :=
  let classAt := fun i => if i < bandSlots then classes i else escNone
  (List.range ((bandSlots + 3) / 4)).map fun j =>
    packByte (classAt (4 * j)) (classAt (4 * j + 1)) (classAt (4 * j + 2)) (classAt (4 * j + 3))

def maskClass (mask : List (BitVec 8)) (i : Nat) : EvalSlotClass :=
  (mask.getD (i / 4) 0#8 >>> (i % 4 * 2)).setWidth 2

def claimsOf (layout : FrameLayout) (ctx : FuncContext) : List Claim :=
  ctx.evaluations.flatMap fun (_, e, _) => e.claims layout.evalAreaBase

def bandClasses (layout : FrameLayout) (returnKind : Option Rtk) (ctx : FuncContext) (band : Band) :
    Nat → EvalSlotClass :=
  band.mergeClaims (claimsOf layout ctx)
    (band.assignReturn (slotAt layout.returnSlot) returnKind
      (band.assignLocals ctx.locals (band.scratch (slotAt layout.evalAreaBase))))

def buildEvalAreaHandleMask (layout : FrameLayout) (returnKind : Option Rtk) (ctx : FuncContext) :
    List (BitVec 8) :=
  let totalSlots := slotAt ctx.nextOffset
  if totalSlots ≤ layout.paramCount then []
  else
    let band := Band.mk layout.paramCount (totalSlots - layout.paramCount)
    packMask (fun i => bandClasses layout returnKind ctx band (layout.paramCount + i)) band.size

def compileFunction (f : FunctionDecl) (stats : CallSlotStats) (staticBase : Nat) (body : Stmt Binding) :
    CompiledFunction :=
  let layout := FunctionDecl.layout f stats
  let ctx := generateFunction f stats staticBase body
  { locals := ctx.locals, paramCount := layout.paramCount, localsSize := slotAt ctx.nextOffset
    evalAreaHandleMask := buildEvalAreaHandleMask layout (f.returnType.map runtimeTypeKind) ctx }

section Scan
variable (cf : CompiledFunction) (cells : Nat → Int)

def markFrameLocals : List MarkAction :=
  (cf.locals.filter (·.isParam)).flatMap fun d =>
    match d.kind with
    | .string => [.string (cells d.slot)]
    | .typeParam => [.both (cells d.slot)]
    | .struct | .cls | .array | .func => [.record (cells d.slot)]
    | _ => []

def markFrameBand : List MarkAction :=
  (List.range cf.bandSlots).flatMap fun i =>
    let value := cells (cf.paramCount + i)
    if cf.evalAreaHandleMask.length = (cf.bandSlots + 3) / 4 then
      let slotClass := maskClass cf.evalAreaHandleMask i
      (if slotClass.getLsbD 0 then [MarkAction.string value] else []) ++
        if slotClass.getLsbD 1 then [MarkAction.record value] else []
    else [.both value]

def markFrame : List MarkAction := markFrameLocals cf cells ++ markFrameBand cf cells

end Scan

def DeclType.domains : DeclType → EvalSlotClass
  | .scalar _ | .enum => escNone
  | .string => escStrHandle
  | .struct _ | .cls | .iface | .func | .array => escHeapIndex
  | .object | .typeParam => escDual

def Covers (slotClass : EvalSlotClass) (type : DeclType) : Prop := type.domains &&& slotClass = type.domains

instance (slotClass : EvalSlotClass) (type : DeclType) : Decidable (Covers slotClass type) :=
  inferInstanceAs (Decidable (_ = _))

def FrameMarks (cf : CompiledFunction) (slot : Nat) (type : DeclType) : Prop :=
  ∀ (h : Heap) (strings : StringStore) (cells : Nat → Int) (ref : Ref),
    h.Denotes strings (cells slot) ref → fitsType type (ref.kind h) → Rooted h strings (markFrame cf cells) ref

def CompiledFunction.scans (cf : CompiledFunction) : List (Nat × EvalSlotClass) :=
  (cf.locals.filter (·.isParam)).map (fun d =>
      (d.slot, if d.kind = .arrayView then escNone else evalSlotClassOfKind d.kind)) ++
    (List.range cf.bandSlots).map fun i =>
      (cf.paramCount + i, if cf.evalAreaHandleMask.length = (cf.bandSlots + 3) / 4 then
        maskClass cf.evalAreaHandleMask i else escDual)

def CompiledFunction.Scanned (cf : CompiledFunction) (slot bit : Nat) : Prop :=
  ∃ scan ∈ cf.scans, scan.1 = slot ∧ scan.2.getLsbD bit

instance (cf : CompiledFunction) (slot bit : Nat) : Decidable (cf.Scanned slot bit) :=
  inferInstanceAs (Decidable (∃ scan ∈ cf.scans, scan.1 = slot ∧ scan.2.getLsbD bit))

def classTargets (h : Heap) (strings : StringStore) (slotClass : EvalSlotClass) (value : Int) : List Ref :=
  (if slotClass.getLsbD 0 then MarkAction.stringTargets strings value else []) ++
    if slotClass.getLsbD 1 then MarkAction.recordTargets h value else []

def domainBit : Ref → Nat
  | .string _ => 0
  | .record _ => 1

section Coverage
variable {h : Heap} {strings : StringStore} {ref : Ref}

theorem mem_classTargets {slotClass : EvalSlotClass} {value : Int} :
    ref ∈ classTargets h strings slotClass value ↔
      h.Denotes strings value ref ∧ slotClass.getLsbD (domainBit ref) := by
  cases ref with
  | string handle =>
    have inHeap : .string handle ∉ MarkAction.recordTargets h value := by
      intro member
      unfold MarkAction.recordTargets at member
      split at member
      · cases List.mem_singleton.mp member
      · cases member
    simp only [classTargets, List.mem_append, Heap.Denotes, domainBit]
    cases slotClass.getLsbD 0 <;> cases slotClass.getLsbD 1 <;>
      simp [inHeap, MarkAction.stringTargets, StringStore.live]
  | record i =>
    have inStrings : .record i ∉ MarkAction.stringTargets strings value := by
      intro member
      obtain ⟨x, -, same⟩ := List.mem_map.mp member
      cases same
    have inHeap : .record i ∈ MarkAction.recordTargets h value ↔ h.inRange value = true ∧ value.toNat = i := by
      unfold MarkAction.recordTargets
      split
      · rename_i inRange
        simp only [List.mem_singleton, Ref.record.injEq, inRange, true_and]
        exact eq_comm
      · rename_i outside
        simp [outside]
    simp only [classTargets, List.mem_append, Heap.Denotes, domainBit]
    cases slotClass.getLsbD 0 <;> cases slotClass.getLsbD 1 <;> simp [inStrings, inHeap]

theorem rooted_append {first second : List MarkAction} :
    Rooted h strings (first ++ second) ref ↔ Rooted h strings first ref ∨ Rooted h strings second ref := by
  simp only [Rooted, List.mem_append, or_and_right, exists_or]

theorem rooted_flatMap {α : Type} {items : List α} {tests : α → List MarkAction} :
    Rooted h strings (items.flatMap tests) ref ↔ ∃ x ∈ items, Rooted h strings (tests x) ref := by
  simp only [Rooted, List.mem_flatMap]
  constructor
  · intro ⟨action, ⟨x, member, tested⟩, target⟩
    exact ⟨x, member, action, tested, target⟩
  · intro ⟨x, member, action, tested, target⟩
    exact ⟨action, ⟨x, member, tested⟩, target⟩

theorem rooted_markFrameLocals {cf : CompiledFunction} {cells : Nat → Int} :
    Rooted h strings (markFrameLocals cf cells) ref ↔ ∃ d ∈ cf.locals.filter (·.isParam),
      ref ∈ classTargets h strings (if d.kind = .arrayView then escNone else evalSlotClassOfKind d.kind)
        (cells d.slot) := by
  rw [markFrameLocals, rooted_flatMap]
  apply exists_congr
  intro d
  apply and_congr_right
  intro _
  cases d.kind <;>
    simp [Rooted, MarkAction.targets, classTargets, evalSlotClassOfKind, escNone, escStrHandle, escHeapIndex,
      escDual]

theorem rooted_markFrameBand {cf : CompiledFunction} {cells : Nat → Int} :
    Rooted h strings (markFrameBand cf cells) ref ↔ ∃ i ∈ List.range cf.bandSlots,
      ref ∈ classTargets h strings (if cf.evalAreaHandleMask.length = (cf.bandSlots + 3) / 4 then
        maskClass cf.evalAreaHandleMask i else escDual) (cells (cf.paramCount + i)) := by
  rw [markFrameBand, rooted_flatMap]
  apply exists_congr
  intro i
  apply and_congr_right
  intro _
  by_cases usable : cf.evalAreaHandleMask.length = (cf.bandSlots + 3) / 4
  · simp only [usable, if_true, classTargets, rooted_append, List.mem_append]
    apply or_congr
    · split
      · simp [Rooted, MarkAction.targets]
      · simp [Rooted]
    · split
      · simp [Rooted, MarkAction.targets]
      · simp [Rooted]
  · simp [usable, Rooted, MarkAction.targets, classTargets, escDual]

theorem rooted_markFrame {cf : CompiledFunction} {cells : Nat → Int} :
    Rooted h strings (markFrame cf cells) ref ↔
      ∃ scan ∈ cf.scans, ref ∈ classTargets h strings scan.2 (cells scan.1) := by
  rw [markFrame, rooted_append, rooted_markFrameLocals, rooted_markFrameBand, CompiledFunction.scans]
  simp only [List.mem_append, List.mem_map, or_and_right, exists_or]
  apply or_congr
  · constructor
    · intro ⟨d, member, target⟩
      exact ⟨_, ⟨d, member, rfl⟩, target⟩
    · intro ⟨_, ⟨d, member, same⟩, target⟩
      cases same
      exact ⟨d, member, target⟩
  · constructor
    · intro ⟨i, member, target⟩
      exact ⟨_, ⟨i, member, rfl⟩, target⟩
    · intro ⟨_, ⟨i, member, same⟩, target⟩
      cases same
      exact ⟨i, member, target⟩

end Coverage

theorem domains_string (type : DeclType) : type.domains.getLsbD 0 = fitsType type none := by
  cases type <;> simp [DeclType.domains, fitsType, escNone, escStrHandle, escHeapIndex, escDual]

theorem fitsType_record (type : DeclType) :
    type.domains.getLsbD 1 ↔ ∃ kind, fitsType type (some kind) = true := by
  constructor
  · intro inHeap
    cases type with
    | struct structIdx => exact ⟨.struct, rfl⟩
    | cls => exact ⟨.cls, rfl⟩
    | iface => exact ⟨.cls, rfl⟩
    | func => exact ⟨.func, rfl⟩
    | array => exact ⟨.array, rfl⟩
    | object => exact ⟨.cls, rfl⟩
    | typeParam => exact ⟨.cls, rfl⟩
    | scalar kind => simp [DeclType.domains, escNone] at inHeap
    | «enum» => simp [DeclType.domains, escNone] at inHeap
    | string => simp [DeclType.domains, escStrHandle] at inHeap
  · intro ⟨kind, fits⟩
    cases type with
    | scalar kind => simp [fitsType] at fits
    | «enum» => simp [fitsType] at fits
    | string => simp [fitsType] at fits
    | struct structIdx => simp [DeclType.domains, escHeapIndex]
    | _ => simp [DeclType.domains, escHeapIndex, escDual]

theorem covers_iff (slotClass : EvalSlotClass) (type : DeclType) :
    Covers slotClass type ↔ (type.domains.getLsbD 0 → slotClass.getLsbD 0) ∧
      (type.domains.getLsbD 1 → slotClass.getLsbD 1) := by
  have bits : ∀ d c : BitVec 2, d &&& c = d ↔
      (d.getLsbD 0 → c.getLsbD 0) ∧ (d.getLsbD 1 → c.getLsbD 1) := by decide
  exact bits type.domains slotClass

/-- A heap whose record 1 has the given kind, and its frames: everything is null but one slot. -/
def oneRecord (kind : Rtk) : Heap :=
  { size := 2, slot := fun _ => { kind }, shards := [], table := fun _ => {} }

def oneString : StringStore := { size := 2, form := fun _ => .flat }

def onlySlot (slot : Nat) : Nat → Int := fun s => if s = slot then 1 else 0

theorem scans_mark_iff (scans : List (Nat × EvalSlotClass)) (slot : Nat) (type : DeclType) :
    (∀ (h : Heap) (strings : StringStore) (cells : Nat → Int) (ref : Ref),
      h.Denotes strings (cells slot) ref → fitsType type (ref.kind h) →
        ∃ scan ∈ scans, ref ∈ classTargets h strings scan.2 (cells scan.1)) ↔
      (type.domains.getLsbD 0 → ∃ scan ∈ scans, scan.1 = slot ∧ scan.2.getLsbD 0) ∧
        (type.domains.getLsbD 1 → ∃ scan ∈ scans, scan.1 = slot ∧ scan.2.getLsbD 1) := by
  constructor
  · intro marks
    -- In a state where only this slot is filled, only a test of this slot can mark the reference.
    have own : ∀ {h : Heap} {ref : Ref},
        (∃ scan ∈ scans, ref ∈ classTargets h oneString scan.2 (onlySlot slot scan.1)) →
          ∃ scan ∈ scans, scan.1 = slot ∧ scan.2.getLsbD (domainBit ref) := by
      rintro h ref ⟨scan, member, target⟩
      obtain ⟨denotes, tested⟩ := mem_classTargets.mp target
      refine ⟨scan, member, ?_, tested⟩
      have positive : 0 < onlySlot slot scan.1 := denotes.positive
      unfold onlySlot at positive
      split at positive
      · assumption
      · exact absurd positive (by decide)
    constructor
    · intro inStrings
      rw [domains_string] at inStrings
      have denotes : (oneRecord .cls).Denotes oneString (onlySlot slot slot) (.string 1) := by
        simp [onlySlot, Heap.Denotes, oneString, StringStore.isLive]
      exact own (marks (oneRecord .cls) oneString (onlySlot slot) (.string 1) denotes inStrings)
    · intro inHeap
      obtain ⟨kind, fits⟩ := (fitsType_record type).mp inHeap
      have denotes : (oneRecord kind).Denotes oneString (onlySlot slot slot) (.record 1) := by
        simp [onlySlot, Heap.Denotes, oneRecord, Heap.inRange]
      exact own (marks (oneRecord kind) oneString (onlySlot slot) (.record 1) denotes fits)
  · rintro ⟨inStrings, inHeap⟩ h strings cells ref denotes fits
    have scanned : ∃ scan ∈ scans, scan.1 = slot ∧ scan.2.getLsbD (domainBit ref) := by
      cases ref with
      | string handle =>
        apply inStrings
        rw [domains_string]
        exact fits
      | record i => exact inHeap ((fitsType_record type).mpr ⟨_, fits⟩)
    obtain ⟨scan, member, rfl, tested⟩ := scanned
    exact ⟨scan, member, mem_classTargets.mpr ⟨denotes, tested⟩⟩

theorem frameMarks_iff (cf : CompiledFunction) (slot : Nat) (type : DeclType) :
    FrameMarks cf slot type ↔ (type.domains.getLsbD 0 → cf.Scanned slot 0) ∧
      (type.domains.getLsbD 1 → cf.Scanned slot 1) := by
  simp only [FrameMarks, rooted_markFrame]
  exact scans_mark_iff cf.scans slot type

theorem unpackByte (a b c d : EvalSlotClass) :
    (packByte a b c d).setWidth 2 = a ∧ (packByte a b c d >>> 2).setWidth 2 = b ∧
      (packByte a b c d >>> 4).setWidth 2 = c ∧ (packByte a b c d >>> 6).setWidth 2 = d := by
  have all : ∀ a b c d : BitVec 2,
      (packByte a b c d).setWidth 2 = a ∧ (packByte a b c d >>> 2).setWidth 2 = b ∧
        (packByte a b c d >>> 4).setWidth 2 = c ∧ (packByte a b c d >>> 6).setWidth 2 = d := by
    decide +kernel
  exact all a b c d

theorem packMask_length (classes : Nat → EvalSlotClass) (bandSlots : Nat) :
    (packMask classes bandSlots).length = (bandSlots + 3) / 4 := by
  simp [packMask]

theorem maskClass_packMask (classes : Nat → EvalSlotClass) {bandSlots i : Nat} (inside : i < bandSlots) :
    maskClass (packMask classes bandSlots) i = classes i := by
  have byte : i / 4 < (bandSlots + 3) / 4 := by omega
  have split : i = 4 * (i / 4) + i % 4 := by omega
  have few : i % 4 = 0 ∨ i % 4 = 1 ∨ i % 4 = 2 ∨ i % 4 = 3 := by omega
  simp only [maskClass, packMask, List.getD_eq_getElem?_getD, List.getElem?_map, List.getElem?_range byte,
    Option.map_some, Option.getD_some]
  have unpacked := unpackByte
  rcases few with zero | one | two | three
  · rw [zero]
    have same : 4 * (i / 4) = i := by omega
    simp [(unpacked _ _ _ _).1, same, inside]
  · rw [one]
    have same : 4 * (i / 4) + 1 = i := by omega
    simp [(unpacked _ _ _ _).2.1, same, inside]
  · rw [two]
    have same : 4 * (i / 4) + 2 = i := by omega
    simp [(unpacked _ _ _ _).2.2.1, same, inside]
  · rw [three]
    have same : 4 * (i / 4) + 3 = i := by omega
    simp [(unpacked _ _ _ _).2.2.2, same, inside]

def claimClass : List Claim → Nat → EvalSlotClass
  | [], _ => escNone
  | claim :: rest, position =>
    (if claim.holds position then claim.slotClass else escNone) ||| claimClass rest position

namespace Band
variable {band : Band} {p : Nat}

theorem write_of_ne {slot : Nat} (update : EvalSlotClass → EvalSlotClass) (classes : Nat → EvalSlotClass)
    (other : slot ≠ p) : band.write slot update classes p = classes p := by
  unfold write
  split
  · exact Function.update_of_ne other.symm _ _
  · rfl

variable (inside : band.first ≤ p ∧ p < band.first + band.size)
include inside

theorem write_self (update : EvalSlotClass → EvalSlotClass) (classes : Nat → EvalSlotClass) :
    band.write p update classes p = update (classes p) := by
  rw [write, if_pos inside, Function.update_self]

omit inside in
theorem assignLocals_of_none {locals : List LocalDescriptor} (classes : Nat → EvalSlotClass)
    (unnamed : ∀ d ∈ locals, d.isParam = false → d.slot ≠ p) :
    band.assignLocals locals classes p = classes p := by
  induction locals generalizing classes with
  | nil => rfl
  | cons d rest ih =>
    obtain ⟨first, later⟩ := List.forall_mem_cons.mp unnamed
    rw [assignLocals, List.foldl_cons, ← assignLocals, ih _ later]
    cases isParam : d.isParam with
    | true => rfl
    | false =>
      rw [if_neg (by decide)]
      exact write_of_ne _ _ (first isParam)

theorem assignLocals_eq {locals : List LocalDescriptor} {slotClass : EvalSlotClass}
    (classes : Nat → EvalSlotClass)
    (agree : ∀ d ∈ locals, d.isParam = false → d.slot = p → evalSlotClassOfKind d.kind = slotClass)
    (named : classes p = slotClass ∨ ∃ d ∈ locals, d.isParam = false ∧ d.slot = p) :
    band.assignLocals locals classes p = slotClass := by
  induction locals generalizing classes with
  | nil =>
    rcases named with same | ⟨d, member, -⟩
    · exact same
    · cases member
  | cons d rest ih =>
    obtain ⟨first, later⟩ := List.forall_mem_cons.mp agree
    rw [assignLocals, List.foldl_cons, ← assignLocals]
    apply ih _ later
    cases isParam : d.isParam with
    | true =>
      rcases named with same | ⟨d', member, body, here⟩
      · exact .inl same
      · rcases List.mem_cons.mp member with rfl | member
        · rw [isParam] at body
          cases body
        · exact .inr ⟨d', member, body, here⟩
    | false =>
      by_cases here : d.slot = p
      · left
        rw [if_neg (by decide), here, write_self inside]
        exact first isParam here
      · rcases named with same | ⟨d', member, body, there⟩
        · left
          simpa [write_of_ne _ _ here] using same
        · rcases List.mem_cons.mp member with rfl | member
          · exact absurd there here
          · exact .inr ⟨d', member, body, there⟩

theorem mergeClaim_eq {claim : Claim} (classes : Nat → EvalSlotClass) (small : claim.base < 8192) :
    band.mergeClaim claim classes p =
      classes p ||| if claim.holds p then claim.slotClass else escNone := by
  have run : ∀ n, (List.range n).foldl (fun classes i =>
      band.write (slotAt claim.base + i) (· ||| claim.slotClass) classes) classes p =
      classes p ||| if claim.base ≤ p ∧ p < claim.base + n then claim.slotClass else escNone := by
    intro n
    have base : slotAt claim.base = claim.base := Nat.mod_eq_of_lt small
    rw [base]
    induction n with
    | zero =>
      have outside : ¬ (claim.base ≤ p ∧ p < claim.base + 0) := by omega
      rw [if_neg outside]
      simp [escNone]
    | succ n ih =>
      rw [List.range_succ, List.foldl_append, List.foldl_cons, List.foldl_nil]
      by_cases last : claim.base + n = p
      · have before : ¬ (claim.base ≤ p ∧ p < claim.base + n) := by omega
        have now : claim.base ≤ p ∧ p < claim.base + (n + 1) := by omega
        rw [last, write_self inside, ih, if_neg before, if_pos now]
        simp [escNone]
      · have same : (claim.base ≤ p ∧ p < claim.base + (n + 1)) ↔ (claim.base ≤ p ∧ p < claim.base + n) := by
          omega
        rw [write_of_ne _ _ last, ih]
        simp only [same]
  exact run claim.slots

theorem mergeClaims_eq {claims : List Claim} (classes : Nat → EvalSlotClass)
    (small : ∀ claim ∈ claims, claim.base < 8192) :
    band.mergeClaims claims classes p = classes p ||| claimClass claims p := by
  induction claims generalizing classes with
  | nil => simp [mergeClaims, claimClass, escNone]
  | cons claim rest ih =>
    obtain ⟨first, later⟩ := List.forall_mem_cons.mp small
    rw [mergeClaims, List.foldl_cons, ← mergeClaims, ih _ later, mergeClaim_eq inside _ first, claimClass,
      BitVec.or_assoc]

end Band

end NLang.Backend
