import NLang.Library.Fuelled
import NLang.Vm.Alloc
import NLang.Vm.ConcatStrings
import NLang.Vm.ScalarPrims

/-!
# Equality of dict keys and list elements

`VmExecutorContainers.cpp`. A key is null, a box or another reference. The two matchers, one for the keys of a Dict and
one for the elements of a List, decide whether two references stand for the same key.
-/

namespace NLang.Vm
open NLang.Library.Fuelled

def ScalarPrim.rtkCode : ScalarPrim → Int
  | .int32 => 0 | .float => 1 | .byte => 10 | .ubyte => 11 | .short => 12 | .ushort => 13
  | .uint32 => 14 | .long => 15 | .ulong => 16 | .double => 17 | .bool => 18 | .char => 19

def ScalarPrim.rows : List ScalarPrim :=
  [.int32, .float, .byte, .ubyte, .short, .ushort, .uint32, .long, .ulong, .double, .bool, .char]

def scalarPrimIndexOfRtk (tag : Int) : Option ScalarPrim := ScalarPrim.rows.find? fun row => row.rtkCode = tag % 256

theorem scalarPrimIndexOfRtk_rtkCode (row : ScalarPrim) : scalarPrimIndexOfRtk row.rtkCode = some row := by
  cases row <;> rfl

theorem ScalarPrim.rtkCode_inj {row row' : ScalarPrim} (same : row.rtkCode = row'.rtkCode) : row = row' := by
  have found := scalarPrimIndexOfRtk_rtkCode row
  rw [same, scalarPrimIndexOfRtk_rtkCode] at found
  exact (Option.some.inj found).symm

theorem ScalarPrim.rtkCode_ne_string (row : ScalarPrim) : row.rtkCode ≠ Heap.rtkStringCode := by
  cases row <;> decide

def kBoxedValueSlot : Nat := 1

namespace Heap

def allocBoxedValue (h : Heap) (shard quantum : Nat) (typeTag lo hi : Int) : Option (Nat × Heap) :=
  let wide := (scalarPrimIndexOfRtk typeTag).any fun row => row.slotWidth = 8
  h.newRecord shard quantum { kind := .boxed, structIdx := 0, cells := [typeTag, lo, if wide then hi else 0] }

section Equal
variable (h : Heap) (strings : StringHeap) (fuel : Nat)

def boxedValuesEqual (a b : Int) : Option Bool :=
  if a ≤ 0 ∨ b ≤ 0 ∨ h.size ≤ a.toNat ∨ h.size ≤ b.toNat then some false
  else if h.cell a.toNat 0 ≠ h.cell b.toNat 0 then some false
  else if h.cell a.toNat 0 = rtkStringCode then
    (strings.strValCopy fuel (h.cell a.toNat kBoxedValueSlot)).bind fun x =>
      (strings.strValCopy fuel (h.cell b.toNat kBoxedValueSlot)).map fun y => decide (x = y)
  else
    match scalarPrimIndexOfRtk (h.cell a.toNat 0) with
    | none => some false
    | some row =>
      if h.cell a.toNat kBoxedValueSlot ≠ h.cell b.toNat kBoxedValueSlot then some false
      else some (row.slotWidth < 8 || h.cell a.toNat (kBoxedValueSlot + 1) = h.cell b.toNat (kBoxedValueSlot + 1))

def dictKeysEqual (k1 k2 : Int) : Option Bool :=
  if k1 = k2 then some true
  else if k1 ≤ 0 ∨ k2 ≤ 0 then some false
  else if h.size ≤ k1.toNat ∨ h.size ≤ k2.toNat then some false
  else if h.refKind k1 ≠ h.refKind k2 then some false
  else if h.refKind k1 ≠ .boxed ∧ h.refKind k1 ≠ .cls ∧ h.refKind k1 ≠ .struct then some false
  else if h.refKind k1 = .cls ∨ h.refKind k1 = .struct then some (k1 = k2)
  else h.boxedValuesEqual strings fuel k1 k2

def isBoxedRef (value : Int) : Bool := h.inRange value && h.refKind value = .boxed

def elementMatches (value elem : Int) : Option Bool :=
  if h.isBoxedRef value then
    if h.isBoxedRef elem then h.boxedValuesEqual strings fuel elem value else some false
  else some (elem = value)

def findListElement (value : Int) : Nat → List Int → Option Int
  | _, [] => some (-1)
  | i, elem :: elements =>
    (elementMatches h strings fuel value elem).bind fun found =>
      if found then some i else findListElement value (i + 1) elements

end Equal

end Heap

inductive BoxedValue where
  | scalar (row : ScalarPrim) (lo hi : Int)
  | string (content : List UInt8)
  deriving DecidableEq

inductive DictKey where
  | null
  | boxed (value : BoxedValue)
  | ref (i : Nat)
  deriving DecidableEq

inductive IsBoxed (h : Heap) (strings : StringHeap) : Int → BoxedValue → Prop where
  | scalar {k lo hi : Int} {row : ScalarPrim} : h.isBoxedRef k = true →
      (h.slot k.toNat).cells = [row.rtkCode, lo, hi] →
      IsBoxed h strings k (.scalar row lo (if row.slotWidth < 8 then 0 else hi))
  | string {k handle hi : Int} {content : List UInt8} : h.isBoxedRef k = true →
      (h.slot k.toNat).cells = [Heap.rtkStringCode, handle, hi] → strings.Operand handle →
      strings.Content handle content → IsBoxed h strings k (.string content)

inductive IsKey (h : Heap) (strings : StringHeap) : Int → DictKey → Prop where
  | null : IsKey h strings 0 .null
  | boxed {k : Int} {value : BoxedValue} : IsBoxed h strings k value → IsKey h strings k (.boxed value)
  | ref {k : Int} : h.inRange k = true → Heap.isChildBearingHeapKind (h.refKind k) = true →
      h.refKind k ≠ .boxed → IsKey h strings k (.ref k.toNat)

section Keys
variable {h : Heap} {strings : StringHeap} {k k' : Int} {a b : DictKey} {x y : BoxedValue}

theorem IsBoxed.isBoxedRef (boxed : IsBoxed h strings k x) : h.isBoxedRef k = true := by
  cases boxed with
  | scalar isBoxed _ => exact isBoxed
  | string isBoxed _ _ _ => exact isBoxed

theorem IsBoxed.inRange (boxed : IsBoxed h strings k x) : h.inRange k = true :=
  (Bool.and_eq_true_iff.mp boxed.isBoxedRef).1

theorem IsBoxed.refKind (boxed : IsBoxed h strings k x) : h.refKind k = .boxed :=
  of_decide_eq_true (Bool.and_eq_true_iff.mp boxed.isBoxedRef).2

theorem strValCopy_computes {handle : Int} {content : List UInt8} (reads : strings.Content handle content) :
    Computes (fun fuel => strings.strValCopy fuel handle) content where
  sound := by
    intro fuel x done
    refine (reads.unique ?_).symm
    unfold StringHeap.strValCopy at done
    by_cases live : strings.isLiveStringHandle handle = true
    · rw [if_pos live] at done
      cases form : (strings.obj handle.toNat).form with
      | flat =>
        rw [form] at done
        cases done
        exact .flat live form
      | dead => exact absurd form (strings.isLiveStringHandle_iff.mp live).2.2
      | cons left right =>
        rw [form] at done
        exact StringHeap.flattenInto_iff.mpr ⟨fuel, done⟩
    · rw [if_neg live] at done
      cases done
      exact .dead (Bool.not_eq_true _ ▸ live)
  enough := by
    obtain ⟨t, tree⟩ := reads.tree
    rw [reads.unique tree.content]
    exact ⟨t.size + 1, fun fuel large => tree.strValCopy (Nat.lt_of_succ_le large)⟩

theorem boxedValuesEqual_computes (first : IsBoxed h strings k x) (second : IsBoxed h strings k' y) :
    Computes (fun fuel => h.boxedValuesEqual strings fuel k k') (decide (x = y)) := by
  have inside : ¬ (k ≤ 0 ∨ k' ≤ 0 ∨ h.size ≤ k.toNat ∨ h.size ≤ k'.toNat) := by
    have range := first.inRange
    have range' := second.inRange
    simp only [Heap.inRange, decide_eq_true_eq] at range range'
    omega
  unfold Heap.boxedValuesEqual
  simp only [if_neg inside, Heap.cell]
  cases first with
  | @scalar lo hi row _ cells =>
    cases second with
    | @scalar lo' hi' row' _ cells' =>
      simp only [cells, cells', List.getD_cons_zero, kBoxedValueSlot, List.getD_cons_succ]
      by_cases tags : row.rtkCode = row'.rtkCode
      · have rows := ScalarPrim.rtkCode_inj tags
        subst rows
        simp only [ne_eq, not_true, if_false, if_neg row.rtkCode_ne_string, scalarPrimIndexOfRtk_rtkCode]
        by_cases payload : lo = lo'
        · by_cases narrow : row.slotWidth < 8
          · simpa [payload, narrow] using computes_some true
          · simpa [payload, narrow] using computes_some (decide (hi = hi'))
        · simpa [payload] using computes_some false
      · have rows : row ≠ row' := fun same => tags (congrArg ScalarPrim.rtkCode same)
        simpa [tags, rows] using computes_some false
    | string _ cells' _ _ =>
      simp only [cells, cells', List.getD_cons_zero, ne_eq, row.rtkCode_ne_string, not_false_eq_true, if_true]
      exact computes_some _
  | string _ cells _ reads =>
    cases second with
    | @scalar lo' hi' row' _ cells' =>
      simp only [cells, cells', List.getD_cons_zero, ne_eq, row'.rtkCode_ne_string.symm, not_false_eq_true, if_true]
      exact computes_some _
    | string _ cells' _ reads' =>
      simp only [cells, cells', List.getD_cons_zero, kBoxedValueSlot, List.getD_cons_succ, ne_eq, not_true, if_false,
        if_true, BoxedValue.string.injEq]
      exact (strValCopy_computes reads).bind ((strValCopy_computes reads').map fun y => decide (_ = y))

theorem IsBoxed.unique (first : IsBoxed h strings k x) (second : IsBoxed h strings k y) : x = y := by
  cases first with
  | @scalar lo hi row _ cells =>
    cases second with
    | @scalar lo' hi' row' _ cells' =>
      obtain ⟨tags, rfl, rfl⟩ : row.rtkCode = row'.rtkCode ∧ lo = lo' ∧ hi = hi' := by simpa [cells] using cells'
      rw [ScalarPrim.rtkCode_inj tags]
    | string _ cells' _ _ =>
      rw [cells] at cells'
      exact absurd (List.cons.inj cells').1 row.rtkCode_ne_string
  | string _ cells _ reads =>
    cases second with
    | @scalar lo' hi' row' _ cells' =>
      rw [cells'] at cells
      exact absurd (List.cons.inj cells).1 row'.rtkCode_ne_string
    | string _ cells' _ reads' =>
      rw [cells] at cells'
      cases cells'
      rw [reads.unique reads']

theorem IsKey.unique (first : IsKey h strings k a) (second : IsKey h strings k b) : a = b := by
  cases first with
  | null =>
    cases second with
    | null => rfl
    | boxed boxed => simpa [Heap.inRange] using boxed.inRange
    | ref inside _ _ => simp [Heap.inRange] at inside
  | boxed boxed =>
    cases second with
    | null => simpa [Heap.inRange] using boxed.inRange
    | boxed other => rw [boxed.unique other]
    | ref _ _ notBoxed => exact absurd boxed.refKind notBoxed
  | ref inside _ notBoxed =>
    cases second with
    | null => simp [Heap.inRange] at inside
    | boxed other => exact absurd other.refKind notBoxed
    | ref _ _ _ => rfl

theorem IsKey.null_or_inRange (isKey : IsKey h strings k a) : (k = 0 ∧ a = .null) ∨ (h.inRange k = true ∧ a ≠ .null) := by
  cases isKey with
  | null => exact .inl ⟨rfl, rfl⟩
  | boxed boxed => exact .inr ⟨boxed.inRange, fun same => nomatch same⟩
  | ref inside _ _ => exact .inr ⟨inside, fun same => nomatch same⟩

theorem dictKeysEqual_computes (first : IsKey h strings k a) (second : IsKey h strings k' b) :
    Computes (fun fuel => h.dictKeysEqual strings fuel k k') (decide (a = b)) := by
  unfold Heap.dictKeysEqual
  by_cases same : k = k'
  · subst same
    simpa [first.unique second] using computes_some true
  simp only [if_neg same]
  rcases first.null_or_inRange with ⟨rfl, rfl⟩ | ⟨inside, notNull⟩
  · have apart : DictKey.null ≠ b := by
      rintro rfl
      rcases second.null_or_inRange with ⟨zero, -⟩ | ⟨-, notNull⟩
      · exact same zero.symm
      · exact notNull rfl
    simpa [apart] using computes_some false
  rcases second.null_or_inRange with ⟨rfl, rfl⟩ | ⟨inside', -⟩
  · simpa [notNull] using computes_some false
  simp only [Heap.inRange, decide_eq_true_eq] at inside inside'
  simp only [if_neg (show ¬ (k ≤ 0 ∨ k' ≤ 0) by omega), if_neg (show ¬ (h.size ≤ k.toNat ∨ h.size ≤ k'.toNat) by omega)]
  -- from here on the kinds decide
  cases first with
  | null => omega
  | boxed boxed =>
    cases second with
    | null => omega
    | boxed other =>
      simpa [boxed.refKind, other.refKind] using boxedValuesEqual_computes boxed other
    | ref _ _ notBoxed =>
      simpa [boxed.refKind, Ne.symm notBoxed] using computes_some false
  | ref _ _ notBoxed =>
    cases second with
    | null => omega
    | boxed other => simpa [other.refKind, notBoxed] using computes_some false
    | ref _ _ _ =>
      have indices : k.toNat ≠ k'.toNat := by omega
      have result : decide (DictKey.ref k.toNat = DictKey.ref k'.toNat) = false := by simp [indices]
      rw [result]
      simp only [same, decide_false]
      split
      · exact computes_some false
      · split
        · exact computes_some false
        · rename_i kinds
          split
          · exact computes_some false
          · rename_i notIdentity
            simp only [not_or] at notIdentity
            exact absurd ⟨notBoxed, notIdentity⟩ kinds

theorem IsKey.isBoxedRef (isKey : IsKey h strings k a) : h.isBoxedRef k = true ↔ ∃ x, a = .boxed x ∧ IsBoxed h strings k x := by
  cases isKey with
  | null => simp [Heap.isBoxedRef, Heap.inRange]
  | boxed boxed => exact iff_of_true boxed.isBoxedRef ⟨_, rfl, boxed⟩
  | ref _ _ notBoxed =>
    refine iff_of_false (by simp [Heap.isBoxedRef, notBoxed]) ?_
    rintro ⟨_, ⟨⟩, _⟩

theorem IsKey.eq_of_not_isBoxedRef (first : IsKey h strings k a) (second : IsKey h strings k' b)
    (notBoxed : h.isBoxedRef k ≠ true) : k' = k ↔ b = a := by
  constructor
  · rintro rfl
    exact second.unique first
  · rintro rfl
    cases first with
    | null =>
      rcases second.null_or_inRange with ⟨zero, -⟩ | ⟨-, notNull⟩
      · exact zero
      · exact absurd rfl notNull
    | boxed boxed => exact absurd boxed.isBoxedRef notBoxed
    | ref inside _ _ =>
      generalize same : DictKey.ref k.toNat = b at second
      cases second with
      | null => cases same
      | boxed _ => cases same
      | ref inside' _ _ =>
        have indices := DictKey.ref.inj same
        simp only [Heap.inRange, decide_eq_true_eq] at inside inside'
        omega

theorem elementMatches_computes {value elem : Int} (isValue : IsKey h strings value a) (isElem : IsKey h strings elem b) :
    Computes (fun fuel => h.elementMatches strings fuel value elem) (decide (b = a)) := by
  unfold Heap.elementMatches
  by_cases boxedValue : h.isBoxedRef value = true
  · simp only [if_pos boxedValue]
    obtain ⟨x, rfl, boxed⟩ := isValue.isBoxedRef.mp boxedValue
    by_cases boxedElem : h.isBoxedRef elem = true
    · simp only [if_pos boxedElem]
      obtain ⟨y, rfl, other⟩ := isElem.isBoxedRef.mp boxedElem
      simpa using boxedValuesEqual_computes other boxed
    · simp only [if_neg boxedElem]
      have apart : b ≠ .boxed x := by
        rintro rfl
        cases isElem with
        | boxed other => exact boxedElem other.isBoxedRef
      simpa [apart] using computes_some false
  · simp only [if_neg boxedValue, isValue.eq_of_not_isBoxedRef isElem boxedValue]
    exact computes_some _

theorem findListElement_computes {value : Int} {elements : List Int} {keys : List DictKey}
    (isValue : IsKey h strings value a) (areElements : List.Forall₂ (IsKey h strings) elements keys) (i : Nat) :
    Computes (fun fuel => h.findListElement strings fuel value i elements)
      (match keys.findIdx? (· = a) with
        | some p => ↑(i + p)
        | none => -1) := by
  induction areElements generalizing i with
  | nil => exact computes_some _
  | @cons elem b elements keys isElem _ ih =>
    let after : Bool → Nat → Option Int := fun found fuel =>
      if found then some i else h.findListElement strings fuel value (i + 1) elements
    have first := elementMatches_computes isValue isElem
    simp only [Heap.findListElement, List.findIdx?_cons]
    by_cases found : b = a
    · rw [decide_eq_true found] at first ⊢
      have stops : Computes (after true) i := computes_some _
      exact first.bind stops
    · rw [decide_eq_false found] at first ⊢
      have rest : Computes (after false) _ := ih (i + 1)
      have whole := first.bind rest
      cases later : keys.findIdx? (· = a) with
      | none => simpa [later] using whole
      | some p =>
        have place : (↑(i + 1 + p) : Int) = ↑(i + (p + 1)) := by omega
        simp only [later, place] at whole
        exact whole

end Keys

end NLang.Vm
