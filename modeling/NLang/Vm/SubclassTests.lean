import NLang.Vm.ClassLayout

/-!
# The subclass tests

A checked cast, a catch clause and a read of a class-typed field each walk the superclass chain in a loop of their own
(`VmExecutorOpsObjects.cpp`). One stops at index 0 and two of them hold the class in an `int16_t`.
-/

namespace NLang.Vm.SubclassTests
open NLang.Image NLang.Library.ParentChains NLang.Vm.VmClassLayout Relation

section Tests
variable (classes : List CompiledClass)

/-- The loop of `ClassMatchesTarget`. `none`: the room does not suffice. -/
def classMatchesLoop (targetClassIdx : UInt16) : Nat → Int → Option Bool
  | 0, _ => none
  | room + 1, cur =>
    if cur ≤ 0 then some false
    else
      match classes[cur.toNat]? with
      | none => some false
      | some cc =>
        let sup := cc.superClassIdx
        if sup.toInt < 0 ∨ classes.length ≤ sup.toInt.toNat then some false
        else if sup.toUInt16 = targetClassIdx then some true
        else classMatchesLoop targetClassIdx room sup.toInt

def classMatchesTarget (room : Nat) (actualClassIdx targetClassIdx : UInt16) : Option Bool :=
  if actualClassIdx = targetClassIdx then some true
  else classMatchesLoop classes targetClassIdx room actualClassIdx.toNat

def chainLoop (outside : Option Bool) (declared : Int16) : Nat → Int16 → Option Bool
  | 0, _ => none
  | room + 1, cur =>
    if cur.toInt < 0 then some false
    else if cur = declared then some true
    else
      match classes[cur.toInt.toNat]? with
      | none => outside
      | some cc => chainLoop outside declared room cc.superClassIdx

def isInstanceOrSubclass (room : Nat) (actualClassIdx targetClassIdx : UInt16) : Option Bool :=
  chainLoop classes (some false) targetClassIdx.toInt16 room actualClassIdx.toInt16

def isSubclassOf (room : Nat) (actualIdx declaredIdx : UInt16) : Option Bool :=
  chainLoop classes none declaredIdx.toInt16 room actualIdx.toInt16

end Tests

def Reaches (classes : List CompiledClass) (a b : Nat) : Prop := ReflTransGen (Parent (superIdx classes)) a b

def Decides (classes : List CompiledClass) (test : Nat → UInt16 → UInt16 → Option Bool) (actual target : UInt16) : Prop :=
  ∃ enough, ∀ room, enough ≤ room → ∃ verdict, test room actual target = some verdict ∧
    (verdict = true ↔ Reaches classes actual.toNat target.toNat)

structure TestsAgree (classes : List CompiledClass) (actual target : UInt16) : Prop where
  cast : Decides classes (classMatchesTarget classes) actual target
  catches : Decides classes (isInstanceOrSubclass classes) actual target
  stream : Decides classes (isSubclassOf classes) actual target

section Chains
variable {classes : List CompiledClass} {a b c s : Nat}

theorem reaches_cons (up : superIdx classes a = some s) : Reaches classes a b ↔ a = b ∨ Reaches classes s b := by
  rw [Reaches, ReflTransGen.cases_head_iff]
  refine or_congr_right ⟨fun ⟨c, first, rest⟩ => ?_, fun rest => ⟨s, up, rest⟩⟩
  cases (show superIdx classes a = some c from first).symm.trans up
  exact rest

theorem reaches_root (root : superIdx classes a = none) : Reaches classes a b ↔ a = b := by
  rw [Reaches, ReflTransGen.cases_head_iff]
  refine or_iff_left ?_
  rintro ⟨c, first, -⟩
  cases (show superIdx classes a = some c from first).symm.trans root

theorem Reaches.antisymm (acyclic : Acyclic (superIdx classes)) (up : Reaches classes a b) (down : Reaches classes b a) : a = b := by
  by_contra apart
  have strictly := (reflTransGen_iff_eq_or_transGen.mp up).resolve_left (Ne.symm apart)
  exact acyclic a (strictly.trans_left down)

def PassesZero (classes : List CompiledClass) (a b : Nat) : Prop := Reaches classes a 0 ∧ Reaches classes 0 b ∧ b ≠ 0

theorem superIdx_of_row {cc : CompiledClass} (row : classes[c]? = some cc) :
    superIdx classes c = if cc.superClassIdx.toInt < 0 then none else some cc.superClassIdx.toInt.toNat := by
  rw [superIdx, row]

theorem toUInt16_toNat {link : Int16} (value : link.toInt = (c : Int)) : link.toUInt16.toNat = c := by
  have signed : link.toInt = link.toBitVec.toInt := rfl
  have unsigned : link.toUInt16.toNat = link.toBitVec.toNat := rfl
  rw [signed, BitVec.toInt] at value
  split at value <;> omega

theorem toUInt16_eq_iff {link : Int16} {target : UInt16} (value : link.toInt = (c : Int)) :
    link.toUInt16 = target ↔ c = target.toNat := by
  rw [← UInt16.toNat_inj, toUInt16_toNat value]

theorem classMatchesLoop_spec (acyclic : Acyclic (superIdx classes)) (inRange : LinksInRange classes) {target : UInt16} {room : Nat}
    {chain : List Nat} (found : chainFrom (superIdx classes) room c = some chain) :
    ∃ verdict, classMatchesLoop classes target room c = some verdict ∧
      (verdict = true ↔ (c ≠ target.toNat ∧ Reaches classes c target.toNat) ∧ ¬ PassesZero classes c target.toNat) := by
  induction room generalizing c chain with
  | zero => cases found
  | succ room ih =>
    rw [classMatchesLoop]
    by_cases zero : c = 0
    · subst zero
      rw [if_pos (show ((0 : Nat) : Int) ≤ 0 from Int.le_refl 0)]
      refine ⟨false, rfl, iff_of_false Bool.false_ne_true ?_⟩
      rintro ⟨⟨apart, above⟩, direct⟩
      exact direct ⟨.refl, above, Ne.symm apart⟩
    · rw [if_neg (by omega), Int.toNat_natCast]
      cases row : classes[c]? with
      | none =>
        have root : superIdx classes c = none := by rw [superIdx, row]
        exact ⟨false, rfl, iff_of_false Bool.false_ne_true fun both => both.1.1 ((reaches_root root).mp both.1.2)⟩
      | some cc =>
        dsimp only
        have link := superIdx_of_row row
        by_cases negative : cc.superClassIdx.toInt < 0
        · rw [if_pos negative] at link
          rw [if_pos (.inl negative)]
          exact ⟨false, rfl, iff_of_false Bool.false_ne_true fun both => both.1.1 ((reaches_root link).mp both.1.2)⟩
        · rw [if_neg negative] at link
          obtain ⟨s, value⟩ : ∃ s : Nat, cc.superClassIdx.toInt = s := ⟨_, (Int.toNat_of_nonneg (by omega)).symm⟩
          rw [value, Int.toNat_natCast] at link
          have inside := inRange c s link
          rw [value, Int.toNat_natCast, if_neg (by omega)]
          have step (b : Nat) : Reaches classes c b ↔ c = b ∨ Reaches classes s b := reaches_cons link
          have above : Reaches classes c s := (step s).mpr (.inr .refl)
          by_cases here : s = target.toNat
          · rw [if_pos ((toUInt16_eq_iff value).mpr here)]
            refine ⟨true, rfl, iff_of_true rfl ⟨⟨fun same => ?_, here ▸ above⟩, ?_⟩⟩
            · exact acyclic c (.single (show superIdx classes c = some c by rw [link, here, same]))
            · rintro ⟨toZero, fromZero, nonzero⟩
              have up := ((step 0).mp toZero).resolve_left zero
              have equal : 0 = target.toNat := fromZero.antisymm acyclic (here ▸ up)
              exact nonzero equal.symm
          · rw [if_neg (mt (toUInt16_eq_iff value).mp here)]
            rw [chainFrom_cons link, Option.map_eq_some_iff] at found
            obtain ⟨rest, above', -⟩ := found
            obtain ⟨verdict, done, decided⟩ := ih above'
            refine ⟨verdict, done, decided.trans (and_congr ⟨?_, ?_⟩ (not_congr ?_))⟩
            · rintro ⟨_, up⟩
              refine ⟨fun same => ?_, (step _).mpr (.inr up)⟩
              have back : Reaches classes s c := same ▸ up
              have equal := above.antisymm acyclic back
              exact here (equal ▸ same)
            · rintro ⟨apart, up⟩
              exact ⟨here, ((step _).mp up).resolve_left apart⟩
            · exact and_congr_left' ⟨fun up => (step 0).mpr (.inr up), fun up => ((step 0).mp up).resolve_left zero⟩

theorem chainLoop_spec (inRange : LinksInRange classes) (outside : Option Bool) {target : UInt16} {room : Nat} {chain : List Nat}
    (found : chainFrom (superIdx classes) room c = some chain) (inside : c < classes.length) {cur : Int16}
    (isCur : cur.toInt = (c : Int)) :
    ∃ verdict, chainLoop classes outside target.toInt16 (room + 1) cur = some verdict ∧
      (verdict = true ↔ Reaches classes c target.toNat) := by
  induction room generalizing c chain cur with
  | zero => cases found
  | succ room ih =>
    rw [chainLoop, if_neg (by omega)]
    have same : cur = target.toInt16 ↔ c = target.toNat := by
      rw [← toUInt16_eq_iff isCur]
      exact ⟨fun equal => by rw [equal]; rfl, fun equal => by rw [← equal]; rfl⟩
    by_cases here : c = target.toNat
    · rw [if_pos (same.mpr here)]
      exact ⟨true, rfl, iff_of_true rfl (here ▸ .refl)⟩
    · rw [if_neg (mt same.mp here), isCur, Int.toNat_natCast, List.getElem?_eq_getElem inside]
      dsimp only
      have link := superIdx_of_row (List.getElem?_eq_getElem inside)
      by_cases negative : classes[c].superClassIdx.toInt < 0
      · rw [if_pos negative] at link
        refine ⟨false, by rw [chainLoop, if_pos negative], iff_of_false Bool.false_ne_true fun up => here ((reaches_root link).mp up)⟩
      · rw [if_neg negative] at link
        have value : classes[c].superClassIdx.toInt = (classes[c].superClassIdx.toInt.toNat : Int) :=
          (Int.toNat_of_nonneg (by omega)).symm
        rw [chainFrom_cons link, Option.map_eq_some_iff] at found
        obtain ⟨rest, above, -⟩ := found
        obtain ⟨verdict, done, decided⟩ := ih above (inRange c _ link) value
        refine ⟨verdict, done, decided.trans ?_⟩
        rw [reaches_cons link]
        exact (or_iff_right here).symm

end Chains

section Agreement
variable {classes : List CompiledClass} {actual target : UInt16}

theorem decides_iff {test : Nat → UInt16 → UInt16 → Option Bool} {P : Prop} (enough : Nat)
    (returns : ∀ room, enough ≤ room → ∃ verdict, test room actual target = some verdict ∧ (verdict = true ↔ P)) :
    Decides classes test actual target ↔ (P ↔ Reaches classes actual.toNat target.toNat) := by
  constructor
  · rintro ⟨enough', decides⟩
    obtain ⟨verdict, done, isP⟩ := returns (max enough enough') (Nat.le_max_left _ _)
    obtain ⟨verdict', done', reaches⟩ := decides (max enough enough') (Nat.le_max_right _ _)
    cases done.symm.trans done'
    exact isP.symm.trans reaches
  · intro same
    refine ⟨enough, fun room more => ?_⟩
    obtain ⟨verdict, done, isP⟩ := returns room more
    exact ⟨verdict, done, isP.trans same⟩

variable (acyclic : Acyclic (superIdx classes)) (inRange : LinksInRange classes) (inside : actual.toNat < classes.length)
include acyclic inRange inside

theorem exists_chain (room : Nat) (more : classes.length ≤ room) : ∃ chain, chainFrom (superIdx classes) room actual.toNat = some chain := by
  have closed : ∀ a ∈ List.range classes.length, ∀ b, superIdx classes a = some b → b ∈ List.range classes.length :=
    fun a _ b up => List.mem_range.mpr (inRange a b up)
  obtain ⟨chain, found⟩ := chainFrom_total acyclic closed (List.mem_range.mpr inside)
  rw [List.length_range] at found
  have grown := chainFrom_add (room - classes.length) found
  rw [Nat.add_sub_cancel' more] at grown
  exact ⟨chain, grown⟩

theorem cast_decides_iff : Decides classes (classMatchesTarget classes) actual target ↔
    (Reaches classes actual.toNat target.toNat ∧ ¬ PassesZero classes actual.toNat target.toNat ↔
      Reaches classes actual.toNat target.toNat) := by
  refine decides_iff classes.length fun room more => ?_
  obtain ⟨chain, found⟩ := exists_chain acyclic inRange inside room more
  rw [classMatchesTarget]
  by_cases same : actual = target
  · rw [if_pos same, same]
    refine ⟨true, rfl, iff_of_true rfl ⟨.refl, fun ⟨toZero, fromZero, nonzero⟩ => nonzero ?_⟩⟩
    exact toZero.antisymm acyclic fromZero
  · rw [if_neg same]
    obtain ⟨verdict, done, decided⟩ := classMatchesLoop_spec acyclic inRange found
    refine ⟨verdict, done, decided.trans (and_congr_left' (and_iff_right fun equal => ?_))⟩
    exact same (UInt16.toNat_inj.mp equal)

theorem chainLoop_decides_iff (outside : Option Bool) :
    Decides classes (fun room actual target => chainLoop classes outside target.toInt16 room actual.toInt16) actual target ↔
      (Reaches classes actual.toNat target.toNat ∧ actual.toNat < 2 ^ 15 ↔ Reaches classes actual.toNat target.toNat) := by
  have signed : actual.toInt16.toInt = actual.toBitVec.toInt := rfl
  have unsigned : actual.toNat = actual.toBitVec.toNat := rfl
  refine decides_iff (classes.length + 1) fun room more => ?_
  by_cases small : actual.toNat < 2 ^ 15
  · obtain ⟨room, rfl⟩ := Nat.exists_eq_add_of_le' (Nat.le_of_add_left_le more)
    obtain ⟨chain, found⟩ := exists_chain acyclic inRange inside room (by omega)
    have isCur : actual.toInt16.toInt = (actual.toNat : Int) := by
      rw [signed, BitVec.toInt, if_pos (by omega), unsigned]
    obtain ⟨verdict, done, decided⟩ := chainLoop_spec inRange outside found inside isCur
    exact ⟨verdict, done, decided.trans (and_iff_left small).symm⟩
  · have negative : actual.toInt16.toInt < 0 := by
      have := actual.toBitVec.isLt
      rw [signed, BitVec.toInt, if_neg (by omega)]
      omega
    obtain ⟨room, rfl⟩ := Nat.exists_eq_add_of_le' (Nat.le_of_add_left_le more)
    exact ⟨false, by rw [chainLoop, if_pos negative], iff_of_false Bool.false_ne_true fun both => small both.2⟩

end Agreement

/-- The tests agree where the target is not above the class, or the class is below index 32768 and no index 0 lies
between the two. -/
theorem testsAgree_iff {classes : List CompiledClass} {actual target : UInt16} (acyclic : Acyclic (superIdx classes))
    (inRange : LinksInRange classes) (inside : actual.toNat < classes.length) :
    TestsAgree classes actual target ↔ (Reaches classes actual.toNat target.toNat →
      actual.toNat < 2 ^ 15 ∧ ¬ PassesZero classes actual.toNat target.toNat) := by
  have cast := @cast_decides_iff classes actual target acyclic inRange inside
  have loop := @chainLoop_decides_iff classes actual target acyclic inRange inside
  rw [and_iff_left_iff_imp] at cast
  constructor
  · intro agree above
    exact ⟨and_iff_left_iff_imp.mp ((loop (some false)).mp agree.catches) above, cast.mp agree.cast above⟩
  · intro condition
    have narrow (outside : Option Bool) := (loop outside).mpr (and_iff_left_iff_imp.mpr fun above => (condition above).1)
    exact ⟨cast.mpr fun above => (condition above).2, narrow (some false), narrow none⟩

def exceptionsFirst : List CompiledClass := [{ superClassIdx := 2 }, { superClassIdx := 0 }, {}]

theorem exceptionsFirst_acyclic : Acyclic (superIdx exceptionsFirst) ∧ LinksInRange exceptionsFirst := by
  have links (c s : Nat) (up : superIdx exceptionsFirst c = some s) : (c = 0 ∧ s = 2) ∨ (c = 1 ∧ s = 0) := by
    rcases c with _ | _ | _ | c <;> cases up <;> simp
  refine ⟨fun c cycle => ?_, fun c s up => ?_⟩
  · -- the number of links above a class falls along the chain
    have falls {c d : Nat} (path : TransGen (Parent (superIdx exceptionsFirst)) c d) :
        [1, 2, 0].getD d 0 < [1, 2, 0].getD c 0 := by
      induction path with
      | single up => rcases links _ _ up with ⟨rfl, rfl⟩ | ⟨rfl, rfl⟩ <;> decide
      | tail _ up ih =>
        refine Nat.lt_trans ?_ ih
        rcases links _ _ up with ⟨rfl, rfl⟩ | ⟨rfl, rfl⟩ <;> decide
    exact Nat.lt_irrefl _ (falls cycle)
  · rcases links c s up with ⟨-, rfl⟩ | ⟨-, rfl⟩ <;> decide

theorem exceptionsFirst_agree_iff : TestsAgree exceptionsFirst 1 0 ↔
    (Reaches exceptionsFirst 1 0 → 1 < 2 ^ 15 ∧ ¬ PassesZero exceptionsFirst 1 0) :=
  testsAgree_iff exceptionsFirst_acyclic.1 exceptionsFirst_acyclic.2 (by decide)

theorem rootAbove_zero_not_agree :
    ¬ ∀ (classes : List CompiledClass) (actual target : UInt16), Acyclic (superIdx classes) → LinksInRange classes →
      actual.toNat < classes.length → target.toNat < classes.length → TestsAgree classes actual target := by
  intro claim
  have agree := claim exceptionsFirst 0 2 exceptionsFirst_acyclic.1 exceptionsFirst_acyclic.2 (by decide) (by decide)
  obtain ⟨enough, decides⟩ := agree.cast
  obtain ⟨verdict, done, decided⟩ := decides (enough + 1) (Nat.le_succ _)
  have refused : classMatchesTarget exceptionsFirst (enough + 1) 0 2 = some false := rfl
  cases refused.symm.trans done
  exact Bool.false_ne_true (decided.mpr (.single (show superIdx exceptionsFirst 0 = some 2 from rfl)))

end NLang.Vm.SubclassTests
