import NLang.Backend.MemberTables
import NLang.Library.Keyed

/-!
# Indices of members

Where registration puts the members of a class: side by side in the function table, and in declaration order in the
member tables of the row under the key of the class.
-/

namespace NLang.Backend
open NLang.Library.Words NLang.Library.Keyed NLang.Image NLang.Compiler

theorem memberFunctions_sorted (members : List SnMember) :
    (memberFunctions members).Pairwise fun first second => first.1 < second.1 := by
  unfold memberFunctions
  have positions : members.zipIdx.Pairwise fun first second => first.2 < second.2 := by
    rw [← List.pairwise_map, List.zipIdx_map_snd]
    exact List.pairwise_lt_range'
  apply positions.filterMap
  intro first second before left leftFound right rightFound
  obtain ⟨firstMember, firstPosition⟩ := first
  obtain ⟨secondMember, secondPosition⟩ := second
  cases firstMember with
  | classField => cases leftFound
  | function firstFn =>
    cases secondMember with
    | classField => cases rightFound
    | function secondFn =>
      cases leftFound
      cases rightFound
      exact before

theorem memberFunctions_unique {members : List SnMember} {first second : Nat × SnFunction}
    (firstMember : first ∈ memberFunctions members) (secondMember : second ∈ memberFunctions members)
    (position : first.1 = second.1) : first = second := by
  have sorted := memberFunctions_sorted members
  have apart : (memberFunctions members).Pairwise fun first second => first.1 = second.1 → first = second :=
    sorted.imp fun before same => absurd same (Nat.ne_of_lt before)
  have flipped : (memberFunctions members).Pairwise fun first second => second.1 = first.1 → second = first :=
    sorted.imp fun before same => absurd same.symm (Nat.ne_of_lt before)
  exact apart.forall_of_forall_of_flip (fun _ _ _ => rfl) flipped firstMember secondMember position

def implemented (cls : SnClassDecl) : List (Nat × SnFunction) :=
  cls.functions.filter fun member => member.2.hasBody || member.2.isNative

def listed (cls : SnClassDecl) : List (Nat × SnFunction) :=
  (implemented cls).filter fun member => !member.2.isStaticInit

theorem implemented_length_le {cls : SnClassDecl} (once : (cls.functions.filter (·.2.isStaticInit)).length ≤ 1) :
    (implemented cls).length ≤ (listed cls).length + 1 := by
  have split := List.length_eq_length_filter_add (l := implemented cls) fun member => !member.2.isStaticInit
  have few : ((implemented cls).filter fun member => !!member.2.isStaticInit).length ≤ 1 := by
    refine Nat.le_trans ?_ once
    apply List.Sublist.length_le
    simp only [Bool.not_not]
    exact List.filter_sublist.filter _
  unfold listed
  omega

section Table
variable {build : Build} {unit : Nat} {entry : ClassEntry}

structure Registers (build : Build) (unit : Nat) (entry : ClassEntry) : Prop where
  declared : build.root[entry.declIdx]? = some entry.decl
  isClass : entry.decl.node = .classDecl entry.cls
  own : isOwnUnit build unit entry.decl = true

theorem registers_of_mem (member : entry ∈ registeredClasses build unit) : Registers build unit entry := by
  obtain ⟨inside, visited⟩ := List.mem_filter.mp member
  obtain ⟨⟨decl, declIdx⟩, declared, found⟩ := List.mem_filterMap.mp inside
  have own : isOwnUnit build unit entry.decl = true := by
    rw [Bool.and_eq_true] at visited
    exact visited.1
  unfold classEntryOf at found
  simp only at found
  split at found
  · rename_i cls node
    cases found
    exact ⟨List.mem_zipIdx_iff_getElem?.mp declared, node, own⟩
  · cases found

def memberEntry (entry : ClassEntry) (member : Nat × SnFunction) : FunctionEntry :=
  { place := (entry.declIdx, member.1), decl := entry.decl, fn := member.2 }

theorem declaredFunctions_split (declared : build.root[entry.declIdx]? = some entry.decl)
    (isClass : entry.decl.node = .classDecl entry.cls) :
    ∃ before after, declaredFunctions build = before ++ entry.cls.functions.map (memberEntry entry) ++ after ∧
      (∀ other ∈ before, other.place.1 ≠ entry.declIdx) ∧ ∀ other ∈ after, other.place.1 ≠ entry.declIdx := by
  obtain ⟨inside, found⟩ := List.getElem?_eq_some_iff.mp declared
  have parts : build.root.zipIdx = (build.root.take entry.declIdx).zipIdx ++
      (entry.decl, entry.declIdx) :: (build.root.drop (entry.declIdx + 1)).zipIdx (entry.declIdx + 1) := by
    have split : build.root = build.root.take entry.declIdx ++ entry.decl :: build.root.drop (entry.declIdx + 1) := by
      rw [← found, List.getElem_cons_drop, List.take_append_drop]
    conv_lhs => rw [split]
    rw [List.zipIdx_append, List.zipIdx_cons, List.length_take_of_le (Nat.le_of_lt inside), Nat.zero_add]
  have placed : ∀ decls : List (Decl × Nat), ∀ other ∈ decls.flatMap fun pair => declFunctions pair.1 pair.2,
      ∃ pair ∈ decls, other.place.1 = pair.2 := by
    intro decls other member
    obtain ⟨pair, pairMember, here⟩ := List.mem_flatMap.mp member
    obtain ⟨function, -, rfl⟩ := List.mem_map.mp here
    exact ⟨pair, pairMember, rfl⟩
  refine ⟨((build.root.take entry.declIdx).zipIdx).flatMap fun pair => declFunctions pair.1 pair.2,
    ((build.root.drop (entry.declIdx + 1)).zipIdx (entry.declIdx + 1)).flatMap
      fun pair => declFunctions pair.1 pair.2, ?_, ?_, ?_⟩
  · unfold declaredFunctions
    rw [parts, List.flatMap_append, List.flatMap_cons, ← List.append_assoc]
    congr 2
    show entry.decl.node.functions.map _ = _
    rw [isClass]
    rfl
  · intro other member
    obtain ⟨⟨decl, declIdx⟩, pairMember, place⟩ := placed _ other member
    have bound := List.snd_lt_of_mem_zipIdx pairMember
    rw [List.length_take] at bound
    rw [place]
    simp only at bound ⊢
    omega
  · intro other member
    obtain ⟨⟨decl, declIdx⟩, pairMember, place⟩ := placed _ other member
    have bound := List.le_snd_of_mem_zipIdx pairMember
    rw [place]
    simp only at bound ⊢
    omega

theorem registersIn_memberEntry (registers : Registers build unit entry) (preludePhase : Bool)
    (member : Nat × SnFunction) :
    registersIn build unit preludePhase (memberEntry entry member) =
      (decide (entry.decl.owner ≠ some unit) = preludePhase && (member.2.hasBody || member.2.isNative)) := by
  have notFunction : isShadowedFunction build entry.decl = false := by
    unfold isShadowedFunction
    rw [registers.isClass]
  unfold registersIn memberEntry
  rw [registers.own, notFunction]
  rfl

theorem functionTable_split (registers : Registers build unit entry) :
    ∃ before after, functionTable build unit =
        before ++ (implemented entry.cls).map (memberEntry entry) ++ after ∧
      (∀ other ∈ before, other.place.1 ≠ entry.declIdx) ∧ ∀ other ∈ after, other.place.1 ≠ entry.declIdx := by
  obtain ⟨before, after, split, beforeApart, afterApart⟩ := declaredFunctions_split registers.declared registers.isClass
  have taken : ∀ phase, decide (entry.decl.owner ≠ some unit) = phase →
      (entry.cls.functions.map (memberEntry entry)).filter (registersIn build unit phase) =
        (implemented entry.cls).map (memberEntry entry) := by
    intro phase here
    rw [List.filter_map]
    congr 1
    apply List.filter_congr
    intro member _
    rw [Function.comp_apply, registersIn_memberEntry registers, decide_eq_true here]
    rfl
  have left : ∀ phase, decide (entry.decl.owner ≠ some unit) ≠ phase →
      (entry.cls.functions.map (memberEntry entry)).filter (registersIn build unit phase) = [] := by
    intro phase elsewhere
    rw [List.filter_map, List.map_eq_nil_iff, List.filter_eq_nil_iff]
    intro member _
    rw [Function.comp_apply, registersIn_memberEntry registers, decide_eq_false elsewhere]
    exact Bool.false_ne_true
  have apart : ∀ phase, (∀ other ∈ before.filter (registersIn build unit phase), other.place.1 ≠ entry.declIdx) ∧
      ∀ other ∈ after.filter (registersIn build unit phase), other.place.1 ≠ entry.declIdx := by
    intro phase
    constructor
    · intro other member
      exact beforeApart other (List.mem_filter.mp member).1
    · intro other member
      exact afterApart other (List.mem_filter.mp member).1
  unfold functionTable
  rw [split]
  simp only [List.filter_append]
  cases phase : decide (entry.decl.owner ≠ some unit) with
  | false =>
    rw [taken false phase, left true (by rw [phase]; exact Bool.false_ne_true)]
    refine ⟨before.filter (registersIn build unit false), after.filter (registersIn build unit false) ++
      (before.filter (registersIn build unit true) ++ after.filter (registersIn build unit true)), ?_,
      (apart false).1, ?_⟩
    · simp only [List.append_nil, List.append_assoc]
    · intro other member
      simp only [List.mem_append] at member
      rcases member with inside | inside | inside
      · exact (apart false).2 other inside
      · exact (apart true).1 other inside
      · exact (apart true).2 other inside
  | true =>
    rw [taken true phase, left false (by rw [phase]; exact Bool.noConfusion)]
    refine ⟨before.filter (registersIn build unit false) ++ (after.filter (registersIn build unit false) ++
      before.filter (registersIn build unit true)), after.filter (registersIn build unit true), ?_, ?_,
      (apart true).2⟩
    · simp only [List.append_nil, List.append_assoc]
    · intro other member
      simp only [List.mem_append] at member
      rcases member with inside | inside | inside
      · exact (apart false).1 other inside
      · exact (apart false).2 other inside
      · exact (apart true).1 other inside

structure BaseOf (build : Build) (unit : Nat) (entry : ClassEntry) (base : Nat) : Prop where
  index : ∀ position, funcIndex build unit (entry.declIdx, position) =
    ((implemented entry.cls).findIdx? (·.1 = position)).map (base + ·)
  entryAt : ∀ k member, (implemented entry.cls)[k]? = some member →
    (functionTable build unit)[base + k]? = some (memberEntry entry member)

theorem exists_baseOf (registers : Registers build unit entry) : ∃ base, BaseOf build unit entry base := by
  obtain ⟨before, after, split, beforeApart, afterApart⟩ := functionTable_split registers
  refine ⟨before.length, ?_, ?_⟩
  · intro position
    have missBefore : before.findIdx? (·.place = (entry.declIdx, position)) = none := by
      rw [List.findIdx?_eq_none_iff]
      intro other member
      have apart := beforeApart other member
      simp only [decide_eq_false_iff_not]
      rintro place
      exact apart (congrArg Prod.fst place)
    have missAfter : after.findIdx? (·.place = (entry.declIdx, position)) = none := by
      rw [List.findIdx?_eq_none_iff]
      intro other member
      have apart := afterApart other member
      simp only [decide_eq_false_iff_not]
      rintro place
      exact apart (congrArg Prod.fst place)
    have here : ((implemented entry.cls).map (memberEntry entry)).findIdx? (·.place = (entry.declIdx, position)) =
        (implemented entry.cls).findIdx? (·.1 = position) := by
      rw [List.findIdx?_map]
      congr 1
      funext member
      simp [memberEntry]
    unfold funcIndex
    rw [split, List.findIdx?_append, List.findIdx?_append, missBefore, missAfter, here]
    cases (implemented entry.cls).findIdx? (·.1 = position) with
    | none => rfl
    | some k =>
      show some (k + before.length) = some (before.length + k)
      rw [Nat.add_comm]
  · intro k member found
    rw [split, List.append_assoc, List.getElem?_append_right (Nat.le_add_right _ _), Nat.add_sub_cancel_left,
      List.getElem?_append_left, List.getElem?_map, found]
    · rfl
    · rw [List.length_map]
      exact (List.getElem?_eq_some_iff.mp found).1

def memberIndex (build : Build) (unit : Nat) (entry : ClassEntry) (member : Nat × SnFunction) : Option UInt16 :=
  (funcIndex build unit (entry.declIdx, member.1)).map UInt16.ofNat

theorem appendMembers (tables : MemberTables) (members : List (Nat × SnFunction)) :
    (members.foldl (appendMember build unit entry) tables).name = tables.name ∧
      (members.foldl (appendMember build unit entry) tables).methodIndices =
        tables.methodIndices ++ (members.filter (!·.2.isStaticInit)).filterMap (memberIndex build unit entry) ∧
      (members.foldl (appendMember build unit entry) tables).constructorIndices =
        tables.constructorIndices ++ ((members.filter (!·.2.isStaticInit)).filter (entry.cls.isCtor ·.2)).filterMap
          (memberIndex build unit entry) := by
  induction members generalizing tables with
  | nil => simp
  | cons member members ih =>
    obtain ⟨name, methods, ctors⟩ := ih (appendMember build unit entry tables member)
    rw [List.foldl_cons, name, methods, ctors]
    unfold appendMember
    cases index : funcIndex build unit (entry.declIdx, member.1) with
    | none =>
      have missing : memberIndex build unit entry member = none := by
        rw [memberIndex, index]
        rfl
      cases initializer : member.2.isStaticInit <;> cases ctor : entry.cls.isCtor member.2 <;>
        simp [missing, initializer, ctor]
    | some found =>
      have present : memberIndex build unit entry member = some (UInt16.ofNat found) := by
        rw [memberIndex, index]
        rfl
      cases initializer : member.2.isStaticInit <;> cases ctor : entry.cls.isCtor member.2 <;>
        simp [present, initializer, ctor]

def methodEntries (build : Build) (unit : Nat) (entry : ClassEntry) : List UInt16 :=
  (entry.cls.functions.filter (!·.2.isStaticInit)).filterMap (memberIndex build unit entry)

def constructorEntries (build : Build) (unit : Nat) (entry : ClassEntry) : List UInt16 :=
  ((entry.cls.functions.filter (!·.2.isStaticInit)).filter (entry.cls.isCtor ·.2)).filterMap
    (memberIndex build unit entry)

def holder (build : Build) (unit : Nat) (key : Text) : Option ClassEntry :=
  ((registeredClasses build unit).filter (build.keyOf ·.decl = key)).getLast?

theorem memberRows_holder {key : Text} (holds : holder build unit key = some entry) :
    ∃ row, lookup MemberTables.name (memberRows build unit) key = some row ∧
      row.methodIndices = methodEntries build unit entry ∧
      row.constructorIndices = constructorEntries build unit entry := by
  obtain ⟨earlier, filtered⟩ := List.getLast?_eq_some_iff.mp holds
  have registered : entry ∈ registeredClasses build unit ∧ build.keyOf entry.decl = key := by
    have member : entry ∈ (registeredClasses build unit).filter (build.keyOf ·.decl = key) := by
      rw [filtered]
      exact List.mem_append_right _ (List.mem_singleton_self _)
    obtain ⟨inside, keyed⟩ := List.mem_filter.mp member
    exact ⟨inside, of_decide_eq_true keyed⟩
  have keeps : ∀ (writer : ClassEntry) (row : MemberTables), (refillMethods build unit writer row).name = row.name :=
    fun _ _ => (appendMembers _ _).1
  obtain ⟨first, found⟩ : ∃ first, lookup MemberTables.name
      ((registeredClasses build unit).map fun entry => { name := build.keyOf entry.decl }) key = some first := by
    apply Option.isSome_iff_exists.mp
    unfold lookup
    rw [List.find?_isSome]
    exact ⟨_, List.mem_map_of_mem registered.1, by simpa using registered.2⟩
  have rows : lookup MemberTables.name (memberRows build unit) key =
      (lookup MemberTables.name ((registeredClasses build unit).map fun entry => { name := build.keyOf entry.decl })
        key).map fun row => ((registeredClasses build unit).filter (build.keyOf ·.decl = key)).foldl
          (fun row writer => refillMethods build unit writer row) row :=
    lookup_foldl_updateFirst keeps _ _ key
  rw [found, filtered, Option.map_some, List.foldl_append] at rows
  exact ⟨_, rows, (appendMembers _ _).2.1, (appendMembers _ _).2.2⟩

theorem holder_registers {key : Text} (holds : holder build unit key = some entry) :
    Registers build unit entry ∧ build.keyOf entry.decl = key := by
  obtain ⟨inside, keyed⟩ := List.mem_filter.mp (List.mem_of_getLast? holds)
  exact ⟨registers_of_mem inside, of_decide_eq_true keyed⟩

def placeIn (cls : SnClassDecl) (member : Nat × SnFunction) : Nat := (implemented cls).findIdx (·.1 = member.1)

theorem findIdx?_implemented {cls : SnClassDecl} {member : Nat × SnFunction} (inside : member ∈ cls.functions) :
    (implemented cls).findIdx? (·.1 = member.1) =
      if member.2.hasBody || member.2.isNative then some (placeIn cls member) else none := by
  split
  · rename_i registered
    rw [List.findIdx?_eq_some_iff_findIdx_eq]
    refine ⟨List.findIdx_lt_length_of_exists ⟨member, List.mem_filter.mpr ⟨inside, registered⟩, ?_⟩, rfl⟩
    exact decide_eq_true rfl
  · rename_i missing
    rw [List.findIdx?_eq_none_iff]
    intro other otherInside
    obtain ⟨declared, registered⟩ := List.mem_filter.mp otherInside
    apply decide_eq_false
    intro position
    cases memberFunctions_unique declared inside position
    exact missing registered

theorem implemented_placeIn {cls : SnClassDecl} {member : Nat × SnFunction} (inside : member ∈ implemented cls) :
    (implemented cls)[placeIn cls member]? = some member := by
  obtain ⟨declared, registered⟩ := List.mem_filter.mp inside
  have found := findIdx?_implemented declared
  rw [if_pos registered, List.findIdx?_eq_some_iff_getElem] at found
  obtain ⟨bound, position, -⟩ := found
  have here : (implemented cls)[placeIn cls member] ∈ implemented cls := List.getElem_mem bound
  rw [List.getElem?_eq_getElem bound]
  congr 1
  exact memberFunctions_unique (List.mem_filter.mp here).1 declared (of_decide_eq_true position)

theorem filterMap_memberIndex {base : Nat} (placed : BaseOf build unit entry base) {members : List (Nat × SnFunction)}
    (declared : ∀ member ∈ members, member ∈ entry.cls.functions) :
    members.filterMap (memberIndex build unit entry) =
      (members.filter fun member => member.2.hasBody || member.2.isNative).map
        fun member => UInt16.ofNat (base + placeIn entry.cls member) := by
  induction members with
  | nil => rfl
  | cons member members ih =>
    obtain ⟨inside, rest⟩ := List.forall_mem_cons.mp declared
    have index : memberIndex build unit entry member =
        if member.2.hasBody || member.2.isNative then some (UInt16.ofNat (base + placeIn entry.cls member))
        else none := by
      rw [memberIndex, placed.index, findIdx?_implemented inside]
      split <;> rfl
    rw [List.filterMap_cons, index, ih rest]
    split <;> simp_all

theorem methodEntries_eq {base : Nat} (placed : BaseOf build unit entry base) :
    methodEntries build unit entry =
      (listed entry.cls).map fun member => UInt16.ofNat (base + placeIn entry.cls member) := by
  unfold methodEntries
  rw [filterMap_memberIndex placed fun member inside => (List.mem_filter.mp inside).1]
  unfold listed implemented
  rw [List.filter_comm]

theorem constructorEntries_eq {base : Nat} (placed : BaseOf build unit entry base) :
    constructorEntries build unit entry = ((listed entry.cls).filter (entry.cls.isCtor ·.2)).map
      fun member => UInt16.ofNat (base + placeIn entry.cls member) := by
  unfold constructorEntries
  rw [filterMap_memberIndex placed fun member inside => (List.mem_filter.mp (List.mem_filter.mp inside).1).1]
  unfold listed implemented
  rw [List.filter_comm, List.filter_comm (p := fun member : Nat × SnFunction => !member.2.isStaticInit)]

end Table

end NLang.Backend
