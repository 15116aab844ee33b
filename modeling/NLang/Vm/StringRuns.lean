import NLang.Library.Runs
import NLang.Vm.StringCollections

/-!
# Runs of the string store

A program holds handles, which its collections mark; each stands for the string it was created as. Operands of a
concatenation are held or null, and any value may be compared or read.
-/

namespace NLang.Vm
open NLang.Library NLang.Library.Runs

structure StringProgram where
  heap : StringHeap
  held : List (Int × List UInt8)

inductive StringAction where
  | mint (shard quantum : Nat) (content : List UInt8)
  | constant (k : Nat)
  | concat (shard quantum fuel : Nat) (left right : Int × List UInt8)
  | flatten (fuel : Nat) (handle : Int)
  | compare (fuel : Nat) (hA hB : Int)
  | drop (entry : Int × List UInt8)
  | collect (others : List Int)

namespace StringProgram

def isOperand (s : StringProgram) (operand : Int × List UInt8) : Bool :=
  operand = (0, []) || s.held.contains operand

def step (stringConstants : List (List UInt8)) (s : StringProgram) : StringAction → Option StringProgram
  | .mint shard quantum content =>
    (s.heap.mintNewString shard quantum content).map fun (i, h) => ⟨h, (↑i, content) :: s.held⟩
  | .constant k =>
    match s.heap.constStrCache[k]?, stringConstants[k]? with
    | some i, some content => some { s with held := (↑i, content) :: s.held }
    | _, _ => none
  | .concat shard quantum fuel left right =>
    if s.isOperand left && s.isOperand right then
      (s.heap.opConcat shard quantum fuel left.1 right.1).map fun (i, h) =>
        ⟨h, (↑i, left.2 ++ right.2) :: s.held⟩
    else none
  | .flatten fuel handle => (s.heap.strVal fuel handle).map fun (_, h) => { s with heap := h }
  | .compare fuel hA hB => (s.heap.stringsEqual fuel hA hB).map fun (_, h) => { s with heap := h }
  | .drop entry => some { s with held := s.held.erase entry }
  | .collect others => some { s with heap := s.heap.collect (s.held.map Prod.fst ++ others) }

structure Holds (stringConstants : List (List UInt8)) (s : StringProgram) : Prop where
  formed : s.heap.Formed stringConstants
  operand : ∀ entry ∈ s.held, s.heap.Operand entry.1
  content : ∀ entry ∈ s.held, s.heap.Content entry.1 entry.2

section Step
variable {stringConstants : List (List UInt8)} {s : StringProgram} (holds : Holds stringConstants s)
include holds

theorem Holds.isOperand {operand : Int × List UInt8} (checked : s.isOperand operand = true) :
    s.heap.Operand operand.1 ∧ s.heap.Content operand.1 operand.2 := by
  simp only [StringProgram.isOperand, Bool.or_eq_true, decide_eq_true_eq, List.contains_iff_mem] at checked
  rcases checked with rfl | held
  · exact ⟨.inl rfl, .dead s.heap.isLiveStringHandle_zero⟩
  · exact ⟨holds.operand operand held, holds.content operand held⟩

theorem Holds.created {h : StringHeap} {i : Nat} {content : List UInt8} (formed : h.Formed stringConstants)
    (created : StringHeap.Created s.heap h i) (reads : h.Content i content) :
    Holds stringConstants ⟨h, (↑i, content) :: s.held⟩ where
  formed := formed
  operand := by
    intro entry member
    rcases List.mem_cons.mp member with rfl | old
    · exact .inr created.allocated
    · exact (holds.operand entry old).keeps created.keeps
  content := by
    intro entry member
    rcases List.mem_cons.mp member with rfl | old
    · exact reads
    · exact holds.formed.content_keeps formed.sound created.keeps (holds.operand entry old) (holds.content entry old)

theorem Holds.flattened {h : StringHeap} (formed : h.Formed stringConstants)
    (flattened : StringHeap.Flattened s.heap h) : Holds stringConstants { s with heap := h } where
  formed := formed
  operand entry held := flattened.operand.mpr (holds.operand entry held)
  content entry held := (flattened.content _ _).mpr (holds.content entry held)

theorem Holds.concat {shard quantum fuel i : Nat} {h : StringHeap} {left right : Int × List UInt8}
    (leftChecked : s.isOperand left = true) (rightChecked : s.isOperand right = true)
    (made : s.heap.opConcat shard quantum fuel left.1 right.1 = some (i, h)) :
    Holds stringConstants ⟨h, (↑i, left.2 ++ right.2) :: s.held⟩ := by
  obtain ⟨leftOperand, first⟩ := holds.isOperand leftChecked
  obtain ⟨rightOperand, second⟩ := holds.isOperand rightChecked
  unfold StringHeap.opConcat at made
  by_cases doubled : left.1 = right.1
  · rw [if_pos doubled] at made
    obtain ⟨⟨x, g⟩, readFirst, rest⟩ := Option.bind_eq_some_iff.mp made
    obtain ⟨⟨y, g'⟩, readSecond, minted⟩ := Option.bind_eq_some_iff.mp rest
    obtain ⟨formed, flattened, holdsX, -⟩ := holds.formed.strVal readFirst
    obtain ⟨formed', flattened', holdsY, -⟩ := formed.strVal readSecond
    have sameX : x = left.2 := holdsX.unique first
    have sameY : y = right.2 := ((flattened.content _ _).mp holdsY).unique (doubled ▸ second)
    obtain ⟨formed'', created, reads⟩ := formed'.mint minted
    rw [sameX, sameY] at reads
    exact (holds.flattened formed' (flattened.trans flattened')).created formed'' created reads
  · rw [if_neg doubled] at made
    obtain ⟨formed, created, reads⟩ := holds.formed.cons leftOperand rightOperand first second made
    exact holds.created formed created reads

theorem Holds.step {action : StringAction} {s' : StringProgram} (taken : s.step stringConstants action = some s') :
    Holds stringConstants s' := by
  cases action with
  | mint shard quantum content =>
    obtain ⟨⟨i, h⟩, minted, rfl⟩ := Option.map_eq_some_iff.mp taken
    obtain ⟨formed, created, reads⟩ := holds.formed.mint minted
    exact holds.created formed created reads
  | constant k =>
    simp only [StringProgram.step] at taken
    split at taken
    · rename_i i content cached constant
      cases taken
      have fixed : s.heap.Fixed i content := by
        obtain ⟨inside, isCached⟩ := List.getElem?_eq_some_iff.mp cached
        obtain ⟨inside', isConstant⟩ := List.getElem?_eq_some_iff.mp constant
        have pair := holds.formed.constants.get inside inside'
        rwa [List.get_eq_getElem, List.get_eq_getElem, isCached, isConstant] at pair
      exact holds.created holds.formed
        ⟨holds.formed.sound, fixed.allocated, fun _ old => ⟨old, rfl⟩, fun _ old => .inr old, rfl, rfl⟩
        (fixed.reads holds.formed.sound)
    · cases taken
  | concat shard quantum fuel left right =>
    simp only [StringProgram.step] at taken
    by_cases checked : (s.isOperand left && s.isOperand right) = true
    · rw [if_pos checked] at taken
      obtain ⟨⟨i, h⟩, made, rfl⟩ := Option.map_eq_some_iff.mp taken
      obtain ⟨leftChecked, rightChecked⟩ := Bool.and_eq_true_iff.mp checked
      exact holds.concat leftChecked rightChecked made
    · rw [if_neg checked] at taken
      cases taken
  | flatten fuel handle =>
    obtain ⟨⟨content, h⟩, read, rfl⟩ := Option.map_eq_some_iff.mp taken
    obtain ⟨formed, flattened, -⟩ := holds.formed.strVal read
    exact holds.flattened formed flattened
  | compare fuel hA hB =>
    obtain ⟨⟨result, h⟩, compared, rfl⟩ := Option.map_eq_some_iff.mp taken
    obtain ⟨_, _, -, -, -, formed, flattened⟩ := holds.formed.stringsEqual compared
    exact holds.flattened formed flattened
  | drop entry =>
    cases taken
    exact ⟨holds.formed, fun other held => holds.operand other (List.mem_of_mem_erase held),
      fun other held => holds.content other (List.mem_of_mem_erase held)⟩
  | collect others =>
    cases taken
    obtain ⟨formed, kept⟩ := holds.formed.collect (s.held.map Prod.fst ++ others)
    have rooted : ∀ entry ∈ s.held, entry.1 ∈ s.held.map Prod.fst ++ others := fun entry held =>
      List.mem_append_left _ (List.mem_map_of_mem held)
    exact ⟨formed, fun entry held => (kept _ (rooted entry held) (holds.operand entry held)).1,
      fun entry held => (kept _ (rooted entry held) (holds.operand entry held)).2 _ (holds.content entry held)⟩

end Step

end StringProgram

namespace StringHeap

structure Starting (h : StringHeap) (stringConstants : List (List UInt8)) : Prop where
  sound : Sound h
  constant : ∀ i, h.Allocated i → (h.obj i).immortal = true
  constants : List.Forall₂ h.Fixed h.constStrCache stringConstants

section Starting
variable {h h' : StringHeap} {stringConstants : List (List UInt8)} {shard quantum i : Nat} {content : List UInt8}

theorem Starting.mint (starting : Starting h stringConstants)
    (minted : h.mintConstantString shard quantum content = some (i, h')) :
    Starting h' stringConstants ∧ h'.Fixed i content := by
  obtain ⟨⟨j, g⟩, made, same⟩ := Option.map_eq_some_iff.mp minted
  cases same
  obtain ⟨created, flat, str⟩ := mintNewString_created starting.sound made
  have keeps : Keeps h (g.setObj i { g.obj i with immortal := true }) := by
    intro j old
    obtain ⟨inside, same⟩ := created.keeps j old
    refine ⟨inside, ?_⟩
    by_cases isNew : j = i
    · have immortal := starting.constant j old
      rw [isNew, setObj_obj_self, ← isNew, same, ← immortal]
    · rw [setObj_obj_of_ne _ i _ isNew, same]
  refine ⟨⟨created.sound.immortalise created.allocated flat, ?_, ?_⟩, created.allocated, ?_, ?_⟩
  · intro j allocated
    rcases created.only j allocated with rfl | old
    · rw [setObj_obj_self]
    · rw [(keeps j old).2]
      exact starting.constant j old
  · change List.Forall₂ _ g.constStrCache _
    rw [created.cache]
    exact starting.constants.imp fun _ _ fixed => fixed.keeps keeps
  · rw [setObj_obj_self]
  · rw [setObj_obj_self]
    exact str

theorem Starting.formed (starting : Starting h stringConstants) (empty : h.Fixed h.emptyStrHandle []) :
    Formed h stringConstants where
  sound := starting.sound
  closed := by
    intro i left right allocated node
    rw [starting.sound.immortal i allocated.2.1 (starting.constant i allocated)] at node
    cases node
  readable i allocated :=
    ⟨_, Fixed.reads ⟨allocated, starting.constant i allocated, rfl⟩ starting.sound⟩
  empty := empty
  constants := starting.constants

theorem starting_empty (carriers : Nat) : Starting
    { size := 1
      obj := fun _ => { form := .dead }
      shards := List.replicate (carriers + 1) []
      shortStrTable := fun _ => none
      constStrCache := []
      emptyStrHandle := 0 } [] := by
  have none : ∀ i, ¬ StringHeap.Allocated
      { size := 1
        obj := fun _ => { form := .dead }
        shards := List.replicate (carriers + 1) []
        shortStrTable := fun _ => none
        constStrCache := []
        emptyStrHandle := 0 } i := fun i allocated => by
    have one := allocated.1
    have below : i < 1 := allocated.2.1
    omega
  have free : (List.replicate (carriers + 1) ([] : List Nat)).flatten = [] := by simp
  refine ⟨⟨by simp, Nat.le_refl 1, ?_, ?_, fun i allocated => absurd allocated (none i), ?_, ?_, ?_⟩,
    fun i allocated => absurd allocated (none i), .nil⟩
  · rw [freeIndices, free]
    exact List.nodup_nil
  · intro i listed
    rw [freeIndices, free] at listed
    cases listed
  · exact fun _ _ found => by cases found
  · exact fun _ _ isInterned => by cases isInterned
  · exact fun _ _ isImmortal => by cases isImmortal

theorem initStringStore_formed {carriers : Nat}
    (started : initStringStore carriers shard quantum stringConstants = some h) : Formed h stringConstants := by
  unfold initStringStore at started
  obtain ⟨g, minted, rest⟩ := Option.bind_eq_some_iff.mp started
  obtain ⟨⟨i, g'⟩, last, same⟩ := Option.bind_eq_some_iff.mp rest
  cases same
  have fold : ∀ (constants done : List (List UInt8)) (s s' : StringHeap), Starting s done →
      constants.foldlM (fun h content => (h.mintConstantString shard quantum content).map fun (i, h) =>
        ({ h with constStrCache := h.constStrCache ++ [i] } : StringHeap)) s = some s' →
      Starting s' (done ++ constants) := by
    intro constants
    induction constants with
    | nil =>
      intro done s s' starting taken
      cases taken
      rwa [List.append_nil]
    | cons constant constants ih =>
      intro done s s' starting taken
      obtain ⟨middle, first, later⟩ := Option.bind_eq_some_iff.mp taken
      obtain ⟨⟨k, t⟩, made, same⟩ := Option.map_eq_some_iff.mp first
      cases same
      obtain ⟨after, fixed⟩ := starting.mint made
      have cached : Starting { t with constStrCache := t.constStrCache ++ [k] } (done ++ [constant]) := by
        refine ⟨⟨after.sound.configured, after.sound.sentinel, after.sound.nodup, after.sound.blank,
          after.sound.used, after.sound.entry, after.sound.interned, after.sound.immortal⟩, after.constant, ?_⟩
        refine List.rel_append ?_ ?_
        · exact after.constants.imp fun _ _ known => ⟨known.allocated, known.immortal, known.str⟩
        · exact .cons ⟨fixed.allocated, fixed.immortal, fixed.str⟩ .nil
      have all := ih (done ++ [constant]) _ s' cached later
      rwa [List.append_assoc] at all
  have constants := fold stringConstants [] _ g (starting_empty carriers) minted
  obtain ⟨after, fixed⟩ := constants.mint last
  have final : Starting { g' with emptyStrHandle := i } stringConstants :=
    ⟨⟨after.sound.configured, after.sound.sentinel, after.sound.nodup, after.sound.blank, after.sound.used,
      after.sound.entry, after.sound.interned, after.sound.immortal⟩, after.constant,
      after.constants.imp fun _ _ known => ⟨known.allocated, known.immortal, known.str⟩⟩
  exact final.formed ⟨fixed.allocated, fixed.immortal, fixed.str⟩

end Starting

end StringHeap

namespace StringProgram

theorem Holds.readable {stringConstants : List (List UInt8)} {s : StringProgram} (holds : Holds stringConstants s)
    (handle : Int) : ∃ content, s.heap.Content handle content := by
  by_cases live : s.heap.isLiveStringHandle handle = true
  · obtain ⟨positive, below, alive⟩ := s.heap.isLiveStringHandle_iff.mp live
    have back : (handle.toNat : Int) = handle := Int.toNat_of_nonneg (by omega)
    by_cases free : handle.toNat ∈ s.heap.freeIndices
    · have flat : (s.heap.obj handle.toNat).form = .flat := by
        rcases (holds.formed.sound.blank _ free).2.2 with blank | blank
        · rw [blank]
        · exact absurd (congrArg StrObj.form blank) alive
      exact ⟨_, .flat live flat⟩
    · obtain ⟨content, reads⟩ := holds.formed.readable handle.toNat ⟨by omega, below, free⟩
      exact ⟨content, back ▸ reads⟩
  · exact ⟨[], .dead (Bool.not_eq_true _ ▸ live)⟩

/-- Every value has a content. `StringsEqual` returns, and compares contents; a held handle still has the content it was
created with. The table lists exactly the interned objects under their contents, no two of them with the same
content, and a lookup returns an allocated object with the content that was looked up. -/
theorem strings_interned {carriers shard quantum : Nat} {stringConstants : List (List UInt8)} {start : StringHeap}
    {s : StringProgram} (started : StringHeap.initStringStore carriers shard quantum stringConstants = some start)
    (run : Run (step stringConstants) (fun _ _ => True) ⟨start, []⟩ s) :
    (∀ hA hB : Int, ∃ x y, s.heap.Content hA x ∧ s.heap.Content hB y ∧
      ∃ n h, ∀ fuel, n ≤ fuel → s.heap.stringsEqual fuel hA hB = some (decide (x = y), h)) ∧
    (∀ entry ∈ s.held, s.heap.Content entry.1 entry.2) ∧
    (∀ (content : List UInt8) (i : Nat), s.heap.shortStrTable content = some i ↔
      s.heap.Allocated i ∧ (s.heap.obj i).interned = true ∧ s.heap.Content i content) ∧
    (∀ (i j : Nat) (content : List UInt8), s.heap.isInternedString i = true → s.heap.isInternedString j = true →
      s.heap.Content i content → s.heap.Content j content → i = j) ∧
    (∀ (content : List UInt8) (i : Nat), s.heap.internedLookup content = some i →
      s.heap.Allocated i ∧ s.heap.isLiveStringHandle i = true ∧ s.heap.Content i content) := by
  have first : Holds stringConstants ⟨start, []⟩ :=
    ⟨StringHeap.initStringStore_formed started, fun _ none => (nomatch none), fun _ none => (nomatch none)⟩
  have holds : Holds stringConstants s :=
    run.invariant (Holds stringConstants) first fun _ _ _ before _ taken => before.step taken
  have sound := holds.formed.sound
  have entry : ∀ (content : List UInt8) (i : Nat), s.heap.shortStrTable content = some i →
      s.heap.Allocated i ∧ (s.heap.obj i).interned = true ∧ s.heap.Content i content := by
    intro content i found
    obtain ⟨allocated, isInterned, str⟩ := sound.entry content i found
    have flat := (sound.interned i allocated.2.1 isInterned).1
    exact ⟨allocated, isInterned, str ▸ .flat (allocated.live sound) flat⟩
  refine ⟨?_, holds.content, ?_, ?_, ?_⟩
  · intro hA hB
    obtain ⟨x, readsA⟩ := holds.readable hA
    obtain ⟨y, readsB⟩ := holds.readable hB
    exact ⟨x, y, readsA, readsB, holds.formed.stringsEqual_enough readsA readsB⟩
  · refine fun content i => ⟨entry content i, ?_⟩
    rintro ⟨allocated, isInterned, reads⟩
    obtain ⟨flat, listed⟩ := sound.interned i allocated.2.1 isInterned
    have str := reads.of_flat (allocated.live sound) flat
    rw [Int.toNat_natCast] at str
    rw [str]
    exact listed
  · intro i j content internedI internedJ readsI readsJ
    exact Int.ofNat.inj ((holds.formed.interned_unique internedI internedJ readsI readsJ).mpr rfl)
  · intro content i found
    rw [sound.internedLookup_eq] at found
    obtain ⟨allocated, -, reads⟩ := entry content i found
    exact ⟨allocated, allocated.live sound, reads⟩

theorem strings_interned_flattened :
    ∃ (start : StringHeap) (s : StringProgram), StringHeap.initStringStore 1 0 1 [[97]] = some start ∧
      Run (step [[97]]) (fun _ _ => True) ⟨start, []⟩ s ∧ (4, [97, 98]) ∈ s.held ∧ (5, [97, 98]) ∈ s.held ∧
      (∀ entry ∈ s.held, s.heap.Content entry.1 entry.2) ∧
      ∀ hA hB : Int, ∃ x y, s.heap.Content hA x ∧ s.heap.Content hB y ∧
        ∃ n h, ∀ fuel, n ≤ fuel → s.heap.stringsEqual fuel hA hB = some (decide (x = y), h) := by
  have started : StringHeap.initStringStore 1 0 1 [[97]] = some _ := rfl
  have run : Run (step [[97]]) (fun _ _ => True) _ _ := Run.refl.actions (fun _ _ _ => trivial)
    (show [StringAction.constant 0, .mint 0 1 [98], .concat 0 1 9 (1, [97]) (3, [98]), .collect [7], .flatten 9 4,
      .mint 1 1 [97, 98], .compare 9 4 5].foldlM (step [[97]])
        ⟨(StringHeap.initStringStore 1 0 1 [[97]]).get rfl, []⟩ = some _ from rfl)
  obtain ⟨equal, held, -⟩ := strings_interned started run
  exact ⟨_, _, started, run, .tail _ (.head _), .head _, held, equal⟩

end StringProgram

end NLang.Vm
