import NLang.Image.Records
import NLang.Library.Interning

/-!
# Descriptors of generic instances

`GenericInstDescriptor.cpp`: the spelling of an instantiation, and the pool that keeps one descriptor for each
spelling. A pointer to a descriptor is its place in the pool.
-/

namespace NLang.Vm
open NLang.Library NLang.Image

inductive TypeArgDesc where
  | mk (spelling : Text) (resolvedKind : UInt8) (classRowRef : Int32) (nested : List TypeArgDesc)

namespace TypeArgDesc

def lessThan : UInt8 := 60
def comma : UInt8 := 44
def greaterThan : UInt8 := 62

mutual

def canonicalArgSpelling : TypeArgDesc → Text
  | .mk spelling _ _ nested =>
    if nested.isEmpty then spelling else spelling ++ lessThan :: (join true nested ++ [greaterThan])

def join (first : Bool) : List TypeArgDesc → Text
  | [] => []
  | arg :: args => (if first then [] else [comma]) ++ (arg.canonicalArgSpelling ++ join false args)

end

mutual

def unresolved : TypeArgDesc → TypeArgDesc
  | .mk spelling _ _ nested => .mk spelling 0 (-1) (unresolvedAll nested)

def unresolvedAll : List TypeArgDesc → List TypeArgDesc
  | [] => []
  | arg :: args => arg.unresolved :: unresolvedAll args

end

end TypeArgDesc

open TypeArgDesc

def canonicalSpelling (templateName : Text) (typeArgs : List TypeArgDesc) : Text :=
  templateName ++ lessThan :: (join true typeArgs ++ [greaterThan])

structure GenericInstDescriptor where
  templateName : Text
  typeArgs : List TypeArgDesc

def GenericInstDescriptor.spelling (descriptor : GenericInstDescriptor) : Text :=
  canonicalSpelling descriptor.templateName descriptor.typeArgs

structure DescriptorPool where
  rows : List GenericInstDescriptor := []
  distinct : (rows.map GenericInstDescriptor.spelling).Nodup := by exact List.nodup_nil

namespace DescriptorPool
variable (pool : DescriptorPool)

theorem distinct_append (descriptor : GenericInstDescriptor)
    (absent : pool.rows.findIdx? (·.spelling = descriptor.spelling) = none) :
    ((pool.rows ++ [descriptor]).map GenericInstDescriptor.spelling).Nodup := by
  rw [List.map_append, List.map_singleton, ← List.concat_eq_append]
  refine List.Nodup.concat ?_ pool.distinct
  intro member
  obtain ⟨other, inside, same⟩ := List.mem_map.mp member
  exact of_decide_eq_false (List.findIdx?_eq_none_iff.mp absent other inside) same

def internDescriptor (templateName : Text) (typeArgs : List TypeArgDesc) : DescriptorPool × Nat :=
  match absent : pool.rows.findIdx? (·.spelling = canonicalSpelling templateName typeArgs) with
  | some place => (pool, place)
  | none =>
    ({ rows := pool.rows ++ [⟨templateName, typeArgs⟩]
       distinct := pool.distinct_append ⟨templateName, typeArgs⟩ absent },
      pool.rows.length)

def internCalls : DescriptorPool → List GenericInstDescriptor → DescriptorPool × List Nat
  | pool, [] => (pool, [])
  | pool, asked :: calls =>
    let interned := pool.internDescriptor asked.templateName asked.typeArgs
    let rest := internCalls interned.1 calls
    (rest.1, interned.2 :: rest.2)

end DescriptorPool

def Separator (byte : UInt8) : Prop := byte = lessThan ∨ byte = comma ∨ byte = greaterThan

def PlainName (name : Text) : Prop := ∀ byte ∈ name, ¬ Separator byte

def AtSeparator (rest : Text) : Prop := ∀ byte ∈ rest.head?, Separator byte

namespace TypeArgDesc

mutual

def Plain : TypeArgDesc → Prop
  | .mk spelling _ _ nested => spelling ≠ [] ∧ PlainName spelling ∧ AllPlain nested

def AllPlain : List TypeArgDesc → Prop
  | [] => True
  | arg :: args => arg.Plain ∧ AllPlain args

end

end TypeArgDesc

section Unique
variable {name other rest rest' : Text}

open Classical in
theorem takeWhile_name (plain : PlainName name) (stops : AtSeparator rest) :
    (name ++ rest).takeWhile (¬ Separator ·) = name := by
  rw [List.takeWhile_append_of_pos (by simpa [PlainName] using plain)]
  cases rest with
  | nil => exact List.append_nil name
  | cons byte rest =>
    rw [List.takeWhile_cons_of_neg (by simpa using stops byte rfl), List.append_nil]

theorem plainName_unique (plain : PlainName name) (plain' : PlainName other) (stops : AtSeparator rest)
    (stops' : AtSeparator rest') (same : name ++ rest = other ++ rest') : name = other ∧ rest = rest' := by
  have names : name = other := by
    rw [← takeWhile_name plain stops, same, takeWhile_name plain' stops']
  subst names
  exact ⟨rfl, List.append_cancel_left same⟩

def AtArgEnd (rest : Text) : Prop := ∀ byte ∈ rest.head?, byte = comma ∨ byte = greaterThan

theorem AtArgEnd.atSeparator (ends : AtArgEnd rest) : AtSeparator rest := fun byte first => .inr (ends byte first)

theorem atSeparator_cons {byte : UInt8} (separator : Separator byte) : AtSeparator (byte :: rest) := by
  rintro _ ⟨⟩
  exact separator

theorem atArgEnd_comma : AtArgEnd (comma :: rest) := by
  rintro _ ⟨⟩
  exact .inl rfl

theorem atArgEnd_greaterThan : AtArgEnd (greaterThan :: rest) := by
  rintro _ ⟨⟩
  exact .inr rfl

theorem not_atArgEnd_lessThan : ¬ AtArgEnd (lessThan :: rest) := by
  intro ends
  exact absurd (ends lessThan rfl) (by decide)

end Unique

namespace TypeArgDesc

def tail (nested : List TypeArgDesc) : Text :=
  if nested.isEmpty then [] else lessThan :: (join true nested ++ [greaterThan])

theorem tail_cons_append (arg : TypeArgDesc) (args : List TypeArgDesc) (rest : Text) :
    tail (arg :: args) ++ rest = lessThan :: (join true (arg :: args) ++ greaterThan :: rest) := by
  rw [tail, if_neg (by simp), List.cons_append, List.append_assoc, List.singleton_append]

theorem canonicalArgSpelling_eq (spelling : Text) (kind : UInt8) (row : Int32) (nested : List TypeArgDesc) :
    canonicalArgSpelling (.mk spelling kind row nested) = spelling ++ tail nested := by
  rw [canonicalArgSpelling, tail]
  split
  · rw [List.append_nil]
  · rfl

theorem join_atArgEnd (args : List TypeArgDesc) (rest : Text) : AtArgEnd (join false args ++ greaterThan :: rest) := by
  cases args with
  | nil => exact atArgEnd_greaterThan
  | cons arg args => exact atArgEnd_comma

theorem canonicalArgSpelling_cons {arg : TypeArgDesc} (plain : arg.Plain) :
    ∃ byte rest, arg.canonicalArgSpelling = byte :: rest ∧ ¬ Separator byte := by
  obtain ⟨spelling, kind, row, nested⟩ := arg
  obtain ⟨nonempty, names, -⟩ := plain
  obtain ⟨byte, spelling, rfl⟩ := List.exists_cons_of_ne_nil nonempty
  exact ⟨byte, _, canonicalArgSpelling_eq .., names byte List.mem_cons_self⟩

theorem join_ne_end {first : Bool} {arg : TypeArgDesc} {args : List TypeArgDesc} {rest rest' : Text}
    (plain : arg.Plain) : greaterThan :: rest ≠ join first (arg :: args) ++ rest' := by
  intro same
  cases first with
  | false => exact absurd (List.cons.inj same).1 (by decide)
  | true =>
    obtain ⟨byte, spelled, starts, letter⟩ := canonicalArgSpelling_cons plain
    rw [join, starts] at same
    exact letter (.inr (.inr (List.cons.inj same).1.symm))

mutual

theorem canonicalArgSpelling_unique : ∀ (arg other : TypeArgDesc) (rest rest' : Text), arg.Plain → other.Plain →
    AtArgEnd rest → AtArgEnd rest' → arg.canonicalArgSpelling ++ rest = other.canonicalArgSpelling ++ rest' →
    arg.unresolved = other.unresolved ∧ rest = rest'
  | .mk spelling kind row nested, .mk spelling' kind' row' nested', rest, rest', plain, plain', ends, ends', same => by
      obtain ⟨-, names, inner⟩ := plain
      obtain ⟨-, names', inner'⟩ := plain'
      rw [canonicalArgSpelling_eq, canonicalArgSpelling_eq, List.append_assoc, List.append_assoc] at same
      have stops : ∀ {nested rest}, AtArgEnd rest → AtSeparator (tail nested ++ rest) := by
        intro nested rest ends
        unfold tail
        split
        · exact ends.atSeparator
        · exact atSeparator_cons (.inl rfl)
      obtain ⟨rfl, tails⟩ := plainName_unique names names' (stops ends) (stops ends') same
      rw [unresolved, unresolved]
      cases nested with
      | nil =>
        cases nested' with
        | nil => exact ⟨rfl, tails⟩
        | cons arg' args' =>
          rw [tail_cons_append] at tails
          have blocked : rest = lessThan :: _ := tails
          exact absurd (blocked ▸ ends) not_atArgEnd_lessThan
      | cons arg args =>
        rw [tail_cons_append] at tails
        cases nested' with
        | nil =>
          have blocked : rest' = lessThan :: _ := tails.symm
          exact absurd (blocked ▸ ends') not_atArgEnd_lessThan
        | cons arg' args' =>
          rw [tail_cons_append] at tails
          obtain ⟨args_eq, rest_eq⟩ := join_unique true (arg :: args) (arg' :: args') rest rest' inner inner'
            (List.cons.inj tails).2
          exact ⟨by rw [args_eq], rest_eq⟩

theorem join_unique : ∀ (first : Bool) (args others : List TypeArgDesc) (rest rest' : Text), AllPlain args →
    AllPlain others → join first args ++ greaterThan :: rest = join first others ++ greaterThan :: rest' →
    unresolvedAll args = unresolvedAll others ∧ rest = rest'
  | first, [], [], rest, rest', _, _, same => ⟨rfl, (List.cons.inj same).2⟩
  | first, [], arg :: args, rest, rest', _, plain, same => by
      exact absurd same (join_ne_end plain.1)
  | first, arg :: args, [], rest, rest', plain, _, same => by
      exact absurd same.symm (join_ne_end plain.1)
  | first, arg :: args, other :: others, rest, rest', plain, plain', same => by
      simp only [join, List.append_assoc, List.append_cancel_left_eq] at same
      obtain ⟨head, same⟩ := canonicalArgSpelling_unique arg other _ _ plain.1 plain'.1 (join_atArgEnd args rest)
        (join_atArgEnd others rest') same
      obtain ⟨tail, rfl⟩ := join_unique false args others rest rest' plain.2 plain'.2 same
      rw [unresolvedAll, unresolvedAll, head, tail]
      exact ⟨rfl, rfl⟩

end

theorem isEmpty_unresolvedAll (args : List TypeArgDesc) : (unresolvedAll args).isEmpty = args.isEmpty := by
  cases args <;> rfl

mutual

theorem canonicalArgSpelling_unresolved : ∀ arg : TypeArgDesc,
    arg.unresolved.canonicalArgSpelling = arg.canonicalArgSpelling
  | .mk spelling kind row nested => by
      rw [unresolved, canonicalArgSpelling, canonicalArgSpelling, isEmpty_unresolvedAll, join_unresolvedAll true nested]

theorem join_unresolvedAll : ∀ (first : Bool) (args : List TypeArgDesc),
    join first (unresolvedAll args) = join first args
  | _, [] => rfl
  | first, arg :: args => by
      rw [unresolvedAll, join, join, canonicalArgSpelling_unresolved arg, join_unresolvedAll false args]

end

end TypeArgDesc

namespace GenericInstDescriptor

def Plain (asked : GenericInstDescriptor) : Prop := PlainName asked.templateName ∧ AllPlain asked.typeArgs

def unresolved (asked : GenericInstDescriptor) : GenericInstDescriptor :=
  ⟨asked.templateName, unresolvedAll asked.typeArgs⟩

theorem spelling_eq_iff {asked other : GenericInstDescriptor} (plain : asked.Plain) (plain' : other.Plain) :
    asked.spelling = other.spelling ↔ asked.unresolved = other.unresolved := by
  obtain ⟨name, args⟩ := asked
  obtain ⟨name', args'⟩ := other
  constructor
  · intro same
    obtain ⟨rfl, inside⟩ := plainName_unique plain.1 plain'.1 (atSeparator_cons (.inl rfl))
      (atSeparator_cons (.inl rfl)) same
    obtain ⟨args_eq, -⟩ := join_unique true args args' [] [] plain.2 plain'.2 (List.cons.inj inside).2
    rw [unresolved, unresolved, args_eq]
  · intro same
    obtain ⟨rfl, args_eq⟩ := GenericInstDescriptor.mk.inj same
    change canonicalSpelling name args = canonicalSpelling name args'
    rw [canonicalSpelling, canonicalSpelling, ← join_unresolvedAll, args_eq, join_unresolvedAll]

end GenericInstDescriptor

namespace DescriptorPool
variable (pool : DescriptorPool)

theorem internDescriptor_spec (asked : GenericInstDescriptor) :
    let interned := pool.internDescriptor asked.templateName asked.typeArgs
    pool.rows <+: interned.1.rows ∧ (∀ row ∈ interned.1.rows, row ∈ pool.rows ∨ row = asked) ∧
      ∃ row, interned.1.rows[interned.2]? = some row ∧ row.spelling = asked.spelling := by
  unfold internDescriptor
  split
  · rename_i place found
    obtain ⟨inside, same, -⟩ := List.findIdx?_eq_some_iff_getElem.mp found
    exact ⟨List.prefix_rfl, fun row member => .inl member, _, List.getElem?_eq_getElem inside,
      of_decide_eq_true same⟩
  · refine ⟨List.prefix_append .., fun row member => ?_, asked, List.getElem?_concat_length, rfl⟩
    exact (List.mem_append.mp member).imp id List.mem_singleton.mp

theorem internCalls_spec (calls : List GenericInstDescriptor) :
    let interned := pool.internCalls calls
    pool.rows <+: interned.1.rows ∧ (∀ row ∈ interned.1.rows, row ∈ pool.rows ∨ row ∈ calls) ∧
      List.Forall₂ (fun asked place => ∃ row, interned.1.rows[place]? = some row ∧ row.spelling = asked.spelling)
        calls interned.2 := by
  induction calls generalizing pool with
  | nil => exact ⟨List.prefix_rfl, fun row member => .inl member, .nil⟩
  | cons asked calls ih =>
    obtain ⟨grows, only, row, at_place, same⟩ := pool.internDescriptor_spec asked
    obtain ⟨grows', only', others⟩ := ih (pool.internDescriptor asked.templateName asked.typeArgs).1
    refine ⟨grows.trans grows', fun row member => ?_, .cons ⟨row, ?_, same⟩ others⟩
    · rcases only' row member with old | later
      · exact (only row old).imp id fun here => List.mem_cons.mpr (.inl here)
      · exact .inr (List.mem_cons_of_mem _ later)
    · obtain ⟨inside, at_place⟩ := List.getElem?_eq_some_iff.mp at_place
      exact (List.prefix_iff_getElem?.mp grows' _ inside).trans (congrArg some at_place)

end DescriptorPool

open DescriptorPool

structure FaithfulCalls (calls : List GenericInstDescriptor) : Prop where
  same : ∀ (i j : Nat) (asked other : GenericInstDescriptor), calls[i]? = some asked → calls[j]? = some other →
    ((internCalls {} calls).2[i]? = (internCalls {} calls).2[j]? ↔ asked = other)
  carries : ∀ (i : Nat) (asked : GenericInstDescriptor), calls[i]? = some asked →
    ∃ place row, (internCalls {} calls).2[i]? = some place ∧
      (internCalls {} calls).1.rows[place]? = some row ∧ row.typeArgs = asked.typeArgs

section Faithful
variable {calls : List GenericInstDescriptor} {i j : Nat} {asked other : GenericInstDescriptor}

theorem interned_at (at_i : calls[i]? = some asked) : ∃ place row, (internCalls {} calls).2[i]? = some place ∧
    (internCalls {} calls).1.rows[place]? = some row ∧ row.spelling = asked.spelling := by
  have placed := (internCalls_spec {} calls).2.2
  obtain ⟨inside, rfl⟩ := List.getElem?_eq_some_iff.mp at_i
  have inside' := placed.length_eq ▸ inside
  obtain ⟨row, at_place, same⟩ := placed.get inside inside'
  exact ⟨_, row, List.getElem?_eq_getElem inside', at_place, same⟩

theorem interned_eq_iff (at_i : calls[i]? = some asked) (at_j : calls[j]? = some other) :
    (internCalls {} calls).2[i]? = (internCalls {} calls).2[j]? ↔ asked.spelling = other.spelling := by
  obtain ⟨place, row, placed, at_place, same⟩ := interned_at at_i
  obtain ⟨place', row', placed', at_place', same'⟩ := interned_at at_j
  have spelled : ((internCalls {} calls).1.rows.map GenericInstDescriptor.spelling)[place]? = some asked.spelling := by
    rw [List.getElem?_map, at_place, Option.map_some, same]
  have spelled' : ((internCalls {} calls).1.rows.map GenericInstDescriptor.spelling)[place']? =
      some other.spelling := by
    rw [List.getElem?_map, at_place', Option.map_some, same']
  rw [placed, placed', Option.some_inj]
  exact place_eq_iff (internCalls {} calls).1.distinct spelled spelled'

def SpelledApart (calls : List GenericInstDescriptor) : Prop :=
  ∀ asked ∈ calls, ∀ other ∈ calls, asked.spelling = other.spelling → asked = other

theorem faithfulCalls_iff (calls : List GenericInstDescriptor) : FaithfulCalls calls ↔ SpelledApart calls := by
  constructor
  · intro faithful asked member other member' same
    obtain ⟨i, at_i⟩ := List.mem_iff_getElem?.mp member
    obtain ⟨j, at_j⟩ := List.mem_iff_getElem?.mp member'
    exact (faithful.same i j asked other at_i at_j).mp ((interned_eq_iff at_i at_j).mpr same)
  · intro apart
    constructor
    · intro i j asked other at_i at_j
      rw [interned_eq_iff at_i at_j]
      constructor
      · exact apart asked (List.mem_of_getElem? at_i) other (List.mem_of_getElem? at_j)
      · rintro rfl
        rfl
    · intro i asked at_i
      obtain ⟨place, row, placed, at_place, same⟩ := interned_at at_i
      -- the descriptor is that of some call under the same spelling
      have fromCall : row ∈ calls :=
        ((internCalls_spec {} calls).2.1 row (List.mem_of_getElem? at_place)).resolve_left List.not_mem_nil
      exact ⟨place, row, placed, at_place,
        congrArg GenericInstDescriptor.typeArgs (apart row fromCall asked (List.mem_of_getElem? at_i) same)⟩

end Faithful

/-- Interning is faithful to the calls that differ in their spellings wherever they differ. Over plain names these are
the calls where equal names and trees of spellings come with equal kinds and rows. -/
theorem interning_faithful_iff (calls : List GenericInstDescriptor) :
    (FaithfulCalls calls ↔ SpelledApart calls) ∧
      ((∀ asked ∈ calls, asked.Plain) →
        (FaithfulCalls calls ↔
          ∀ asked ∈ calls, ∀ other ∈ calls, asked.unresolved = other.unresolved → asked = other)) := by
  refine ⟨faithfulCalls_iff calls, fun plain => (faithfulCalls_iff calls).trans ?_⟩
  constructor
  · intro apart asked member other member' same
    exact apart asked member other member'
      ((GenericInstDescriptor.spelling_eq_iff (plain asked member) (plain other member')).mpr same)
  · intro apart asked member other member' same
    exact apart asked member other member'
      ((GenericInstDescriptor.spelling_eq_iff (plain asked member) (plain other member')).mp same)

def boxOfItem (row : Int32) : GenericInstDescriptor :=
  ⟨[66, 111, 120], [.mk [73, 116, 101, 109] Rtk.cls row []]⟩

theorem interning_loses_rows : ¬ FaithfulCalls [boxOfItem 3, boxOfItem 5] := by
  intro faithful
  have same := (faithful.same 0 1 _ _ rfl rfl).mp (by decide)
  simp [boxOfItem] at same

end NLang.Vm
