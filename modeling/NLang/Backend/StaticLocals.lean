import NLang.Backend.BareNames

/-!
# Static locals

The rows that `RegisterStaticLocalDeclarators` adds to the static slot table of a unit, and the accesses that
`StaticLocalSlotIndexOf` finds by name. Index operands have sixteen bits and only an assertion checks them.
-/

namespace NLang.Backend.StaticLocals
open NLang.Compiler

def slotIdx (place : Nat) : Nat := place % 65536

structure StaticId where
  func : Nat
  node : Nat
  deriving DecidableEq

structure Row where
  name : String
  owner : StaticId
  place : Nat
  deriving DecidableEq

structure Access where
  target : StaticId
  slot : Option Nat
  deriving DecidableEq

structure Emission where
  size : Nat
  rows : List Row := []
  staticLocalSlots : List (String × Nat) := []
  accesses : List Access := []

namespace Emission
variable (s : Emission) (func : Nat)

def registerStaticLocal (name : String) (node : Nat) : Emission :=
  { s with
    size := s.size + 1
    rows := s.rows ++ [{ name, owner := ⟨func, node⟩, place := s.size }]
    staticLocalSlots := (name, slotIdx s.size) :: s.staticLocalSlots }

def declare : Event → Emission
  | .register name node => s.registerStaticLocal func name node
  | _ => s

def accessOf : Binding → Option Access
  | .staticLocal name node => some { target := ⟨func, node⟩, slot := s.staticLocalSlots.lookup name }
  | _ => none

def step (event : Event × Nat) : Emission :=
  let s := s.declare func event.1
  { s with size := s.size + event.2, accesses := s.accesses ++ event.1.uses.filterMap (s.accessOf func) }

end Emission

structure AcceptedFunction where
  decl : FunctionDecl
  body : Stmt Binding
  resolved : decl.resolve = some body
  imported : Nat → Nat := fun _ => 0

def AcceptedFunction.events (f : AcceptedFunction) : List (Event × Nat) :=
  (f.body.events {}).zipIdx.map fun event => (event.1, f.imported event.2)

def generateFunction (s : Emission) (f : AcceptedFunction × Nat) : Emission :=
  f.1.events.foldl (·.step f.2 ·) { s with staticLocalSlots := [] }

def generateUnit (staticFields : Nat) (unit : List AcceptedFunction) : Emission :=
  unit.zipIdx.foldl generateFunction { size := staticFields }

section Storage
variable (rows : List Row)

def storageOf (owner : StaticId) : Option Row := rows.find? (·.owner = owner)

def Addressed (access : Access) : Prop :=
  ∃ row, storageOf rows access.target = some row ∧ access.slot = some (slotIdx row.place)

def Distinct : Prop := ∀ r ∈ rows, ∀ r' ∈ rows, r.owner ≠ r'.owner → slotIdx r.place ≠ slotIdx r'.place

def IsNewest (x : String) (owner : StaticId) : Prop :=
  ∃ newest first, rows.reverse.find? (fun r => r.owner.func = owner.func ∧ r.name = x) = some newest ∧
    newest.owner = owner ∧ storageOf rows owner = some first ∧ slotIdx newest.place = slotIdx first.place

end Storage

structure Separate (s : Emission) : Prop where
  distinct : Distinct s.rows
  addressed : ∀ access ∈ s.accesses, Addressed s.rows access

def NewestBound (func : Nat) : Emission → List (Event × Nat) → Prop
  | _, [] => True
  | s, event :: rest =>
    (∀ x node, .staticLocal x node ∈ event.1.uses → IsNewest (s.declare func event.1).rows x ⟨func, node⟩) ∧
      NewestBound func (s.step func event) rest

def UnitBound : Emission → List (AcceptedFunction × Nat) → Prop
  | _, [] => True
  | s, f :: rest => NewestBound f.2 { s with staticLocalSlots := [] } f.1.events ∧ UnitBound (generateFunction s f) rest

section Steps
variable {s : Emission} {func : Nat} {rows : List Row}

def Matches (func : Nat) (s : Emission) : Prop :=
  s.staticLocalSlots = (s.rows.filter (·.owner.func = func)).reverse.map fun r => (r.name, slotIdx r.place)

theorem declare_cases (s : Emission) (func : Nat) (event : Event) :
    s.declare func event = s ∨ ∃ name node, s.declare func event = s.registerStaticLocal func name node := by
  cases event with
  | register name node => exact .inr ⟨name, node, rfl⟩
  | allocate => exact .inl rfl
  | stage => exact .inl rfl
  | assign => exact .inl rfl
  | initStatic => exact .inl rfl
  | «foreach» => exact .inl rfl
  | switchOn => exact .inl rfl
  | result => exact .inl rfl

theorem Matches.declare (matched : Matches func s) (event : Event) : Matches func (s.declare func event) := by
  rcases declare_cases s func event with same | ⟨name, node, registered⟩
  · rwa [same]
  · unfold Matches at matched
    rw [registered]
    simp [Matches, Emission.registerStaticLocal, matched]

theorem declare_accesses (event : Event) : (s.declare func event).accesses = s.accesses := by
  rcases declare_cases s func event with same | ⟨name, node, registered⟩
  · rw [same]
  · rw [registered]
    rfl

theorem declare_rows (event : Event) : s.rows <+: (s.declare func event).rows := by
  rcases declare_cases s func event with same | ⟨name, node, registered⟩
  · exact same.symm ▸ List.prefix_refl s.rows
  · rw [registered]
    exact List.prefix_append _ _

theorem declare_owner (event : Event) (r : Row) (member : r ∈ (s.declare func event).rows) :
    r ∈ s.rows ∨ r.owner.func = func := by
  rcases declare_cases s func event with same | ⟨name, node, registered⟩
  · exact .inl (same ▸ member)
  · rw [registered] at member
    rcases List.mem_append.mp member with before | new
    · exact .inl before
    · exact .inr (congrArg (·.owner.func) (List.mem_singleton.mp new))

theorem run_rows (events : List (Event × Nat)) (s : Emission) : s.rows <+: (events.foldl (·.step func ·) s).rows := by
  induction events generalizing s with
  | nil => exact List.prefix_refl _
  | cons event rest ih => exact (declare_rows event.1).trans (ih (s.step func event))

theorem unit_rows (unit : List (AcceptedFunction × Nat)) (s : Emission) :
    s.rows <+: (unit.foldl generateFunction s).rows := by
  induction unit generalizing s with
  | nil => exact List.prefix_refl _
  | cons f rest ih => exact (run_rows f.1.events { s with staticLocalSlots := [] }).trans (ih (generateFunction s f))

theorem lookup_rows (x : String) (rows : List Row) :
    ((rows.filter (·.owner.func = func)).map fun r => (r.name, slotIdx r.place)).lookup x =
      (rows.find? (fun r => r.owner.func = func ∧ r.name = x)).map (slotIdx ·.place) := by
  induction rows with
  | nil => rfl
  | cons r rest ih =>
    by_cases inside : r.owner.func = func
    · by_cases named : r.name = x
      · simp [inside, named]
      · have other : (x == r.name) = false := beq_false_of_ne (Ne.symm named)
        simpa [inside, named, List.lookup_cons, other] using ih
    · simpa [inside] using ih

theorem run_owner (events : List (Event × Nat)) (s : Emission) (r : Row)
    (member : r ∈ (events.foldl (·.step func ·) s).rows) : r ∈ s.rows ∨ r.owner.func = func := by
  induction events generalizing s with
  | nil => exact .inl member
  | cons event rest ih =>
    rcases ih (s.step func event) member with before | own
    · exact declare_owner event.1 r before
    · exact .inr own

theorem Matches.lookup (matched : Matches func s) (x : String) : s.staticLocalSlots.lookup x =
    (s.rows.reverse.find? (fun r => r.owner.func = func ∧ r.name = x)).map (slotIdx ·.place) := by
  rw [matched, ← List.filter_reverse]
  exact lookup_rows x s.rows.reverse

theorem storageOf_prefix {first : Row} {owner : StaticId} {before : List Row} (older : before <+: rows)
    (found : storageOf before owner = some first) : storageOf rows owner = some first := by
  obtain ⟨more, rfl⟩ := older
  exact (List.find?_append ..).trans (by rw [storageOf] at found; rw [found]; rfl)

theorem storageOf_owner {row : Row} {owner : StaticId} (found : storageOf rows owner = some row) :
    row ∈ rows ∧ row.owner = owner :=
  ⟨List.mem_of_find?_eq_some found, of_decide_eq_true (List.find?_some found :)⟩

theorem addressed_iff (matched : Matches func s) (older : s.rows <+: rows) (distinct : Distinct rows) (x : String)
    (node : Nat) :
    Addressed rows { target := ⟨func, node⟩, slot := s.staticLocalSlots.lookup x } ↔
      IsNewest s.rows x ⟨func, node⟩ := by
  rw [matched.lookup]
  constructor
  · rintro ⟨row, storage, same⟩
    obtain ⟨newest, isNewest, slots⟩ := Option.map_eq_some_iff.mp same
    have member := List.mem_reverse.mp (List.mem_of_find?_eq_some isNewest)
    obtain ⟨there, isOwner⟩ := storageOf_owner storage
    have owner : newest.owner = ⟨func, node⟩ := by
      by_contra other
      refine distinct newest (older.subset member) row there ?_ slots
      rwa [isOwner]
    have registered : (storageOf s.rows ⟨func, node⟩).isSome := by
      rw [storageOf, List.find?_isSome]
      exact ⟨newest, member, decide_eq_true owner⟩
    obtain ⟨first, isFirst⟩ := Option.isSome_iff_exists.mp registered
    have known := storageOf_prefix older isFirst
    rw [show storageOf rows ⟨func, node⟩ = some row from storage, Option.some.injEq] at known
    refine ⟨newest, first, isNewest, owner, isFirst, ?_⟩
    rw [slots, known]
  · rintro ⟨newest, first, isNewest, -, storage, same⟩
    refine ⟨first, storageOf_prefix older storage, ?_⟩
    simp only at isNewest ⊢
    rw [isNewest, Option.map_some, same]

theorem uses_addressed_iff (matched : Matches func s) (older : s.rows <+: rows) (distinct : Distinct rows)
    (uses : List Binding) : (∀ access ∈ uses.filterMap (s.accessOf func), Addressed rows access) ↔
      ∀ x node, .staticLocal x node ∈ uses → IsNewest s.rows x ⟨func, node⟩ := by
  constructor
  · intro addressed x node used
    exact (addressed_iff matched older distinct x node).mp
      (addressed _ (List.mem_filterMap.mpr ⟨.staticLocal x node, used, rfl⟩))
  · intro newest access member
    obtain ⟨binding, used, isAccess⟩ := List.mem_filterMap.mp member
    cases binding with
    | staticLocal x node =>
      cases isAccess
      exact (addressed_iff matched older distinct x node).mpr (newest x node used)
    | «local» => cases isAccess
    | field => cases isAccess
    | constant => cases isAccess

theorem run_addressed_iff (distinct : Distinct rows) (events : List (Event × Nat)) (matched : Matches func s)
    (older : (events.foldl (·.step func ·) s).rows <+: rows) :
    (∀ access ∈ (events.foldl (·.step func ·) s).accesses, Addressed rows access) ↔
      (∀ access ∈ s.accesses, Addressed rows access) ∧ NewestBound func s events := by
  induction events generalizing s with
  | nil => simp [NewestBound]
  | cons event rest ih =>
    have declared := matched.declare event.1
    have known : (s.declare func event.1).rows <+: rows := (run_rows rest (s.step func event)).trans older
    have same : (s.declare func event.1).accesses = s.accesses := declare_accesses event.1
    have rest_iff := @ih (s.step func event) declared older
    rw [List.foldl_cons, rest_iff, NewestBound, ← and_assoc, ← uses_addressed_iff declared known distinct]
    simp only [Emission.step, List.forall_mem_append, same]

theorem unit_addressed_iff (distinct : Distinct rows) (unit : List (AcceptedFunction × Nat))
    (older : (unit.foldl generateFunction s).rows <+: rows) (later : ∀ f ∈ unit, ∀ r ∈ s.rows, r.owner.func ≠ f.2)
    (apart : (unit.map (·.2)).Nodup) :
    (∀ access ∈ (unit.foldl generateFunction s).accesses, Addressed rows access) ↔
      (∀ access ∈ s.accesses, Addressed rows access) ∧ UnitBound s unit := by
  induction unit generalizing s with
  | nil => simp [UnitBound]
  | cons f rest ih =>
    have matched : Matches f.2 { s with staticLocalSlots := [] } := by
      have none_ : s.rows.filter (·.owner.func = f.2) = [] := by
        rw [List.filter_eq_nil_iff]
        intro r member
        simpa using later f List.mem_cons_self r member
      simp [Matches, none_]
    rw [List.map_cons, List.nodup_cons] at apart
    have generated : (generateFunction s f).rows <+: rows := (unit_rows rest (generateFunction s f)).trans older
    have others : ∀ g ∈ rest, ∀ r ∈ (generateFunction s f).rows, r.owner.func ≠ g.2 := by
      intro g member r inside
      rcases run_owner f.1.events _ r inside with before | own
      · exact later g (List.mem_cons_of_mem _ member) r before
      · rw [own]
        intro same
        exact apart.1 (same ▸ List.mem_map_of_mem member)
    rw [List.foldl_cons, ih older others apart.2, UnitBound, ← and_assoc, generateFunction,
      run_addressed_iff distinct f.1.events matched generated]

end Steps

section Places
variable {s : Emission} {func : Nat}

end Places

def staticN {ν : Type} (target : ν) (node : Nat) : Stmt ν :=
  .decl true [{ name := "n", type := .scalar .int32, target, init := some (.value (.scalar .int32)), node }]

def shadowed : AcceptedFunction where
  decl := { body := .seq (staticN "n" 0) (.seq (.block (staticN "n" 0))
    (.assign "n" (.scalar .int32) (.value (.scalar .int32)))) }
  body := .seq (staticN (.staticLocal "n" 0) 0) (.seq (.block (staticN (.staticLocal "n" 1) 1))
    (.assign (.staticLocal "n" 0) (.scalar .int32) (.value (.scalar .int32))))
  resolved := rfl

end NLang.Backend.StaticLocals
