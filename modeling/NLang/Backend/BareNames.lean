import NLang.Backend.FuncContext

/-!
# What bare names address

A bare identifier should be emitted as an access to the storage of its declaration. Emission keys frame slots by
name alone and never forgets a name, so this depends on the order of declarations and uses in the body.
-/

namespace NLang.Backend
open NLang.Compiler NLang.Vm

structure Declared where
  slots : List (Option String) := []
  program : List String := []
  hidden : List String := []
  statics : List (String × Nat) := []
  foreachs : Nat := 0

def claimSlot (slots : List (Option String)) (x : String) : List (Option String) :=
  if some x ∈ slots then slots else slots ++ [some x]

namespace Declared
variable (declared : Declared)

def write (x : String) : Declared :=
  { declared with slots := claimSlot declared.slots x, program := x :: declared.program }

def hide (x : String) : Declared :=
  { declared with slots := claimSlot declared.slots x, hidden := x :: declared.hidden }

def reserve (count : Nat) : Declared := { declared with slots := declared.slots ++ List.replicate count none }

def position (x : String) : Option Nat := declared.slots.idxOf? (some x)

def after : Event → Declared
  | .allocate x _ false => declared.write x
  | .allocate x _ true => declared.hide x
  | .register x node => { declared with statics := (x, node) :: declared.statics }
  | .foreach var _ source _ =>
    let hidden := (foreachLocals source (declared.foreachs % 65536)).map (·.1)
    hidden.foldl hide ({ declared with foreachs := declared.foreachs + 1 }.write var)
  | .switchOn _ => declared.reserve 1
  | .stage _ _ | .assign _ _ _ | .initStatic _ _ | .result _ _ => declared

def IsNewest (x : String) (node : Nat) : List (String × Nat) → Prop
  | [] => False
  | (y, n) :: older => if y = x then n = node ∧ node ∉ older.map (·.2) else IsNewest x node older

instance decidableIsNewest (x : String) (node : Nat) :
    (statics : List (String × Nat)) → Decidable (IsNewest x node statics)
  | [] => isFalse id
  | (y, n) :: older =>
    have := decidableIsNewest x node older
    inferInstanceAs (Decidable (if y = x then n = node ∧ node ∉ older.map (·.2) else IsNewest x node older))

def Admits : Binding → Prop
  | .local x => some x ∈ declared.slots
  | .field x .perObject | .field x .perClass => some x ∉ declared.slots
  | .staticLocal x node => IsNewest x node declared.statics
  | .field _ .folded | .constant _ => True

instance : (b : Binding) → Decidable (declared.Admits b)
  | .local x => inferInstanceAs (Decidable (some x ∈ declared.slots))
  | .field x .perObject | .field x .perClass => inferInstanceAs (Decidable (some x ∉ declared.slots))
  | .staticLocal x node => inferInstanceAs (Decidable (IsNewest x node declared.statics))
  | .field _ .folded | .constant _ => isTrue trivial

end Declared

def declaredParams (f : FunctionDecl) : Declared :=
  (f.params.map (·.1)).foldl Declared.write ((f.receiver.toList.map fun _ => "__this").foldl Declared.hide {})

def declaredFrame (f : FunctionDecl) (stats : CallSlotStats) : Declared :=
  (declaredParams f).reserve (f.returnType.toList.length + 4 + max stats.maxArgs 1 + stats.peakDepth)

def Event.uses : Event → List Binding
  | .allocate _ _ _ | .register _ _ => []
  | .stage operands _ => operands.names
  | .assign target _ value | .initStatic target value => target :: value.names
  | .foreach _ _ _ iterable => iterable.names
  | .switchOn condition => condition.names
  | .result value _ => value.names

def BoundFirst : Declared → List Event → Prop
  | _, [] => True
  | declared, event :: rest =>
    (∀ b ∈ event.uses, (declared.after event).Admits b) ∧ BoundFirst (declared.after event) rest

instance decidableBoundFirst : (declared : Declared) → (events : List Event) → Decidable (BoundFirst declared events)
  | _, [] => isTrue trivial
  | declared, event :: rest =>
    have := decidableBoundFirst (declared.after event) rest
    inferInstanceAs (Decidable ((∀ b ∈ event.uses, (declared.after event).Admits b) ∧
      BoundFirst (declared.after event) rest))

namespace FuncContext

def storageOf (ctx : FuncContext) : Binding → Option BareIdTarget
  | .local x => (ctx.findLocal x).map fun d => .local d.slot
  | .staticLocal _ node =>
    if node ∈ ctx.staticSlots then some (.staticLocal (ctx.staticBase + ctx.staticSlots.idxOf node)) else none
  | .field x .perObject => some (.thisField x)
  | .field x .perClass => some (.staticField x)
  | .field _ .folded | .constant _ => some .constant

end FuncContext

structure NamesAddressed (program hidden : List String) (ctx : FuncContext) : Prop where
  accesses : ∀ a ∈ ctx.accesses, ctx.storageOf a.1 = some a.2
  apart : ∀ x y d d', ctx.findLocal x = some d → ctx.findLocal y = some d' → x ≠ y → d.slot ≠ d'.slot
  unshared : ∀ x ∈ program, ∀ y ∈ hidden, ∀ d d', ctx.findLocal x = some d → ctx.findLocal y = some d' →
    d.slot ≠ d'.slot

structure NamesSeparate (start : Declared) (events : List Event) : Prop where
  bound : BoundFirst start events
  apart : ∀ x y p q, (events.foldl Declared.after start).position x = some p →
    (events.foldl Declared.after start).position y = some q → x ≠ y → slotAt p ≠ slotAt q
  unshared : List.Disjoint (events.foldl Declared.after start).program
    (events.foldl Declared.after start).hidden

def staticRows (base : Nat) : List (String × Nat) → List (String × Nat)
  | [] => []
  | (x, _) :: older => (x, base + older.length) :: staticRows base older

structure Matches (declared : Declared) (ctx : FuncContext) : Prop where
  next : ctx.nextOffset = declared.slots.length
  positions : ∀ x, (ctx.findLocal x).map (·.position) = declared.position x
  statics : ctx.staticSlots = (declared.statics.map (·.2)).reverse
  rows : ctx.staticLocalSlots = staticRows ctx.staticBase declared.statics
  counter : ctx.foreachCounter = declared.foreachs
  claimed : ∀ x ∈ declared.program ++ declared.hidden, some x ∈ declared.slots

theorem mem_claimSlot (slots : List (Option String)) (x : String) : some x ∈ claimSlot slots x := by
  unfold claimSlot
  split
  · assumption
  · exact List.mem_append_right _ (List.mem_singleton_self _)

theorem prefix_claimSlot (slots : List (Option String)) (x : String) : slots <+: claimSlot slots x := by
  unfold claimSlot
  split
  · exact List.prefix_rfl
  · exact List.prefix_append _ _

namespace Matches
variable {declared : Declared} {ctx : FuncContext}

theorem findLocal_eq_none (matched : Matches declared ctx) (x : String) :
    ctx.findLocal x = none ↔ some x ∉ declared.slots := by
  have position := matched.positions x
  rw [← Option.map_eq_none_iff (f := fun d : LocalDescriptor => d.position), position]
  exact List.idxOf?_eq_none_iff

theorem findLocal_isSome (matched : Matches declared ctx) (x : String) :
    (ctx.findLocal x).isSome ↔ some x ∈ declared.slots := by
  have missing := matched.findLocal_eq_none x
  rw [← Option.not_isSome_iff_eq_none] at missing
  exact not_iff_not.mp missing

theorem claim (matched : Matches declared ctx) (x : String) (kind : Rtk) (isParam : Bool) :
    Matches { declared with slots := claimSlot declared.slots x } (ctx.allocLocal x kind isParam) := by
  obtain ⟨there, same⟩ | ⟨fresh, same⟩ := FuncContext.allocLocal_cases ctx x kind isParam
  · rw [same, claimSlot, if_pos ((matched.findLocal_isSome x).mp there)]
    exact matched
  · rw [same, claimSlot, if_neg ((matched.findLocal_eq_none x).mp fresh)]
    refine ⟨?_, ?_, matched.statics, matched.rows, matched.counter, ?_⟩
    · simp [matched.next]
    · intro y
      have old := matched.positions y
      simp only [FuncContext.findLocal, Declared.position, List.idxOf?, List.find?_append,
        List.findIdx?_append] at old ⊢
      rw [Option.map_or, old, matched.next]
      by_cases same : x = y
      · subst same
        simp
      · simp [same]
    · intro y member
      exact List.mem_append_left _ (matched.claimed y member)

theorem write (matched : Matches declared ctx) (x : String) (kind : Rtk) (isParam : Bool) :
    Matches (declared.write x) (ctx.allocLocal x kind isParam) := by
  have claimed := matched.claim x kind isParam
  refine ⟨claimed.next, claimed.positions, claimed.statics, claimed.rows, claimed.counter, ?_⟩
  intro y member
  rcases List.mem_cons.mp member with rfl | old
  · exact mem_claimSlot declared.slots y
  · exact claimed.claimed y old

theorem hide (matched : Matches declared ctx) (x : String) (kind : Rtk) (isParam : Bool) :
    Matches (declared.hide x) (ctx.allocLocal x kind isParam) := by
  have claimed := matched.claim x kind isParam
  refine ⟨claimed.next, claimed.positions, claimed.statics, claimed.rows, claimed.counter, ?_⟩
  intro y member
  rcases List.mem_append.mp member with program | hidden
  · exact claimed.claimed y (List.mem_append_left _ program)
  · rcases List.mem_cons.mp hidden with rfl | old
    · exact mem_claimSlot declared.slots y
    · exact claimed.claimed y (List.mem_append_right _ old)

theorem count (matched : Matches declared ctx) :
    Matches { declared with foreachs := declared.foreachs + 1 }
      { ctx with foreachCounter := ctx.foreachCounter + 1 } :=
  ⟨matched.next, matched.positions, matched.statics, matched.rows, congrArg (· + 1) matched.counter,
    matched.claimed⟩

theorem hideAll (names : List (String × DeclType)) (isParam : Bool) {declared : Declared}
    {ctx : FuncContext} (matched : Matches declared ctx) :
    Matches ((names.map (·.1)).foldl Declared.hide declared) (ctx.allocLocals names isParam) := by
  induction names generalizing declared ctx with
  | nil => exact matched
  | cons first rest ih => exact ih (matched.hide first.1 _ isParam)

theorem writeAll (names : List (String × DeclType)) (isParam : Bool) {declared : Declared}
    {ctx : FuncContext} (matched : Matches declared ctx) :
    Matches ((names.map (·.1)).foldl Declared.write declared) (ctx.allocLocals names isParam) := by
  induction names generalizing declared ctx with
  | nil => exact matched
  | cons first rest ih => exact ih (matched.write first.1 _ isParam)

theorem reserve (matched : Matches declared ctx) (count : Nat) :
    Matches (declared.reserve count) { ctx with nextOffset := ctx.nextOffset + count } := by
  refine ⟨?_, ?_, matched.statics, matched.rows, matched.counter, ?_⟩
  · simp [Declared.reserve, matched.next]
  · intro x
    have old := matched.positions x
    have unnamed : (List.replicate count (none : Option String)).findIdx? (· == some x) = none := by
      simp
    simp only [FuncContext.findLocal, Declared.reserve, Declared.position, List.idxOf?,
      List.findIdx?_append] at old ⊢
    rw [old, unnamed]
    simp
  · intro x member
    exact List.mem_append_left _ (matched.claimed x member)

theorem access (matched : Matches declared ctx) (bindings : List Binding) :
    Matches declared (ctx.access bindings) :=
  ⟨matched.next, matched.positions, matched.statics, matched.rows, matched.counter, matched.claimed⟩

theorem evaluate (matched : Matches declared ctx) (position : Nat) (e : Expr Binding) (stays : Bool) :
    Matches declared (ctx.evaluate position e stays) :=
  ⟨matched.next, matched.positions, matched.statics, matched.rows, matched.counter, matched.claimed⟩

theorem step (matched : Matches declared ctx) (layout : FrameLayout) (event : Event) :
    Matches (declared.after event) (ctx.step layout event) := by
  cases event with
  | allocate x type hidden =>
    cases hidden with
    | false => exact matched.write x _ false
    | true => exact matched.hide x _ false
  | register x node =>
    refine ⟨matched.next, matched.positions, ?_, ?_, matched.counter, matched.claimed⟩
    · show ctx.staticSlots ++ [node] = _
      simp [Declared.after, matched.statics]
    · show (x, ctx.staticBase + ctx.staticSlots.length) :: ctx.staticLocalSlots =
        staticRows ctx.staticBase ((x, node) :: declared.statics)
      simp [matched.rows, matched.statics, staticRows]
  | stage operands calls => exact (matched.access _).evaluate _ _ _
  | assign target type value =>
    simp only [FuncContext.step]
    split
    · exact (matched.access _).evaluate _ _ _
    · exact (matched.access _).evaluate _ _ _
  | initStatic target value => exact (matched.access _).evaluate _ _ _
  | «foreach» var type source iterable =>
    have hidden := (matched.count.write var (runtimeTypeKind type) false).hideAll
      (foreachLocals source (ctx.foreachCounter % 65536)) false
    rw [← matched.counter] at hidden
    simp only [Declared.after, FuncContext.step]
    rw [← matched.counter]
    exact (hidden.access _).evaluate _ _ _
  | switchOn condition => exact ((matched.reserve 1).access _).evaluate _ _ _
  | result value guarded => exact (matched.access _).evaluate _ _ _

theorem run (layout : FrameLayout) (events : List Event) {declared : Declared} {ctx : FuncContext}
    (matched : Matches declared ctx) :
    Matches (events.foldl Declared.after declared)
      (events.foldl (fun ctx event => ctx.step layout event) ctx) := by
  induction events generalizing declared ctx with
  | nil => exact matched
  | cons event rest ih => exact ih (matched.step layout event)

theorem params (f : FunctionDecl) (staticBase : Nat) :
    Matches (declaredParams f) (allocParams f staticBase) := by
  have empty : Matches {} { staticBase } := ⟨rfl, fun _ => rfl, rfl, rfl, rfl, by simp⟩
  have receiver := empty.hideAll (f.receiver.toList.map fun type => ("__this", type)) true
  have both := receiver.writeAll f.params true
  rw [List.map_map] at both
  rw [allocParams, FunctionDecl.slots, FuncContext.allocLocals, List.foldl_append]
  exact both

theorem start (f : FunctionDecl) (stats : CallSlotStats) (staticBase : Nat) :
    Matches (declaredFrame f stats)
      { allocParams f staticBase with nextOffset := (FunctionDecl.layout f stats).localsBase } := by
  have reserved := (params f staticBase).reserve
    (f.returnType.toList.length + 4 + max stats.maxArgs 1 + stats.peakDepth)
  have next : (FunctionDecl.layout f stats).localsBase = (allocParams f staticBase).nextOffset +
      (f.returnType.toList.length + 4 + max stats.maxArgs 1 + stats.peakDepth) := by
    rw [(params f staticBase).next, ← (params f 0).next]
    cases returned : f.returnType with
    | none => simp [FunctionDecl.layout, reserveReturnAndCallSlots, returned]; omega
    | some type => simp [FunctionDecl.layout, reserveReturnAndCallSlots, returned]; omega
  rw [next]
  exact reserved

end Matches

structure Grows (declared last : Declared) : Prop where
  slots : declared.slots <+: last.slots
  statics : declared.statics <:+ last.statics

namespace Grows
variable {declared middle last : Declared}

theorem refl (declared : Declared) : Grows declared declared := ⟨List.prefix_rfl, List.suffix_rfl⟩

theorem trans (first : Grows declared middle) (second : Grows middle last) : Grows declared last :=
  ⟨first.slots.trans second.slots, first.statics.trans second.statics⟩

theorem write (declared : Declared) (x : String) : Grows declared (declared.write x) :=
  ⟨prefix_claimSlot declared.slots x, List.suffix_rfl⟩

theorem hideAll (names : List String) (declared : Declared) :
    Grows declared (names.foldl Declared.hide declared) := by
  induction names generalizing declared with
  | nil => exact refl declared
  | cons x rest ih =>
    have first : Grows declared (declared.hide x) := ⟨prefix_claimSlot declared.slots x, List.suffix_rfl⟩
    exact first.trans (ih _)

theorem after (declared : Declared) (event : Event) : Grows declared (declared.after event) := by
  cases event with
  | allocate x type hidden =>
    cases hidden with
    | false => exact write declared x
    | true => exact hideAll [x] declared
  | register x node => exact ⟨List.prefix_rfl, List.suffix_cons _ _⟩
  | «foreach» var type source iterable =>
    have counted : Grows declared { declared with foreachs := declared.foreachs + 1 } :=
      ⟨List.prefix_rfl, List.suffix_rfl⟩
    exact (counted.trans (write _ var)).trans (hideAll _ _)
  | switchOn condition => exact ⟨List.prefix_append _ _, List.suffix_rfl⟩
  | stage operands calls => exact refl declared
  | assign target type value => exact refl declared
  | initStatic target value => exact refl declared
  | result value guarded => exact refl declared

theorem run (events : List Event) (declared : Declared) :
    Grows declared (events.foldl Declared.after declared) := by
  induction events generalizing declared with
  | nil => exact refl declared
  | cons event rest ih => exact (after declared event).trans (ih _)

theorem position (grown : Grows declared last) {x : String} {p : Nat}
    (found : declared.position x = some p) : last.position x = some p := by
  obtain ⟨extra, same⟩ := grown.slots
  rw [Declared.position, ← same, List.idxOf?, List.findIdx?_append]
  rw [Declared.position, List.idxOf?] at found
  rw [found]
  rfl

end Grows

theorem length_eq_idxOf_iff (earlier later : List Nat) (n node : Nat) :
    node ∈ earlier ++ n :: later ∧ earlier.length = (earlier ++ n :: later).idxOf node ↔
      n = node ∧ node ∉ earlier := by
  rw [List.idxOf_append]
  by_cases before : node ∈ earlier
  · have inside := List.idxOf_lt_length_of_mem before
    simp [before]
    omega
  · by_cases same : n = node
    · simp [before, same]
    · simp [before, same]

theorem isNewest_iff (base : Nat) (x : String) (node : Nat) (statics newer : List (String × Nat))
    (rows : List Nat) (all : rows = ((newer ++ statics).map (·.2)).reverse) :
    Declared.IsNewest x node statics ↔
      node ∈ rows ∧ (staticRows base statics).lookup x = some (base + rows.idxOf node) := by
  induction statics generalizing newer with
  | nil => simp [Declared.IsNewest, staticRows]
  | cons head older ih =>
    obtain ⟨y, n⟩ := head
    by_cases same : y = x
    · have split : rows = (older.map (·.2)).reverse ++ n :: (newer.map (·.2)).reverse := by
        simp [all]
      have first := length_eq_idxOf_iff (older.map (·.2)).reverse (newer.map (·.2)).reverse n node
      rw [← split, List.length_reverse, List.length_map, List.mem_reverse] at first
      rw [Declared.IsNewest, if_pos same, ← first, same, staticRows, List.lookup_cons_self]
      simp
    · have skipped : (staticRows base ((y, n) :: older)).lookup x = (staticRows base older).lookup x := by
        rw [staticRows, List.lookup_cons, beq_false_of_ne (Ne.symm same)]
      rw [Declared.IsNewest, if_neg same, skipped]
      apply ih (newer ++ [(y, n)])
      rw [all, List.append_assoc, List.singleton_append]

theorem addresses_iff {declared last : Declared} {ctx final : FuncContext} (matched : Matches declared ctx)
    (matchedLast : Matches last final) (grown : Grows declared last)
    (base : final.staticBase = ctx.staticBase) (b : Binding) :
    final.storageOf b = some (ctx.resolveBareIdentifier b) ↔ declared.Admits b := by
  cases b with
  | «local» x =>
    simp only [FuncContext.storageOf, FuncContext.resolveBareIdentifier, Declared.Admits]
    cases found : ctx.findLocal x with
    | none => simpa using (matched.findLocal_eq_none x).mp found
    | some d =>
      have position : last.position x = some d.position := by
        apply grown.position
        rw [← matched.positions x, found]
        rfl
      rw [← matchedLast.positions x] at position
      obtain ⟨d', found', same⟩ := Option.map_eq_some_iff.mp position
      have there : some x ∈ declared.slots := by
        rw [← matched.findLocal_isSome x, found]
        rfl
      simp [found', there, LocalDescriptor.slot, same]
  | staticLocal x node =>
    obtain ⟨newer, same⟩ := grown.statics
    have newest := isNewest_iff ctx.staticBase x node declared.statics newer final.staticSlots
      (by rw [same, matchedLast.statics])
    rw [← matched.rows] at newest
    simp only [FuncContext.storageOf, FuncContext.resolveBareIdentifier, Declared.Admits]
    rw [newest, base]
    cases ctx.staticLocalSlots.lookup x with
    | none => simp
    | some slotIdx => simp [eq_comm]
  | field x storage =>
    cases storage with
    | perObject =>
      simp only [FuncContext.storageOf, FuncContext.resolveBareIdentifier, Declared.Admits]
      rw [← matched.findLocal_eq_none x]
      cases ctx.findLocal x with
      | none => simp
      | some d => simp
    | perClass =>
      simp only [FuncContext.storageOf, FuncContext.resolveBareIdentifier, Declared.Admits]
      rw [← matched.findLocal_eq_none x]
      cases ctx.findLocal x with
      | none => simp
      | some d => simp
    | folded => simp [FuncContext.storageOf, FuncContext.resolveBareIdentifier, Declared.Admits]
  | constant x => simp [FuncContext.storageOf, FuncContext.resolveBareIdentifier, Declared.Admits]

theorem step_staticBase (layout : FrameLayout) (ctx : FuncContext) (event : Event) :
    (ctx.step layout event).staticBase = ctx.staticBase := by
  cases event with
  | allocate x type hidden => exact (FuncContext.allocLocal_allocates ctx x _ false).staticBase
  | «foreach» var type source iterable => exact (FuncContext.allocLocals_allocates _ _ _).staticBase
  | assign target type value =>
    simp only [FuncContext.step]
    split
    · rfl
    · rfl
  | register x node => rfl
  | stage operands calls => rfl
  | initStatic target value => rfl
  | switchOn condition => rfl
  | result value guarded => rfl

theorem run_staticBase (layout : FrameLayout) (events : List Event) (ctx : FuncContext) :
    (events.foldl (fun ctx event => ctx.step layout event) ctx).staticBase = ctx.staticBase := by
  induction events generalizing ctx with
  | nil => rfl
  | cons event rest ih => exact (ih _).trans (step_staticBase layout ctx event)

theorem step_accesses (layout : FrameLayout) (ctx : FuncContext) (event : Event) :
    (ctx.step layout event).accesses = ctx.accesses ++
      event.uses.map fun b => (b, (ctx.step layout event).resolveBareIdentifier b) := by
  cases event with
  | allocate x type hidden =>
    rw [Event.uses, List.map_nil, List.append_nil]
    exact (FuncContext.allocLocal_allocates ctx x _ false).accesses
  | «foreach» var type source iterable =>
    have before := FuncContext.allocLocals_allocates
      ((var, type) :: foreachLocals source (ctx.foreachCounter % 65536)) false
      { ctx with foreachCounter := ctx.foreachCounter + 1 }
    simp only [FuncContext.step, FuncContext.access, FuncContext.evaluate, before.accesses, Event.uses]
    rfl
  | assign target type value =>
    simp only [FuncContext.step]
    split
    · rfl
    · rfl
  | register x node => simp [FuncContext.step, FuncContext.registerStatic, Event.uses]
  | stage operands calls => rfl
  | initStatic target value => rfl
  | switchOn condition => rfl
  | result value guarded => rfl

theorem run_addresses_iff (layout : FrameLayout) {last : Declared} {final : FuncContext}
    (matchedLast : Matches last final) (events : List Event) {declared : Declared} {ctx : FuncContext}
    (matched : Matches declared ctx)
    (ends : events.foldl Declared.after declared = last)
    (finish : events.foldl (fun ctx event => ctx.step layout event) ctx = final) :
    (∀ a ∈ final.accesses, final.storageOf a.1 = some a.2) ↔
      (∀ a ∈ ctx.accesses, final.storageOf a.1 = some a.2) ∧ BoundFirst declared events := by
  induction events generalizing declared ctx with
  | nil =>
    cases finish
    simp [BoundFirst]
  | cons event rest ih =>
    have now := matched.step layout event
    have grown : Grows (declared.after event) last := ends ▸ Grows.run rest (declared.after event)
    have base : final.staticBase = (ctx.step layout event).staticBase :=
      finish ▸ run_staticBase layout rest (ctx.step layout event)
    rw [ih now ends finish, step_accesses, BoundFirst]
    simp only [List.forall_mem_append, List.forall_mem_map,
      addresses_iff now matchedLast grown base, and_assoc]

theorem apart_iff {last : Declared} {final : FuncContext} (matched : Matches last final) :
    (∀ x y d d', final.findLocal x = some d → final.findLocal y = some d' → x ≠ y → d.slot ≠ d'.slot) ↔
      ∀ x y p q, last.position x = some p → last.position y = some q → x ≠ y → slotAt p ≠ slotAt q := by
  constructor
  · intro apart x y p q atX atY different
    rw [← matched.positions x] at atX
    rw [← matched.positions y] at atY
    obtain ⟨d, found, rfl⟩ := Option.map_eq_some_iff.mp atX
    obtain ⟨d', found', rfl⟩ := Option.map_eq_some_iff.mp atY
    exact apart x y d d' found found' different
  · intro apart x y d d' found found' different
    have atX := matched.positions x
    have atY := matched.positions y
    rw [found] at atX
    rw [found'] at atY
    exact apart x y _ _ atX.symm atY.symm different

theorem unshared_iff {last : Declared} {final : FuncContext} (matched : Matches last final)
    (apart : ∀ x y d d', final.findLocal x = some d → final.findLocal y = some d' → x ≠ y →
      d.slot ≠ d'.slot) :
    (∀ x ∈ last.program, ∀ y ∈ last.hidden, ∀ d d', final.findLocal x = some d →
      final.findLocal y = some d' → d.slot ≠ d'.slot) ↔ List.Disjoint last.program last.hidden := by
  constructor
  · intro unshared x written hidden
    have there := (matched.findLocal_isSome x).mpr (matched.claimed x (List.mem_append_left _ written))
    obtain ⟨d, found⟩ := Option.isSome_iff_exists.mp there
    exact unshared x written x hidden d d found found rfl
  · intro disjoint x written y hidden d d' found found'
    apply apart x y d d' found found'
    intro same
    cases same
    exact disjoint written hidden

theorem slotAt_position_ne {declared : Declared} (fits : declared.slots.length ≤ 8192) (x y : String)
    (p q : Nat) (atX : declared.position x = some p) (atY : declared.position y = some q) (different : x ≠ y) :
    slotAt p ≠ slotAt q := by
  obtain ⟨inside, isX, -⟩ := List.findIdx?_eq_some_iff_getElem.mp atX
  obtain ⟨inside', isY, -⟩ := List.findIdx?_eq_some_iff_getElem.mp atY
  intro same
  have equal : p = q := by
    rw [slotAt, slotAt, Nat.mod_eq_of_lt (Nat.lt_of_lt_of_le inside fits),
      Nat.mod_eq_of_lt (Nat.lt_of_lt_of_le inside' fits)] at same
    exact same
  subst equal
  apply different
  rw [beq_iff_eq] at isX isY
  exact Option.some.inj (isX.symm.trans isY)

/-- Every bare identifier of a function addresses its declaration, different names have different slots and no
hidden local shares one with a name of the program, just if the body keeps its names separate. -/
theorem bareNames_addressed_iff (f : FunctionDecl) (stats : CallSlotStats) (staticBase : Nat)
    (body : Stmt Binding) (_resolved : f.resolve = some body) :
    NamesAddressed ((body.events {}).foldl Declared.after (declaredFrame f stats)).program
        ((body.events {}).foldl Declared.after (declaredFrame f stats)).hidden
        (generateFunction f stats staticBase body) ↔
      NamesSeparate (declaredFrame f stats) (body.events {}) := by
  have start := Matches.start f stats staticBase
  have finish := start.run (FunctionDecl.layout f stats) (body.events {})
  have accessed := run_addresses_iff (FunctionDecl.layout f stats) finish (body.events {}) start rfl rfl
  have none : (allocParams f staticBase).accesses = [] :=
    (FuncContext.allocLocals_allocates _ _ _).accesses
  constructor
  · intro addressed
    exact ⟨(accessed.mp addressed.accesses).2, (apart_iff finish).mp addressed.apart,
      (unshared_iff finish addressed.apart).mp addressed.unshared⟩
  · intro separate
    have apart := (apart_iff finish).mpr separate.apart
    refine ⟨accessed.mpr ⟨?_, separate.bound⟩, apart, (unshared_iff finish apart).mpr separate.unshared⟩
    intro a member
    rw [none] at member
    exact absurd member List.not_mem_nil

def methodOfX (body : Stmt String) : FunctionDecl :=
  { receiver := some .cls, fields := fun name => if name = "x" then some .perObject else none, body }

def initX : List (Declarator String) :=
  [{ name := "x", type := .scalar .int32, target := "x", init := some (.value (.scalar .int32)) }]

def fieldFirst : FunctionDecl :=
  methodOfX (.seq (.assign "x" (.scalar .int32) (.value (.scalar .int32))) (.block (.decl false initX)))

def fieldFirstBody : Stmt Binding :=
  .seq (.assign (.field "x" .perObject) (.scalar .int32) (.value (.scalar .int32)))
    (.block (.decl false [{ name := "x", type := .scalar .int32, target := .local "x"
                            init := some (.value (.scalar .int32)) }]))

theorem fieldFirst_addressed :
    fieldFirst.resolve = some fieldFirstBody ∧
      NamesAddressed ["x"] ["__this"] (generateFunction fieldFirst { peakDepth := 1 } 0 fieldFirstBody) := by
  have resolved : fieldFirst.resolve = some fieldFirstBody := rfl
  have addressed := bareNames_addressed_iff fieldFirst { peakDepth := 1 } 0 fieldFirstBody resolved
  refine ⟨resolved, addressed.mpr ⟨by decide, slotAt_position_ne (by decide), ?_⟩⟩
  intro x written hidden
  cases List.mem_singleton.mp written
  exact absurd hidden (by decide)

def localFirst : FunctionDecl :=
  methodOfX (.seq (.block (.decl false initX)) (.assign "x" (.scalar .int32) (.value (.scalar .int32))))

def localFirstBody : Stmt Binding :=
  .seq (.block (.decl false [{ name := "x", type := .scalar .int32, target := .local "x"
                               init := some (.value (.scalar .int32)) }]))
    (.assign (.field "x" .perObject) (.scalar .int32) (.value (.scalar .int32)))

theorem localFirst_field_in_frame :
    localFirst.resolve = some localFirstBody ∧
      ¬ NamesAddressed ["x"] ["__this"] (generateFunction localFirst { peakDepth := 1 } 0 localFirstBody) := by
  refine ⟨rfl, ?_⟩
  intro addressed
  have emitted := addressed.accesses (.field "x" .perObject, .local 7) (by decide)
  exact absurd emitted (by decide)

end NLang.Backend
