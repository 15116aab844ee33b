import NLang.Backend.BareNames
import NLang.Backend.RootMap

/-!
# Which frame slots are scanned

A slot can hold what its declarations and the emission of expressions put there. The class that the root map
has for it comes from the first declaration of its name, from the return type or from the claims alone, so it
can miss a domain that a later user of the slot needs.
-/

namespace NLang.Backend
open NLang.Compiler NLang.Vm

def Event.declarations (counter : Nat) : Event → List (String × DeclType)
  | .allocate x type _ => [(x, type)]
  | .foreach var type source _ => (var, type) :: foreachLocals source (counter % 65536)
  | .register _ _ | .stage _ _ | .assign _ _ _ | .initStatic _ _ | .switchOn _ | .result _ _ => []

def Event.foreachs : Event → Nat
  | .foreach _ _ _ _ => 1
  | _ => 0

def declarationsOf : Nat → List Event → List (String × DeclType)
  | _, [] => []
  | counter, event :: rest => event.declarations counter ++ declarationsOf (counter + event.foreachs) rest

def frameDeclarations (f : FunctionDecl) (body : Stmt Binding) : List (String × DeclType) :=
  FunctionDecl.slots f ++ declarationsOf 0 (body.events {})

def waiting (e : Expr Binding) (stays : Bool) : List DeclType := e.spills ++ if stays then [e.type] else []

def heldSlots (f : FunctionDecl) (stats : CallSlotStats) (staticBase : Nat) (body : Stmt Binding) :
    List (Nat × DeclType) :=
  let layout := FunctionDecl.layout f stats
  let ctx := generateFunction f stats staticBase body
  (frameDeclarations f body).map (fun (x, type) => (ctx.positionOf x, type)) ++
    ctx.evaluations.flatMap fun (position, e, stays) =>
      (waiting e stays).map (position, ·) ++ e.parks layout.evalAreaBase ++
        e.passes.flatMap fun types => types.zipIdx.map fun (type, i) => (layout.callParamBase + i, type)

def RootMapSound (f : FunctionDecl) (stats : CallSlotStats) (staticBase : Nat) (body : Stmt Binding) : Prop :=
  ∀ held ∈ heldSlots f stats staticBase body,
    FrameMarks (compileFunction f stats staticBase body) (slotAt held.1) held.2

structure FitsFrame (f : FunctionDecl) (stats : CallSlotStats) (staticBase : Nat) (body : Stmt Binding) :
    Prop where
  claims : ∀ claim ∈ claimsOf (FunctionDecl.layout f stats) (generateFunction f stats staticBase body),
    claim.base + claim.slots ≤ (FunctionDecl.layout f stats).localsBase
  passes : ∀ evaluation ∈ (generateFunction f stats staticBase body).evaluations,
    ∀ types ∈ evaluation.2.1.passes, types.length ≤ max stats.maxArgs 1
  offsets : (generateFunction f stats staticBase body).nextOffset < 8192
  receiver : f.receiver.isSome → "__this" ∉ f.params.map (·.1)

def nameClass (decls : List (String × DeclType)) (x : String) : EvalSlotClass :=
  match decls.lookup x with
  | some type => evalSlotClassOfKind (runtimeTypeKind type)
  | none => escNone

def returnClass (f : FunctionDecl) : EvalSlotClass :=
  match f.returnType with
  | some type => evalSlotClassOfKind (runtimeTypeKind type)
  | none => escDual

def foreachIter (source : ForeachSource) (counter : Nat) : String :=
  ((foreachLocals source (counter % 65536)).map (·.1)).headD ""

def Event.Covered (decls : List (String × DeclType)) (result : EvalSlotClass) (counter : Nat) : Event → Prop
  | .result value guarded => ∀ type ∈ waiting value guarded, Covers result type
  | .foreach _ _ source iterable =>
    ∀ type ∈ waiting iterable true, Covers (nameClass decls (foreachIter source counter)) type
  | .switchOn condition => ∀ type ∈ waiting condition true, Covers escNone type
  | .allocate _ _ _ | .register _ _ | .stage _ _ | .assign _ _ _ | .initStatic _ _ => True

def EventsCovered (decls : List (String × DeclType)) (result : EvalSlotClass) : Nat → List Event → Prop
  | _, [] => True
  | counter, event :: rest =>
    event.Covered decls result counter ∧ EventsCovered decls result (counter + event.foreachs) rest

instance decidableCovered (decls : List (String × DeclType)) (result : EvalSlotClass) (counter : Nat) :
    (event : Event) → Decidable (event.Covered decls result counter)
  | .result value guarded => inferInstanceAs (Decidable (∀ type ∈ waiting value guarded, Covers result type))
  | .foreach _ _ source iterable => inferInstanceAs (Decidable (∀ type ∈ waiting iterable true,
      Covers (nameClass decls (foreachIter source counter)) type))
  | .switchOn condition => inferInstanceAs (Decidable (∀ type ∈ waiting condition true, Covers escNone type))
  | .allocate _ _ _ | .register _ _ | .stage _ _ | .assign _ _ _ | .initStatic _ _ => isTrue trivial

instance decidableEventsCovered (decls : List (String × DeclType)) (result : EvalSlotClass) :
    (counter : Nat) → (events : List Event) → Decidable (EventsCovered decls result counter events)
  | _, [] => isTrue trivial
  | counter, event :: rest =>
    have := decidableEventsCovered decls result (counter + event.foreachs) rest
    inferInstanceAs (Decidable (event.Covered decls result counter ∧
      EventsCovered decls result (counter + event.foreachs) rest))

/-- The condition on a function: declarations of one name agree on the domains, return types cover what is
evaluated in the return slot, no `switch` is on a reference, and what waits in claims that are not for strings
is no string. -/
structure RootsCovered (f : FunctionDecl) (stats : CallSlotStats) (staticBase : Nat) (body : Stmt Binding) :
    Prop where
  declared : ∀ decl ∈ frameDeclarations f body, Covers (nameClass (frameDeclarations f body) decl.1) decl.2
  results : EventsCovered (frameDeclarations f body) (returnClass f) 0 (body.events {})
  parked : ∀ evaluation ∈ (generateFunction f stats staticBase body).evaluations,
    ∀ park ∈ evaluation.2.1.parks (FunctionDecl.layout f stats).evalAreaBase,
      Covers (claimClass (claimsOf (FunctionDecl.layout f stats)
        (generateFunction f stats staticBase body)) park.1) park.2

structure Typed (paramCount : Nat) (decls : List (String × DeclType)) (slots : List (Option String))
    (locals : List LocalDescriptor) : Prop where
  owned : ∀ d ∈ locals, slots[d.position]? = some (some d.name)
  once : ∀ x (p q : Nat), slots[p]? = some (some x) → slots[q]? = some (some x) → p = q
  complete : ∀ x (p : Nat), slots[p]? = some (some x) → ∃ d ∈ locals, d.name = x ∧ d.position = p
  kinds : ∀ d ∈ locals, ∃ type, decls.lookup d.name = some type ∧ d.kind = runtimeTypeKind type
  names : ∀ decl ∈ decls, some decl.1 ∈ slots
  params : ∀ d ∈ locals, d.isParam = true ↔ d.position < paramCount

theorem slots_snoc {slots : List (Option String)} {x y : String} {p : Nat} :
    (slots ++ [some x])[p]? = some (some y) ↔
      slots[p]? = some (some y) ∨ p = slots.length ∧ x = y := by
  rw [List.getElem?_append]
  split
  · rename_i inside
    constructor
    · exact .inl
    · rintro (found | ⟨rfl, -⟩)
      · exact found
      · exact absurd inside (Nat.lt_irrefl _)
  · rename_i outside
    have missing : slots[p]? = none := List.getElem?_eq_none (Nat.le_of_not_lt outside)
    rw [missing, List.getElem?_singleton]
    by_cases last : p = slots.length
    · simp [last]
    · have later : p - slots.length ≠ 0 := by omega
      simp [last, later]

theorem slots_reserve {slots : List (Option String)} {y : String} {p count : Nat} :
    (slots ++ List.replicate count none)[p]? = some (some y) ↔ slots[p]? = some (some y) := by
  rw [List.getElem?_append]
  split
  · rfl
  · rename_i outside
    rw [List.getElem?_eq_none (Nat.le_of_not_lt outside), List.getElem?_replicate]
    split
    · simp
    · simp

theorem claimSlot_length (slots : List (Option String)) (x : String) :
    (claimSlot slots x).length ≤ slots.length + 1 := by
  unfold claimSlot
  split
  · exact Nat.le_succ _
  · simp

theorem foldl_hide_foreachs (names : List String) (declared : Declared) :
    (names.foldl Declared.hide declared).foreachs = declared.foreachs := by
  induction names generalizing declared with
  | nil => rfl
  | cons x rest ih => exact ih (declared.hide x)

theorem foldl_write_foreachs (names : List String) (declared : Declared) :
    (names.foldl Declared.write declared).foreachs = declared.foreachs := by
  induction names generalizing declared with
  | nil => rfl
  | cons x rest ih => exact ih (declared.write x)

theorem after_foreachs (declared : Declared) (event : Event) :
    (declared.after event).foreachs = declared.foreachs + event.foreachs := by
  cases event with
  | allocate x type isHidden => cases isHidden <;> rfl
  | «foreach» var type source iterable => exact foldl_hide_foreachs _ _
  | _ => rfl

namespace Typed
variable {paramCount : Nat} {decls : List (String × DeclType)} {declared : Declared} {ctx : FuncContext}

theorem lookup_append_of_some {x y : String} {type other : DeclType} (found : decls.lookup x = some type) :
    (decls ++ [(y, other)]).lookup x = some type := by
  rw [List.lookup_append, found]
  rfl

theorem claim (typed : Typed paramCount decls declared.slots ctx.locals) (matched : Matches declared ctx) (x : String)
    (type : DeclType) (isParam : Bool) (place : isParam = true ↔ ctx.nextOffset < paramCount) :
    Typed paramCount (decls ++ [(x, type)]) (claimSlot declared.slots x)
      (ctx.allocLocal x (runtimeTypeKind type) isParam).locals := by
  obtain ⟨there, same⟩ | ⟨fresh, same⟩ := FuncContext.allocLocal_cases ctx x (runtimeTypeKind type) isParam
  · have member := (matched.findLocal_isSome x).mp there
    rw [same, claimSlot, if_pos member]
    refine ⟨typed.owned, typed.once, typed.complete, ?_, ?_, typed.params⟩
    · intro d inLocals
      obtain ⟨first, found, kind⟩ := typed.kinds d inLocals
      exact ⟨first, lookup_append_of_some found, kind⟩
    · intro decl inDecls
      rcases List.mem_append.mp inDecls with old | last
      · exact typed.names decl old
      · cases List.mem_singleton.mp last
        exact member
  · have missing := (matched.findLocal_eq_none x).mp fresh
    have unknown : decls.lookup x = none := by
      rw [List.lookup_eq_none_iff]
      intro decl inDecls
      have there := typed.names decl inDecls
      rw [bne_iff_ne]
      intro equal
      rw [← equal] at there
      exact missing there
    rw [same, claimSlot, if_neg missing]
    refine ⟨?_, ?_, ?_, ?_, ?_, ?_⟩
    · intro d inLocals
      rw [slots_snoc]
      rcases List.mem_append.mp inLocals with old | last
      · exact .inl (typed.owned d old)
      · cases List.mem_singleton.mp last
        exact .inr ⟨matched.next, rfl⟩
    · intro y p q first second
      rw [slots_snoc] at first second
      rcases first with first | ⟨rfl, rfl⟩
      · rcases second with second | ⟨-, rfl⟩
        · exact typed.once y p q first second
        · exact absurd (List.mem_of_getElem? first) missing
      · rcases second with second | ⟨rfl, -⟩
        · exact absurd (List.mem_of_getElem? second) missing
        · rfl
    · intro y p found
      rw [slots_snoc] at found
      rcases found with old | ⟨rfl, rfl⟩
      · obtain ⟨d, inLocals, named, placed⟩ := typed.complete y p old
        exact ⟨d, List.mem_append_left _ inLocals, named, placed⟩
      · exact ⟨_, List.mem_append_right _ (List.mem_singleton_self _), rfl, matched.next⟩
    · intro d inLocals
      rcases List.mem_append.mp inLocals with old | last
      · obtain ⟨first, found, kind⟩ := typed.kinds d old
        exact ⟨first, lookup_append_of_some found, kind⟩
      · cases List.mem_singleton.mp last
        refine ⟨type, ?_, rfl⟩
        rw [List.lookup_append, unknown]
        simp
    · intro decl inDecls
      rcases List.mem_append.mp inDecls with old | last
      · exact List.mem_append_left _ (typed.names decl old)
      · cases List.mem_singleton.mp last
        exact List.mem_append_right _ (List.mem_singleton_self _)
    · intro d inLocals
      rcases List.mem_append.mp inLocals with old | last
      · exact typed.params d old
      · cases List.mem_singleton.mp last
        exact place

theorem reserve (typed : Typed paramCount decls declared.slots ctx.locals) (count : Nat) :
    Typed paramCount decls (declared.reserve count).slots ctx.locals := by
  refine ⟨?_, ?_, ?_, typed.kinds, ?_, typed.params⟩
  · intro d inLocals
    exact slots_reserve.mpr (typed.owned d inLocals)
  · intro x p q first second
    exact typed.once x p q (slots_reserve.mp first) (slots_reserve.mp second)
  · intro x p found
    exact typed.complete x p (slots_reserve.mp found)
  · intro decl inDecls
    exact List.mem_append_left _ (typed.names decl inDecls)

theorem hideAll (names : List (String × DeclType)) {decls : List (String × DeclType)} {declared : Declared}
    {ctx : FuncContext} (typed : Typed paramCount decls declared.slots ctx.locals)
    (matched : Matches declared ctx) (behind : paramCount ≤ declared.slots.length) :
    Typed paramCount (decls ++ names) ((names.map (·.1)).foldl Declared.hide declared).slots
      (ctx.allocLocals names false).locals := by
  induction names generalizing decls declared ctx with
  | nil =>
    rw [List.append_nil]
    exact typed
  | cons first rest ih =>
    have place : false = true ↔ ctx.nextOffset < paramCount := by
      rw [matched.next]
      simp [behind]
    have claimed : Typed paramCount (decls ++ [first]) (declared.hide first.1).slots
        (ctx.allocLocal first.1 (runtimeTypeKind first.2) false).locals :=
      typed.claim matched first.1 first.2 false place
    have longer := (prefix_claimSlot declared.slots first.1).length_le
    have more := ih claimed (matched.hide first.1 _ false) (Nat.le_trans behind longer)
    rw [List.append_assoc] at more
    exact more

theorem step (typed : Typed paramCount decls declared.slots ctx.locals) (matched : Matches declared ctx)
    (behind : paramCount ≤ declared.slots.length) (layout : FrameLayout) (event : Event) :
    Typed paramCount (decls ++ event.declarations declared.foreachs) (declared.after event).slots
      (ctx.step layout event).locals := by
  have place : false = true ↔ ctx.nextOffset < paramCount := by
    rw [matched.next]
    simp [behind]
  cases event with
  | allocate x type hidden =>
    have claimed := typed.claim matched x type false place
    cases hidden with
    | false => exact claimed
    | true => exact claimed
  | «foreach» var type source iterable =>
    obtain ⟨slots, program, hidden, statics, foreachs⟩ := declared
    obtain rfl : ctx.foreachCounter = foreachs := matched.counter
    let declared : Declared := ⟨slots, program, hidden, statics, ctx.foreachCounter⟩
    let counting : FuncContext := { ctx with foreachCounter := ctx.foreachCounter + 1 }
    let counted : Declared := { declared with foreachs := declared.foreachs + 1 }
    have before : Typed paramCount decls counted.slots counting.locals := typed
    have claimed : Typed paramCount (decls ++ [(var, type)]) (counted.write var).slots
        (counting.allocLocal var (runtimeTypeKind type) false).locals :=
      before.claim matched.count var type false place
    have longer := (prefix_claimSlot declared.slots var).length_le
    have more := hideAll (foreachLocals source (ctx.foreachCounter % 65536)) claimed
      (matched.count.write var _ false) (Nat.le_trans behind longer)
    rw [List.append_assoc] at more
    exact more
  | switchOn condition =>
    rw [Event.declarations, List.append_nil]
    exact typed.reserve 1
  | assign target type value =>
    simp only [Event.declarations, List.append_nil, FuncContext.step, Declared.after]
    split
    · exact typed
    · exact typed
  | register x node =>
    rw [Event.declarations, List.append_nil]
    exact typed
  | stage operands calls =>
    rw [Event.declarations, List.append_nil]
    exact typed
  | initStatic target value =>
    rw [Event.declarations, List.append_nil]
    exact typed
  | result value guarded =>
    rw [Event.declarations, List.append_nil]
    exact typed

theorem run (layout : FrameLayout) (events : List Event) {decls : List (String × DeclType)}
    {declared : Declared} {ctx : FuncContext} (typed : Typed paramCount decls declared.slots ctx.locals)
    (matched : Matches declared ctx) (behind : paramCount ≤ declared.slots.length) :
    Typed paramCount (decls ++ declarationsOf declared.foreachs events)
      (events.foldl Declared.after declared).slots
      (events.foldl (fun ctx event => ctx.step layout event) ctx).locals := by
  induction events generalizing decls declared ctx with
  | nil =>
    rw [declarationsOf, List.append_nil]
    exact typed
  | cons event rest ih =>
    have longer := (Grows.after declared event).slots.length_le
    have more := ih (typed.step matched behind layout event) (matched.step layout event) (Nat.le_trans behind longer)
    rw [List.append_assoc, after_foreachs] at more
    exact more

theorem writeParams (names : List (String × DeclType)) {decls : List (String × DeclType)}
    {declared : Declared} {ctx : FuncContext} (typed : Typed paramCount decls declared.slots ctx.locals)
    (matched : Matches declared ctx) (front : declared.slots.length + names.length ≤ paramCount) :
    Typed paramCount (decls ++ names) ((names.map (·.1)).foldl Declared.write declared).slots
      (ctx.allocLocals names true).locals := by
  induction names generalizing decls declared ctx with
  | nil =>
    rw [List.append_nil]
    exact typed
  | cons first rest ih =>
    rw [List.length_cons] at front
    have place : true = true ↔ ctx.nextOffset < paramCount := by
      rw [matched.next]
      simp
      omega
    have claimed : Typed paramCount (decls ++ [first]) (declared.write first.1).slots
        (ctx.allocLocal first.1 (runtimeTypeKind first.2) true).locals :=
      typed.claim matched first.1 first.2 true place
    have longer : (declared.write first.1).slots.length ≤ declared.slots.length + 1 :=
      claimSlot_length declared.slots first.1
    have more := ih claimed (matched.write first.1 _ true) (by omega)
    rw [List.append_assoc] at more
    exact more

theorem allocParams (f : FunctionDecl) (staticBase : Nat) :
    Typed (FunctionDecl.slots f).length (FunctionDecl.slots f) (declaredParams f).slots
      (Backend.allocParams f staticBase).locals := by
  have empty : Matches {} { staticBase } := ⟨rfl, fun _ => rfl, rfl, rfl, rfl, by simp⟩
  have none : Typed (FunctionDecl.slots f).length [] ({} : Declared).slots
      ({ staticBase } : FuncContext).locals := by
    constructor <;> simp
  unfold FunctionDecl.slots Backend.allocParams declaredParams FunctionDecl.slots at *
  cases receiver : f.receiver with
  | none =>
    rw [receiver] at none
    have all := none.writeParams f.params empty (by simp)
    exact all
  | some type =>
    rw [receiver] at none
    have place : true = true ↔ ({ staticBase } : FuncContext).nextOffset < f.params.length + 1 := by simp
    have first := none.claim empty "__this" type true place
    have front : (Declared.hide {} "__this").slots.length + f.params.length ≤
        (List.map (fun type => ("__this", type)) (some type).toList ++ f.params).length := by
      simp [Declared.hide, claimSlot, Nat.add_comm]
    have all := first.writeParams f.params (empty.hide "__this" (runtimeTypeKind type) true) front
    exact all

end Typed

theorem foldl_hide_slots (names : List String) (declared : Declared) :
    (names.foldl Declared.hide declared).slots = names.foldl claimSlot declared.slots := by
  induction names generalizing declared with
  | nil => rfl
  | cons x rest ih => exact ih (declared.hide x)

theorem foldl_write_slots (names : List String) (declared : Declared) :
    (names.foldl Declared.write declared).slots = names.foldl claimSlot declared.slots := by
  induction names generalizing declared with
  | nil => rfl
  | cons x rest ih => exact ih (declared.write x)

theorem foldl_claimSlot (names : List String) (slots : List (Option String)) (distinct : names.Nodup)
    (fresh : ∀ x ∈ names, some x ∉ slots) : names.foldl claimSlot slots = slots ++ names.map some := by
  induction names generalizing slots with
  | nil => simp
  | cons x rest ih =>
    obtain ⟨outside, distinct⟩ := List.nodup_cons.mp distinct
    obtain ⟨first, later⟩ := List.forall_mem_cons.mp fresh
    rw [List.foldl_cons, claimSlot, if_neg first, ih _ distinct, List.append_assoc]
    · rfl
    · intro y member there
      rcases List.mem_append.mp there with old | last
      · exact later y member old
      · cases List.mem_singleton.mp last
        exact outside member

theorem mem_foldl_claimSlot {x : String} (names : List String) (slots : List (Option String))
    (member : x ∈ names) : some x ∈ names.foldl claimSlot slots := by
  have keeps : ∀ (names : List String) (slots : List (Option String)), slots ⊆ names.foldl claimSlot slots := by
    intro names
    induction names with
    | nil => exact fun slots => List.Subset.refl slots
    | cons y rest ih => exact fun slots => List.Subset.trans (prefix_claimSlot slots y).subset (ih _)
  induction names generalizing slots with
  | nil => cases member
  | cons y rest ih =>
    rcases List.mem_cons.mp member with rfl | later
    · exact keeps rest _ (mem_claimSlot slots x)
    · exact ih _ later

theorem position_owner {declared : Declared} {x : String} {p : Nat} (found : declared.position x = some p) :
    declared.slots[p]? = some (some x) := by
  obtain ⟨inside, isX, -⟩ := List.findIdx?_eq_some_iff_getElem.mp found
  rw [List.getElem?_eq_getElem inside, beq_iff_eq.mp isX]

theorem declaredParams_slots (f : FunctionDecl) (distinct : ((FunctionDecl.slots f).map (·.1)).Nodup) :
    (declaredParams f).slots = (FunctionDecl.slots f).map (some ·.1) := by
  have names : (FunctionDecl.slots f).map (·.1) =
      (f.receiver.toList.map fun _ => "__this") ++ f.params.map (·.1) := by
    rw [FunctionDecl.slots, List.map_append, List.map_map]
    rfl
  have folded := foldl_claimSlot _ [] distinct (by simp)
  rw [declaredParams, foldl_write_slots, foldl_hide_slots]
  rw [names, List.foldl_append] at folded
  rw [folded, List.nil_append, ← names, List.map_map]
  rfl

theorem resolve_params {f : FunctionDecl} {body : Stmt Binding} (resolved : f.resolve = some body) :
    (f.params.map (·.1)).Nodup := by
  by_contra repeated
  simp [FunctionDecl.resolve, guard, repeated] at resolved

theorem slots_distinct {f : FunctionDecl} {body : Stmt Binding} (resolved : f.resolve = some body)
    (receiver : f.receiver.isSome → "__this" ∉ f.params.map (·.1)) :
    ((FunctionDecl.slots f).map (·.1)).Nodup := by
  have params := resolve_params resolved
  cases isMethod : f.receiver with
  | none => simpa [FunctionDecl.slots, isMethod] using params
  | some type =>
    have outside := receiver (by rw [isMethod]; rfl)
    have names : (FunctionDecl.slots f).map (·.1) = "__this" :: f.params.map (·.1) := by
      simp [FunctionDecl.slots, isMethod]
    rw [names]
    exact List.nodup_cons.mpr ⟨outside, params⟩

structure Regions (f : FunctionDecl) (stats : CallSlotStats) : Prop where
  params : (FunctionDecl.layout f stats).paramCount = (FunctionDecl.slots f).length
  result : (FunctionDecl.layout f stats).returnSlot = (FunctionDecl.slots f).length
  temps : (FunctionDecl.layout f stats).tempSlot = (FunctionDecl.slots f).length + f.returnType.toList.length
  calls : (FunctionDecl.layout f stats).callParamBase = (FunctionDecl.layout f stats).tempSlot + 4
  evalArea : (FunctionDecl.layout f stats).evalAreaBase =
    (FunctionDecl.layout f stats).callParamBase + max stats.maxArgs 1
  locals : (FunctionDecl.layout f stats).localsBase = (FunctionDecl.layout f stats).evalAreaBase + stats.peakDepth

theorem layout_regions (f : FunctionDecl) (stats : CallSlotStats)
    (distinct : ((FunctionDecl.slots f).map (·.1)).Nodup) : Regions f stats := by
  have next : (allocParams f 0).nextOffset = (FunctionDecl.slots f).length := by
    rw [(Matches.params f 0).next, declaredParams_slots f distinct, List.length_map]
  refine ⟨rfl, next, ?_, rfl, rfl, rfl⟩
  cases returned : f.returnType with
  | none => simp [FunctionDecl.layout, reserveReturnAndCallSlots, returned, next]
  | some type => simp [FunctionDecl.layout, reserveReturnAndCallSlots, returned, next]

theorem declaredFrame_foreachs (f : FunctionDecl) (stats : CallSlotStats) :
    (declaredFrame f stats).foreachs = 0 :=
  (foldl_write_foreachs _ _).trans (foldl_hide_foreachs _ _)

structure Finished (f : FunctionDecl) (stats : CallSlotStats) (staticBase : Nat) (body : Stmt Binding)
    (last : Declared) : Prop where
  matched : Matches last (generateFunction f stats staticBase body)
  typed : Typed (FunctionDecl.slots f).length (frameDeclarations f body) last.slots
    (generateFunction f stats staticBase body).locals
  regions : Regions f stats
  named : ∀ p < (FunctionDecl.slots f).length, ∃ x, last.slots[p]? = some (some x)
  unnamed : ∀ p, (FunctionDecl.slots f).length ≤ p → p < (FunctionDecl.layout f stats).localsBase →
    last.slots[p]? = some none
  longer : (FunctionDecl.layout f stats).localsBase ≤ last.slots.length

theorem generateFunction_finished (f : FunctionDecl) (stats : CallSlotStats) (staticBase : Nat)
    (body : Stmt Binding) (distinct : ((FunctionDecl.slots f).map (·.1)).Nodup) :
    Finished f stats staticBase body ((body.events {}).foldl Declared.after (declaredFrame f stats)) := by
  have regions := layout_regions f stats distinct
  have start := Matches.start f stats staticBase
  have typed : Typed (FunctionDecl.slots f).length (FunctionDecl.slots f) (declaredFrame f stats).slots
      { allocParams f staticBase with nextOffset := (FunctionDecl.layout f stats).localsBase }.locals :=
    (Typed.allocParams f staticBase).reserve _
  have slots : (declaredFrame f stats).slots = (FunctionDecl.slots f).map (some ·.1) ++
      List.replicate (f.returnType.toList.length + 4 + max stats.maxArgs 1 + stats.peakDepth) none := by
    rw [declaredFrame, Declared.reserve, declaredParams_slots f distinct]
  have base : (FunctionDecl.slots f).length +
      (f.returnType.toList.length + 4 + max stats.maxArgs 1 + stats.peakDepth) =
        (FunctionDecl.layout f stats).localsBase := by
    rw [regions.locals, regions.evalArea, regions.calls, regions.temps]
    omega
  have length : (declaredFrame f stats).slots.length = (FunctionDecl.layout f stats).localsBase := by
    rw [slots, List.length_append, List.length_map, List.length_replicate, base]
  have grown := (Grows.run (body.events {}) (declaredFrame f stats)).slots
  have keeps : ∀ (p : Nat) (slot : Option String), (declaredFrame f stats).slots[p]? = some slot →
      ((body.events {}).foldl Declared.after (declaredFrame f stats)).slots[p]? = some slot := by
    intro p slot found
    obtain ⟨more, same⟩ := grown
    rw [← same, List.getElem?_append_left (List.getElem?_eq_some_iff.mp found).1]
    exact found
  refine ⟨start.run _ _, ?_, regions, ?_, ?_, length ▸ grown.length_le⟩
  · have behind : (FunctionDecl.slots f).length ≤ (declaredFrame f stats).slots.length := by
      rw [length, ← base]
      exact Nat.le_add_right _ _
    have all := typed.run (FunctionDecl.layout f stats) (body.events {}) start behind
    rw [declaredFrame_foreachs] at all
    exact all
  · intro p front
    obtain ⟨decl, found⟩ : ∃ decl, (FunctionDecl.slots f)[p]? = some decl := ⟨_, List.getElem?_eq_getElem front⟩
    refine ⟨decl.1, keeps p _ ?_⟩
    rw [slots, List.getElem?_append_left (by simpa using front), List.getElem?_map, found]
    rfl
  · intro p behind inside
    apply keeps
    rw [slots, List.getElem?_append_right (by simpa using behind), List.getElem?_replicate, if_pos]
    rw [List.length_map]
    omega

theorem claimClass_eq_none {claims : List Claim} {p : Nat} (free : ∀ claim ∈ claims, ¬ claim.holds p) :
    claimClass claims p = escNone := by
  induction claims with
  | nil => rfl
  | cons claim rest ih =>
    obtain ⟨first, later⟩ := List.forall_mem_cons.mp free
    rw [claimClass, if_neg first, ih later]
    rfl

theorem runtimeTypeKind_ne_arrayView (type : DeclType) : runtimeTypeKind type ≠ .arrayView := by
  cases type with
  | scalar kind =>
    cases kind with
    | arrayView => exact fun same => by cases same
    | _ => exact fun same => by cases same
  | _ => exact fun same => by cases same

def frameClass (f : FunctionDecl) (stats : CallSlotStats) (staticBase : Nat) (body : Stmt Binding)
    (slots : List (Option String)) (p : Nat) : EvalSlotClass :=
  match slots[p]? with
  | some (some x) => nameClass (frameDeclarations f body) x
  | _ =>
    if p < (FunctionDecl.layout f stats).evalAreaBase then
      if p = (FunctionDecl.layout f stats).returnSlot then returnClass f else escDual
    else claimClass (claimsOf (FunctionDecl.layout f stats) (generateFunction f stats staticBase body)) p

section Classes
variable {f : FunctionDecl} {stats : CallSlotStats} {staticBase : Nat} {body : Stmt Binding} {last : Declared}
variable (finished : Finished f stats staticBase body last)
include finished

theorem nameClass_of_owned {d : LocalDescriptor}
    (member : d ∈ (generateFunction f stats staticBase body).locals) {x : String}
    (owner : last.slots[d.position]? = some (some x)) :
    evalSlotClassOfKind d.kind = nameClass (frameDeclarations f body) x := by
  have named := finished.typed.owned d member
  rw [owner, Option.some_inj, Option.some_inj] at named
  obtain ⟨type, found, kind⟩ := finished.typed.kinds d member
  rw [nameClass, named, found, kind]

theorem position_inside {d : LocalDescriptor}
    (member : d ∈ (generateFunction f stats staticBase body).locals) : d.position < last.slots.length :=
  (List.getElem?_eq_some_iff.mp (finished.typed.owned d member)).1

theorem region_bounds : (FunctionDecl.slots f).length + 5 ≤ (FunctionDecl.layout f stats).evalAreaBase ∧
    (FunctionDecl.layout f stats).evalAreaBase ≤ (FunctionDecl.layout f stats).localsBase ∧
    (FunctionDecl.layout f stats).localsBase ≤ last.slots.length := by
  have regions := finished.regions
  refine ⟨?_, ?_, finished.longer⟩
  · rw [regions.evalArea, regions.calls, regions.temps]
    omega
  · rw [regions.locals]
    exact Nat.le_add_right _ _

variable (fits : FitsFrame f stats staticBase body)
include fits

theorem frame_small : last.slots.length < 8192 := by
  have small := fits.offsets
  rw [finished.matched.next] at small
  exact small

theorem slotAt_eq {p : Nat} (inside : p < last.slots.length) : slotAt p = p :=
  Nat.mod_eq_of_lt (Nat.lt_trans inside (frame_small finished fits))

theorem slot_eq {d : LocalDescriptor} (member : d ∈ (generateFunction f stats staticBase body).locals) :
    d.slot = d.position :=
  slotAt_eq finished fits (position_inside finished member)

omit finished in
theorem claim_bounds {claim : Claim}
    (member : claim ∈ claimsOf (FunctionDecl.layout f stats) (generateFunction f stats staticBase body)) :
    (FunctionDecl.layout f stats).evalAreaBase ≤ claim.base ∧
      claim.base + claim.slots ≤ (FunctionDecl.layout f stats).localsBase := by
  refine ⟨?_, fits.claims claim member⟩
  obtain ⟨evaluation, -, claims⟩ := List.mem_flatMap.mp member
  exact evaluation.2.1.le_claims _ claim claims

omit finished in
theorem claimClass_outside {p : Nat} (outside : p < (FunctionDecl.layout f stats).evalAreaBase ∨
      (FunctionDecl.layout f stats).localsBase ≤ p) :
    claimClass (claimsOf (FunctionDecl.layout f stats) (generateFunction f stats staticBase body)) p =
      escNone := by
  apply claimClass_eq_none
  intro claim member holds
  have bounds := claim_bounds fits member
  simp only [Claim.holds] at holds
  omega

theorem bandClasses_eq {p : Nat} (behind : (FunctionDecl.slots f).length ≤ p) (inside : p < last.slots.length) :
    bandClasses (FunctionDecl.layout f stats) (f.returnType.map runtimeTypeKind)
        (generateFunction f stats staticBase body)
        ⟨(FunctionDecl.slots f).length, last.slots.length - (FunctionDecl.slots f).length⟩ p =
      frameClass f stats staticBase body last.slots p := by
  obtain ⟨front, middle, back⟩ := region_bounds finished
  have small := frame_small finished fits
  have result := finished.regions.result
  have inBand : (FunctionDecl.slots f).length ≤ p ∧ p < (FunctionDecl.slots f).length +
      (last.slots.length - (FunctionDecl.slots f).length) := by omega
  have claimsSmall : ∀ claim ∈ claimsOf (FunctionDecl.layout f stats) (generateFunction f stats staticBase body),
      claim.base < 8192 := by
    intro claim member
    have bounds := claim_bounds fits member
    omega
  have evalBase : slotAt (FunctionDecl.layout f stats).evalAreaBase =
      (FunctionDecl.layout f stats).evalAreaBase := Nat.mod_eq_of_lt (by omega)
  rw [bandClasses, Band.mergeClaims_eq inBand _ claimsSmall, evalBase,
    slotAt_eq finished fits (by omega : (FunctionDecl.layout f stats).returnSlot < _)]
  have scratch : ∀ band : Band, band.first = (FunctionDecl.slots f).length →
      band.scratch (FunctionDecl.layout f stats).evalAreaBase p =
        if p < (FunctionDecl.layout f stats).evalAreaBase then escDual else escNone := by
    intro band first
    have notBefore : ¬ (FunctionDecl.layout f stats).evalAreaBase < band.first := by omega
    simp [Band.scratch, notBefore]
  have kept : ∀ (band : Band) (kind : Option Rtk) (classes : Nat → EvalSlotClass),
      p ≠ (FunctionDecl.layout f stats).returnSlot →
        band.assignReturn (FunctionDecl.layout f stats).returnSlot kind classes p = classes p := by
    intro band kind classes other
    cases kind with
    | none => rfl
    | some kind =>
      rw [Band.assignReturn]
      exact Band.write_of_ne _ _ other.symm
  cases owner : last.slots[p]? with
  | none => exact absurd inside (Nat.not_lt.mpr (List.getElem?_eq_none_iff.mp owner))
  | some slot =>
    cases slot with
    | some x =>
      have isLocal : (FunctionDecl.layout f stats).localsBase ≤ p := by
        by_contra before
        rw [finished.unnamed p behind (Nat.lt_of_not_le before)] at owner
        cases owner
      rw [kept _ _ _ (by omega), claimClass_outside fits (.inr isLocal), frameClass, owner]
      obtain ⟨d, member, rfl, rfl⟩ := finished.typed.complete x p owner
      have isBody : d.isParam = false := by
        rw [← Bool.not_eq_true, finished.typed.params d member]
        omega
      rw [Band.assignLocals_eq inBand _ _ (.inr ⟨d, member, isBody, slot_eq finished fits member⟩)]
      · exact BitVec.or_zero
      · intro d' member' _ same
        rw [slot_eq finished fits member'] at same
        exact nameClass_of_owned finished member' (same ▸ owner)
    | none =>
      have unnamed : ∀ d ∈ (generateFunction f stats staticBase body).locals, d.isParam = false → d.slot ≠ p := by
        intro d member _ same
        rw [slot_eq finished fits member] at same
        have named := finished.typed.owned d member
        rw [same, owner] at named
        cases named
      rw [frameClass, owner]
      by_cases isResult : p = (FunctionDecl.layout f stats).returnSlot
      · have inFront : p < (FunctionDecl.layout f stats).evalAreaBase := by omega
        rw [claimClass_outside fits (.inl inFront), ← isResult]
        simp only [inFront, if_true, returnClass]
        cases f.returnType with
        | none =>
          rw [Option.map_none, Band.assignReturn, Band.assignLocals_of_none _ unnamed, scratch _ rfl,
            if_pos inFront]
          exact BitVec.or_zero
        | some type =>
          rw [Option.map_some, Band.assignReturn, Band.write_self inBand]
          exact BitVec.or_zero
      · rw [kept _ _ _ isResult, Band.assignLocals_of_none _ unnamed, scratch _ rfl]
        by_cases inFront : p < (FunctionDecl.layout f stats).evalAreaBase
        · rw [claimClass_outside fits (.inl inFront)]
          simp only [inFront, if_true, isResult, if_false]
          exact BitVec.or_zero
        · simp only [inFront, if_false]
          exact BitVec.zero_or

theorem scans_eq : (compileFunction f stats staticBase body).scans =
    ((generateFunction f stats staticBase body).locals.filter (·.isParam)).map (fun d =>
        (d.slot, if d.kind = .arrayView then escNone else evalSlotClassOfKind d.kind)) ++
      (List.range (last.slots.length - (FunctionDecl.slots f).length)).map fun i =>
        ((FunctionDecl.slots f).length + i,
          frameClass f stats staticBase body last.slots ((FunctionDecl.slots f).length + i)) := by
  obtain ⟨front, middle, back⟩ := region_bounds finished
  have total : slotAt (generateFunction f stats staticBase body).nextOffset = last.slots.length := by
    rw [slotAt, Nat.mod_eq_of_lt fits.offsets, finished.matched.next]
  have params := finished.regions.params
  have mask : (compileFunction f stats staticBase body).evalAreaHandleMask =
      packMask (fun i => bandClasses (FunctionDecl.layout f stats) (f.returnType.map runtimeTypeKind)
          (generateFunction f stats staticBase body)
          ⟨(FunctionDecl.slots f).length, last.slots.length - (FunctionDecl.slots f).length⟩
          ((FunctionDecl.slots f).length + i))
        (last.slots.length - (FunctionDecl.slots f).length) := by
    simp only [compileFunction, buildEvalAreaHandleMask]
    rw [total, params, if_neg (by omega)]
  have band : (compileFunction f stats staticBase body).bandSlots =
      last.slots.length - (FunctionDecl.slots f).length := by
    simp only [CompiledFunction.bandSlots, compileFunction]
    rw [total, params]
  rw [CompiledFunction.scans, band, mask, packMask_length]
  apply congrArg
  apply List.map_congr_left
  intro i member
  have inside := List.mem_range.mp member
  rw [if_pos rfl, maskClass_packMask _ inside]
  have same := bandClasses_eq finished fits (Nat.le_add_right (FunctionDecl.slots f).length i) (by omega)
  simp only [compileFunction]
  rw [params, same]

theorem scanned_iff {p : Nat} (inside : p < last.slots.length) (bit : Nat) :
    (compileFunction f stats staticBase body).Scanned (slotAt p) bit ↔
      (frameClass f stats staticBase body last.slots p).getLsbD bit := by
  rw [slotAt_eq finished fits inside, CompiledFunction.Scanned, scans_eq finished fits]
  have paramClass : ∀ d ∈ (generateFunction f stats staticBase body).locals,
      (if d.kind = .arrayView then escNone else evalSlotClassOfKind d.kind) =
        frameClass f stats staticBase body last.slots d.position := by
    intro d member
    obtain ⟨type, -, kind⟩ := finished.typed.kinds d member
    have owner := finished.typed.owned d member
    rw [if_neg (kind ▸ runtimeTypeKind_ne_arrayView type), frameClass, owner]
    exact nameClass_of_owned finished member owner
  constructor
  · rintro ⟨scan, member, rfl, tested⟩
    rcases List.mem_append.mp member with param | band
    · obtain ⟨d, inLocals, rfl⟩ := List.mem_map.mp param
      have member := (List.mem_filter.mp inLocals).1
      simp only [slot_eq finished fits member, paramClass d member] at tested ⊢
      exact tested
    · obtain ⟨i, -, rfl⟩ := List.mem_map.mp band
      exact tested
  · intro tested
    by_cases front : p < (FunctionDecl.slots f).length
    · obtain ⟨x, owner⟩ := finished.named p front
      obtain ⟨d, member, -, rfl⟩ := finished.typed.complete x p owner
      have isParam := (finished.typed.params d member).mpr front
      refine ⟨_, List.mem_append_left _ (List.mem_map.mpr ⟨d, List.mem_filter.mpr ⟨member, isParam⟩, rfl⟩), ?_, ?_⟩
      · exact slot_eq finished fits member
      · rw [paramClass d member]
        exact tested
    · obtain ⟨i, rfl⟩ := Nat.exists_eq_add_of_le (Nat.le_of_not_lt front)
      refine ⟨_, List.mem_append_right _ (List.mem_map.mpr ⟨i, List.mem_range.mpr (by omega), rfl⟩), rfl, tested⟩

theorem frameMarks_iff_covers {p : Nat} (inside : p < last.slots.length) (type : DeclType) :
    FrameMarks (compileFunction f stats staticBase body) (slotAt p) type ↔
      Covers (frameClass f stats staticBase body last.slots p) type := by
  rw [frameMarks_iff, covers_iff, scanned_iff finished fits inside, scanned_iff finished fits inside]

omit finished fits in
theorem frameClass_named {x : String} {p : Nat} (owner : last.slots[p]? = some (some x)) :
    frameClass f stats staticBase body last.slots p = nameClass (frameDeclarations f body) x := by
  rw [frameClass, owner]

omit fits in
theorem positionOf_owner {decl : String × DeclType} (member : decl ∈ frameDeclarations f body) :
    last.slots[(generateFunction f stats staticBase body).positionOf decl.1]? = some (some decl.1) := by
  have there := (finished.matched.findLocal_isSome decl.1).mpr (finished.typed.names decl member)
  obtain ⟨d, found⟩ := Option.isSome_iff_exists.mp there
  obtain ⟨inLocals, named⟩ := FuncContext.findLocal_mem found
  have owner := finished.typed.owned d inLocals
  rw [named] at owner
  rw [FuncContext.positionOf, found]
  exact owner

omit fits in
theorem frameClass_result :
    frameClass f stats staticBase body last.slots (FunctionDecl.layout f stats).returnSlot = returnClass f := by
  obtain ⟨front, middle, back⟩ := region_bounds finished
  have result := finished.regions.result
  have unnamed := finished.unnamed (FunctionDecl.layout f stats).returnSlot (by omega) (by omega)
  have inFront : (FunctionDecl.layout f stats).returnSlot < (FunctionDecl.layout f stats).evalAreaBase := by omega
  rw [frameClass, unnamed]
  simp [inFront]

omit fits in
theorem frameClass_scratch {p : Nat} (behind : (FunctionDecl.layout f stats).tempSlot ≤ p)
    (before : p < (FunctionDecl.layout f stats).evalAreaBase) :
    frameClass f stats staticBase body last.slots p = escDual := by
  obtain ⟨front, middle, back⟩ := region_bounds finished
  have result := finished.regions.result
  have temps := finished.regions.temps
  have unnamed := finished.unnamed p (by omega) (by omega)
  rw [frameClass, unnamed]
  simp only [before, if_true]
  split
  · rename_i isResult
    cases returned : f.returnType with
    | none => rw [returnClass, returned]
    | some type =>
      rw [returned, Option.toList_some, List.length_singleton] at temps
      omega
  · rfl

omit finished fits in
theorem frameClass_evalArea {p : Nat} (behind : (FunctionDecl.layout f stats).evalAreaBase ≤ p)
    (unnamed : last.slots[p]? = some none) :
    frameClass f stats staticBase body last.slots p =
      claimClass (claimsOf (FunctionDecl.layout f stats) (generateFunction f stats staticBase body)) p := by
  rw [frameClass, unnamed]
  simp only [Nat.not_lt.mpr behind, if_false]

omit finished fits in
theorem covers_dual (type : DeclType) : Covers escDual type := by
  cases type <;> exact BitVec.and_allOnes

def EvaluationCovered (f : FunctionDecl) (stats : CallSlotStats) (staticBase : Nat) (body : Stmt Binding)
    (slots : List (Option String)) (evaluation : Nat × Expr Binding × Bool) : Prop :=
  ∀ type ∈ waiting evaluation.2.1 evaluation.2.2,
    Covers (frameClass f stats staticBase body slots evaluation.1) type

theorem step_evaluations {declared : Declared} {ctx : FuncContext} (matched : Matches declared ctx)
    (event : Event) (grown : Grows (declared.after event) last)
    (behind : (FunctionDecl.layout f stats).localsBase ≤ declared.slots.length) :
    ∃ added, (ctx.step (FunctionDecl.layout f stats) event).evaluations = ctx.evaluations ++ added ∧
      (∀ evaluation ∈ added, evaluation.1 < last.slots.length) ∧
      ((∀ evaluation ∈ added, EvaluationCovered f stats staticBase body last.slots evaluation) ↔
        event.Covered (frameDeclarations f body) (returnClass f) declared.foreachs) := by
  obtain ⟨front, middle, back⟩ := region_bounds finished
  have result := finished.regions.result
  have temps := finished.regions.temps
  have calls := finished.regions.calls
  have evalArea := finished.regions.evalArea
  have keeps : ∀ (p : Nat) (slot : Option String), (declared.after event).slots[p]? = some slot →
      last.slots[p]? = some slot := by
    intro p slot found
    obtain ⟨more, same⟩ := grown.slots
    rw [← same, List.getElem?_append_left (List.getElem?_eq_some_iff.mp found).1]
    exact found
  have one : ∀ (p : Nat) (e : Expr Binding) (stays : Bool) (slotClass : EvalSlotClass) (covered : Prop),
      p < last.slots.length → frameClass f stats staticBase body last.slots p = slotClass →
      ((∀ type ∈ waiting e stays, Covers slotClass type) ↔ covered) →
      (∀ evaluation ∈ [(p, e, stays)], evaluation.1 < last.slots.length) ∧
        ((∀ evaluation ∈ [(p, e, stays)], EvaluationCovered f stats staticBase body last.slots evaluation) ↔
          covered) := by
    intro p e stays slotClass covered inside known same
    simp only [List.forall_mem_singleton, EvaluationCovered, known]
    exact ⟨inside, same⟩
  have scratch : ∀ (p : Nat) (e : Expr Binding), (FunctionDecl.layout f stats).tempSlot ≤ p →
      p < (FunctionDecl.layout f stats).evalAreaBase →
      (∀ evaluation ∈ [(p, e, false)], evaluation.1 < last.slots.length) ∧
        ((∀ evaluation ∈ [(p, e, false)], EvaluationCovered f stats staticBase body last.slots evaluation) ↔
          True) := by
    intro p e after before
    apply one p e false escDual True (by omega) (frameClass_scratch finished after before)
    exact iff_of_true (fun type _ => covers_dual type) trivial
  cases event with
  | allocate x type hidden =>
    refine ⟨[], ?_, by simp, by simp [Event.Covered]⟩
    rw [List.append_nil]
    exact (FuncContext.allocLocal_allocates ctx x _ false).evaluations
  | register x node => exact ⟨[], by simp [FuncContext.step, FuncContext.registerStatic], by simp, by simp [Event.Covered]⟩
  | stage operands calls => exact ⟨_, rfl, scratch _ _ (Nat.le_refl _) (by omega)⟩
  | initStatic target value => exact ⟨_, rfl, scratch _ _ (Nat.le_refl _) (by omega)⟩
  | assign target type value =>
    simp only [FuncContext.step]
    split
    · exact ⟨_, rfl, scratch _ _ (Nat.le_succ _) (by omega)⟩
    · exact ⟨_, rfl, scratch _ _ (Nat.le_refl _) (by omega)⟩
  | result value guarded => exact ⟨_, rfl, one _ value guarded _ _ (by omega) (frameClass_result finished) Iff.rfl⟩
  | switchOn condition =>
    have unnamed : last.slots[ctx.nextOffset]? = some none := by
      apply keeps
      simp [Declared.after, Declared.reserve, matched.next]
    have inside := (List.getElem?_eq_some_iff.mp unnamed).1
    have isNone : frameClass f stats staticBase body last.slots ctx.nextOffset = escNone := by
      rw [frameClass_evalArea (by rw [matched.next]; omega) unnamed]
      exact claimClass_outside fits (.inr (by rw [matched.next]; exact behind))
    exact ⟨_, rfl, one _ condition true _ _ inside isNone Iff.rfl⟩
  | «foreach» var type source iterable =>
    have now := matched.step (FunctionDecl.layout f stats) (.foreach var type source iterable)
    have member : foreachIter source ctx.foreachCounter ∈
        (foreachLocals source (ctx.foreachCounter % 65536)).map (·.1) := by
      cases source <;> exact List.mem_cons_self
    have claimed : some (foreachIter source ctx.foreachCounter) ∈
        (declared.after (.foreach var type source iterable)).slots := by
      rw [matched.counter] at member ⊢
      rw [Declared.after, foldl_hide_slots]
      exact mem_foldl_claimSlot _ _ member
    obtain ⟨d, found⟩ := Option.isSome_iff_exists.mp ((now.findLocal_isSome _).mpr claimed)
    have position := now.positions (foreachIter source ctx.foreachCounter)
    rw [found] at position
    have owner := keeps _ _ (position_owner position.symm)
    have place : ((ctx.step (FunctionDecl.layout f stats) (.foreach var type source iterable)).positionOf
        (foreachIter source ctx.foreachCounter)) = d.position := by
      rw [FuncContext.positionOf, found]
      rfl
    have inside := (List.getElem?_eq_some_iff.mp owner).1
    have before := FuncContext.allocLocals_allocates
      ((var, type) :: foreachLocals source (ctx.foreachCounter % 65536)) false
      { ctx with foreachCounter := ctx.foreachCounter + 1 }
    refine ⟨[(d.position, iterable, true)], ?_, one _ iterable true _ _ inside (frameClass_named owner) ?_⟩
    · rw [← place]
      simp only [FuncContext.step, FuncContext.access, FuncContext.evaluate, before.evaluations]
      rfl
    · rw [Event.Covered, matched.counter]

theorem run_evaluations (events : List Event) {declared : Declared} {ctx : FuncContext}
    (matched : Matches declared ctx) (ends : events.foldl Declared.after declared = last)
    (behind : (FunctionDecl.layout f stats).localsBase ≤ declared.slots.length) :
    ∃ added, (events.foldl (fun ctx event => ctx.step (FunctionDecl.layout f stats) event) ctx).evaluations =
        ctx.evaluations ++ added ∧
      (∀ evaluation ∈ added, evaluation.1 < last.slots.length) ∧
      ((∀ evaluation ∈ added, EvaluationCovered f stats staticBase body last.slots evaluation) ↔
        EventsCovered (frameDeclarations f body) (returnClass f) declared.foreachs events) := by
  induction events generalizing declared ctx with
  | nil => exact ⟨[], by simp, by simp, by simp [EventsCovered]⟩
  | cons event rest ih =>
    have grown : Grows (declared.after event) last := ends ▸ Grows.run rest (declared.after event)
    have longer := (Grows.after declared event).slots.length_le
    obtain ⟨now, evaluated, placed, covered⟩ := step_evaluations finished fits matched event grown behind
    obtain ⟨later, evaluatedLater, placedLater, coveredLater⟩ :=
      ih (matched.step (FunctionDecl.layout f stats) event) ends (Nat.le_trans behind longer)
    refine ⟨now ++ later, ?_, ?_, ?_⟩
    · rw [List.foldl_cons, evaluatedLater, evaluated, List.append_assoc]
    · exact List.forall_mem_append.mpr ⟨placed, placedLater⟩
    · rw [List.forall_mem_append, covered, coveredLater, EventsCovered, after_foreachs]

theorem parks_covered_iff {evaluation : Nat × Expr Binding × Bool}
    (member : evaluation ∈ (generateFunction f stats staticBase body).evaluations) {park : Nat × DeclType}
    (parked : park ∈ evaluation.2.1.parks (FunctionDecl.layout f stats).evalAreaBase) :
    park.1 < last.slots.length ∧ frameClass f stats staticBase body last.slots park.1 =
      claimClass (claimsOf (FunctionDecl.layout f stats) (generateFunction f stats staticBase body)) park.1 := by
  obtain ⟨front, middle, back⟩ := region_bounds finished
  obtain ⟨claim, inClaims, holds⟩ := evaluation.2.1.parks_claimed _ park parked
  have bounds := claim_bounds fits (List.mem_flatMap.mpr ⟨evaluation, member, inClaims⟩)
  simp only [Claim.holds] at holds
  have unnamed := finished.unnamed park.1 (by omega) (by omega)
  exact ⟨by omega, frameClass_evalArea (by omega) unnamed⟩

theorem passes_covered {evaluation : Nat × Expr Binding × Bool}
    (member : evaluation ∈ (generateFunction f stats staticBase body).evaluations) {types : List DeclType}
    (passed : types ∈ evaluation.2.1.passes) {type : DeclType} {i : Nat} (argument : (type, i) ∈ types.zipIdx) :
    (FunctionDecl.layout f stats).callParamBase + i < last.slots.length ∧
      Covers (frameClass f stats staticBase body last.slots ((FunctionDecl.layout f stats).callParamBase + i))
        type := by
  obtain ⟨front, middle, back⟩ := region_bounds finished
  have calls := finished.regions.calls
  have evalArea := finished.regions.evalArea
  have few := fits.passes evaluation member types passed
  have inside := (List.mem_zipIdx_iff_getElem?.mp argument)
  have index : i < types.length := (List.getElem?_eq_some_iff.mp inside).1
  refine ⟨by omega, ?_⟩
  rw [frameClass_scratch finished (by omega) (by omega)]
  exact covers_dual type

end Classes

/-- Whatever a slot of the frame can hold at a safepoint is marked, just if the classes of names, of the return
slot and of the claims cover what is stored there. -/
theorem rootMap_sound_iff (f : FunctionDecl) (stats : CallSlotStats) (staticBase : Nat) (body : Stmt Binding)
    (resolved : f.resolve = some body) (fits : FitsFrame f stats staticBase body) :
    RootMapSound f stats staticBase body ↔ RootsCovered f stats staticBase body := by
  have finished := generateFunction_finished f stats staticBase body (slots_distinct resolved fits.receiver)
  have behind := (Matches.start f stats staticBase).next
  obtain ⟨all, evaluated, placed, covered⟩ := run_evaluations finished fits (body.events {})
    (Matches.start f stats staticBase) rfl (Nat.le_of_eq behind)
  have none : (allocParams f staticBase).evaluations = [] :=
    (FuncContext.allocLocals_allocates _ _ _).evaluations
  have evaluations : (generateFunction f stats staticBase body).evaluations = all := by
    rw [generateFunction, evaluated]
    simp only [none, List.nil_append]
  rw [declaredFrame_foreachs] at covered
  have held : RootMapSound f stats staticBase body ↔
      (∀ decl ∈ frameDeclarations f body, FrameMarks (compileFunction f stats staticBase body)
        (slotAt ((generateFunction f stats staticBase body).positionOf decl.1)) decl.2) ∧
      ∀ evaluation ∈ (generateFunction f stats staticBase body).evaluations,
        (∀ type ∈ waiting evaluation.2.1 evaluation.2.2,
          FrameMarks (compileFunction f stats staticBase body) (slotAt evaluation.1) type) ∧
        (∀ park ∈ evaluation.2.1.parks (FunctionDecl.layout f stats).evalAreaBase,
          FrameMarks (compileFunction f stats staticBase body) (slotAt park.1) park.2) ∧
        ∀ types ∈ evaluation.2.1.passes, ∀ argument ∈ types.zipIdx,
          FrameMarks (compileFunction f stats staticBase body)
            (slotAt ((FunctionDecl.layout f stats).callParamBase + argument.2)) argument.1 := by
    simp only [RootMapSound, heldSlots, List.forall_mem_append, List.forall_mem_map, List.forall_mem_flatMap,
      and_assoc]
  have declared : ∀ decl ∈ frameDeclarations f body,
      FrameMarks (compileFunction f stats staticBase body)
        (slotAt ((generateFunction f stats staticBase body).positionOf decl.1)) decl.2 ↔
      Covers (nameClass (frameDeclarations f body) decl.1) decl.2 := by
    intro decl member
    have owner := positionOf_owner finished member
    rw [frameMarks_iff_covers finished fits (List.getElem?_eq_some_iff.mp owner).1, frameClass_named owner]
  have results : ∀ evaluation ∈ all,
      (∀ type ∈ waiting evaluation.2.1 evaluation.2.2,
        FrameMarks (compileFunction f stats staticBase body) (slotAt evaluation.1) type) ↔
      EvaluationCovered f stats staticBase body
        ((body.events {}).foldl Declared.after (declaredFrame f stats)).slots evaluation := by
    intro evaluation member
    simp only [frameMarks_iff_covers finished fits (placed evaluation member)]
    rfl
  rw [held]
  constructor
  · intro ⟨named, evaluated⟩
    refine ⟨fun decl member => (declared decl member).mp (named decl member), covered.mp ?_, ?_⟩
    · intro evaluation member
      exact (results evaluation member).mp (evaluated evaluation (evaluations ▸ member)).1
    · intro evaluation member park parked
      obtain ⟨inside, known⟩ := parks_covered_iff finished fits member parked
      rw [← known, ← frameMarks_iff_covers finished fits inside]
      exact (evaluated evaluation member).2.1 park parked
  · intro roots
    refine ⟨fun decl member => (declared decl member).mpr (roots.declared decl member), ?_⟩
    intro evaluation member
    refine ⟨(results evaluation (evaluations ▸ member)).mpr ?_, ?_, ?_⟩
    · exact covered.mpr roots.results evaluation (evaluations ▸ member)
    · intro park parked
      obtain ⟨inside, known⟩ := parks_covered_iff finished fits member parked
      rw [frameMarks_iff_covers finished fits inside, known]
      exact roots.parked evaluation member park parked
    · intro types passed argument position
      obtain ⟨inside, covers⟩ := passes_covered finished fits member passed position
      exact (frameMarks_iff_covers finished fits inside _).mpr covers

def concatResult : FunctionDecl :=
  { params := [("a", .cls)], returnType := some .string
    body := .seq
      (.decl false [{ name := "s", type := .string, target := "s", init := some (.value .string) }])
      (.result (some (.binary (.name "s" false .string)
        (.staged (.cons (.name "a" false .cls) .nil) true .string) .string))) }

def concatResultBody : Stmt Binding :=
  .seq (.decl false [{ name := "s", type := .string, target := .local "s", init := some (.value .string) }])
    (.result (some (.binary (.name (.local "s") false .string)
      (.staged (.cons (.name (.local "a") false .cls) .nil) true .string) .string)))

theorem concatResult_sound :
    concatResult.resolve = some concatResultBody ∧
      RootMapSound concatResult { maxArgs := 1, peakDepth := 2 } 0 concatResultBody := by
  have resolved : concatResult.resolve = some concatResultBody := rfl
  have fits : FitsFrame concatResult { maxArgs := 1, peakDepth := 2 } 0 concatResultBody :=
    ⟨by decide, by decide, by decide, by decide⟩
  exact ⟨resolved, (rootMap_sound_iff _ _ _ _ resolved fits).mpr ⟨by decide, by decide, by decide⟩⟩

def interfaceParam : FunctionDecl := { params := [("x", .iface)], body := .skip }

theorem interfaceParam_unmarked :
    interfaceParam.resolve = some .skip ∧ FitsFrame interfaceParam {} 0 .skip ∧
      ¬ RootMapSound interfaceParam {} 0 .skip := by
  refine ⟨rfl, ⟨by decide, by decide, by decide, by decide⟩, ?_⟩
  intro sound
  have marks := sound (0, .iface) (by decide)
  have scanned := ((frameMarks_iff _ _ _).mp marks).2 (by decide)
  exact absurd scanned (by decide)

end NLang.Backend
