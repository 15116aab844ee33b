import NLang.Backend.FuncContext

/-!
# Default arguments

A default expression is resolved where the callee is declared and emitted where the callee is called, once for
each call that omits the argument. Its names should still denote what they denote at the declaration. Emission
redirects them by name: first through the scopes of all expansions in progress, then through the frame of the
caller.
-/

namespace NLang.Backend.Calls
open NLang.Compiler

inductive Place where
  | frame (slot : Nat)
  | claim (position : Nat)

inductive Staging where
  | result
  | claimed (slot : Nat)
  | scratch (slot : Nat)

mutual

inductive Expr where
  /-- Literals and qualified names of types, static members, functions and enum members. -/
  | value
  | name (x : Binding)
  | this
  | outArg (x : Binding)
  /-- Operators, casts, member reads, subscripts, array and list literals, built-in calls. -/
  | operation (claimed : Nat) (operands : Operands)
  | call (bindings : Bindings)
  | method (receiver : Expr) (bindings : Bindings)
  | construct (bindings : Bindings)
  | superCall (bindings : Bindings)
  | delegate (callee : Binding) (claimed : Nat) (args : Operands)

inductive Operands where
  | nil
  | cons (staging : Staging) (first : Expr) (rest : Operands)

inductive Bindings where
  | nil
  | supplied (formal : String) (arg : Expr) (rest : Bindings)
  | omitted (formal : String) (value : Expr) (rest : Bindings)

end

def Bindings.length : Bindings → Nat
  | .nil => 0
  | .supplied _ _ rest | .omitted _ _ rest => rest.length + 1

inductive Target where
  | unbound
  | slot (place : Place)
  | staticLocal (slotIdx : Nat)
  | staticField (name : String)
  | field (object : Place) (name : String)
  | constant

inductive Scope where
  | caller
  | callee (earlier : List (String × Place)) (receiver : Option Place)

def Scope.denotes : Scope → Binding → Option Target
  | .caller, _ | .callee _ _, .staticLocal _ _ => none
  | .callee earlier _, .local x => (earlier.lookup x).map .slot
  | .callee _ receiver, .field x .perObject => receiver.map (.field · x)
  | .callee _ _, .field x .perClass => some (.staticField x)
  | .callee _ _, .field _ .folded | .callee _ _, .constant _ => some .constant

def Scope.this : Scope → Option Target
  | .caller => none
  | .callee _ receiver => receiver.map .slot

structure Access where
  scope : Scope
  name : Option Binding
  target : Target

def Access.Denotes (a : Access) : Prop :=
  match a.scope with
  | .caller => True
  | .callee _ _ => a.name.elim a.scope.this a.scope.denotes = some a.target

/-- What nested emitters see: `m_OverrideStack` and `m_ThisOverrideStack`, innermost first, and the cursor of the
evaluation area. The scope is not in the source; it says what the emitted expression was resolved in. -/
structure Emitting where
  overrides : List (List (String × Place)) := []
  thisOverrides : List (Option Place) := []
  evalAreaCursor : Nat := 0
  scope : Scope := .caller

structure CallForm where
  slotBase : Nat
  thisSlot : Option Place
  isMethod : Bool

namespace Emitting
variable (env : Emitting)

def lookupOverride (x : String) : Option Place := env.overrides.findSome? (List.lookup x)

def lookupThisOverride : Option Place := env.thisOverrides.head?.join

def implicitThisSlot : Place := env.lookupThisOverride.getD (.frame 0)

def claim (slots : Nat) : Emitting := { env with evalAreaCursor := env.evalAreaCursor + slots }

def enterDefault (form : CallForm) (earlier : List (String × Place)) : Emitting where
  overrides := earlier :: env.overrides
  thisOverrides := form.thisSlot.or env.lookupThisOverride :: env.thisOverrides
  evalAreaCursor := env.evalAreaCursor
  scope := .callee earlier (if form.isMethod then form.thisSlot else none)

variable (ctx : FuncContext)

def resolveBareIdentifier (x : Binding) : Target :=
  match ctx.resolveBareIdentifier x with
  | .unbound => .unbound
  | .local slot => .slot (.frame slot)
  | .staticLocal slotIdx => .staticLocal slotIdx
  | .staticField name => .staticField name
  | .thisField name => .field env.implicitThisSlot name
  | .constant => .constant

end Emitting

def spelling : Binding → String
  | .local x | .staticLocal x _ | .field x _ | .constant x => x

namespace Emitting
variable (env : Emitting) (ctx : FuncContext)

def identifier (x : Binding) : Target :=
  match env.lookupOverride (spelling x) with
  | some place => .slot place
  | none => env.resolveBareIdentifier ctx x

def delegateCallee (x : Binding) : Target :=
  match env.resolveBareIdentifier ctx x with
  | .slot place => .slot place
  | .field object name => .field object name
  | _ => .unbound

def outSpill (x : Binding) : Target :=
  match env.resolveBareIdentifier ctx x with
  | .slot place => .slot place
  | _ => .unbound

def access (x : Binding) (target : Target) : Access := ⟨env.scope, some x, target⟩

def place (result : Place) (claimBase : Nat) : Staging → Place
  | .result => result
  | .claimed slot => .claim (claimBase + slot)
  | .scratch slot => .frame slot

end Emitting

mutual

def Expr.emit (ctx : FuncContext) (env : Emitting) (result : Place) : Expr → List Access
  | .value => []
  | .name x => [env.access x (env.identifier ctx x)]
  | .this => [⟨env.scope, none, .slot env.implicitThisSlot⟩]
  | .outArg x => [env.access x (env.identifier ctx x), env.access x (env.outSpill ctx x)]
  | .operation claimed operands => operands.emit ctx (env.claim claimed) result env.evalAreaCursor
  | .call bindings =>
    bindings.emit ctx (env.claim bindings.length) ⟨0, none, false⟩ env.evalAreaCursor []
  | .method receiver bindings =>
    receiver.emit ctx env result ++
      bindings.emit ctx (env.claim (1 + bindings.length)) ⟨1, some result, true⟩ (env.evalAreaCursor + 1) []
  | .construct bindings =>
    bindings.emit ctx (env.claim (1 + bindings.length)) ⟨1, none, false⟩ (env.evalAreaCursor + 1) []
  | .superCall bindings =>
    bindings.emit ctx (env.claim (1 + bindings.length)) ⟨1, some (.frame 0), false⟩
      (env.evalAreaCursor + 1) []
  | .delegate callee claimed args =>
    args.emit ctx (env.claim claimed) result env.evalAreaCursor ++
      [env.access callee (env.delegateCallee ctx callee)]

def Operands.emit (ctx : FuncContext) (env : Emitting) (result : Place) (claimBase : Nat) :
    Operands → List Access
  | .nil => []
  | .cons staging first rest =>
    first.emit ctx env (Emitting.place result claimBase staging) ++ rest.emit ctx env result claimBase

def Bindings.emit (ctx : FuncContext) (env : Emitting) (form : CallForm) (next : Nat)
    (earlier : List (String × Place)) : Bindings → List Access
  | .nil => []
  | .supplied formal arg rest =>
    arg.emit ctx env (.claim next) ++ rest.emit ctx env form (next + 1) ((formal, .claim next) :: earlier)
  | .omitted formal init rest =>
    init.emit ctx (env.enterDefault form earlier) (.claim next) ++
      rest.emit ctx env form (next + 1) ((formal, .claim next) :: earlier)

end

structure Expansion where
  earlier : List String
  enclosing : List String
  hasReceiver : Bool

abbrev Site := Option Expansion

namespace Site
variable (site : Site)

def enclosing : List String := site.elim [] (·.enclosing)

def enter (isMethod : Bool) (earlier : List String) : Site :=
  some ⟨earlier, earlier ++ site.enclosing, isMethod⟩

end Site

namespace Expansion
variable (x : Expansion)

def Sees : Binding → Prop
  | .local y => y ∈ x.earlier
  | .staticLocal _ _ => False
  | .field _ .perObject => x.hasReceiver = true
  | .field _ _ | .constant _ => True

def Keeps (ctx : FuncContext) : Binding → Prop
  | .local _ | .staticLocal _ _ => True
  | .field y .folded | .constant y => y ∉ x.enclosing
  | .field y _ => y ∉ x.enclosing ∧ ctx.findLocal y = none

def KeepsCallee (ctx : FuncContext) : Binding → Prop
  | .field y .perObject => x.hasReceiver = true ∧ ctx.findLocal y = none
  | _ => False

end Expansion

mutual

def Expr.Resolved (site : Site) : Expr → Prop
  | .value | .outArg _ => True
  | .name x => ∀ d ∈ site, d.Sees x
  | .this => ∀ d ∈ site, d.hasReceiver = true
  | .operation _ operands | .delegate _ _ operands => operands.Resolved site
  | .call bindings | .construct bindings | .superCall bindings => bindings.Resolved site false []
  | .method receiver bindings => receiver.Resolved site ∧ bindings.Resolved site true []

def Operands.Resolved (site : Site) : Operands → Prop
  | .nil => True
  | .cons _ first rest => first.Resolved site ∧ rest.Resolved site

def Bindings.Resolved (site : Site) (isMethod : Bool) (earlier : List String) : Bindings → Prop
  | .nil => True
  | .supplied formal arg rest => arg.Resolved site ∧ rest.Resolved site isMethod (formal :: earlier)
  | .omitted formal init rest =>
    init.Resolved (site.enter isMethod earlier) ∧ rest.Resolved site isMethod (formal :: earlier)

end

mutual

def Expr.Uncaptured (ctx : FuncContext) (site : Site) : Expr → Prop
  | .value | .this => True
  | .name x => ∀ d ∈ site, d.Keeps ctx x
  | .outArg _ => site = none
  | .operation _ operands => operands.Uncaptured ctx site
  | .call bindings | .construct bindings | .superCall bindings => bindings.Uncaptured ctx site false []
  | .method receiver bindings => receiver.Uncaptured ctx site ∧ bindings.Uncaptured ctx site true []
  | .delegate callee _ args => args.Uncaptured ctx site ∧ ∀ d ∈ site, d.KeepsCallee ctx callee

def Operands.Uncaptured (ctx : FuncContext) (site : Site) : Operands → Prop
  | .nil => True
  | .cons _ first rest => first.Uncaptured ctx site ∧ rest.Uncaptured ctx site

def Bindings.Uncaptured (ctx : FuncContext) (site : Site) (isMethod : Bool) (earlier : List String) :
    Bindings → Prop
  | .nil => True
  | .supplied formal arg rest => arg.Uncaptured ctx site ∧ rest.Uncaptured ctx site isMethod (formal :: earlier)
  | .omitted formal init rest =>
    init.Uncaptured ctx (site.enter isMethod earlier) ∧
      rest.Uncaptured ctx site isMethod (formal :: earlier)

end

structure Emitting.At (env : Emitting) (site : Site) : Prop where
  enclosing : ∀ x, env.lookupOverride x = none ↔ x ∉ site.enclosing
  caller : site = none → env.scope = .caller
  expansion : ∀ d ∈ site, ∃ earlier receiver, env.scope = .callee earlier receiver ∧
    d.earlier = earlier.map (·.1) ∧ (∀ x ∈ d.earlier, env.lookupOverride x = earlier.lookup x) ∧
    (∀ entry ∈ earlier, ∃ position, entry.2 = .claim position) ∧
    d.hasReceiver = receiver.isSome ∧ ∀ r ∈ receiver, env.implicitThisSlot = r

def CallForm.Stages (form : CallForm) : Prop := form.isMethod = true → form.thisSlot.isSome

theorem lookup_isSome_iff {earlier : List (String × Place)} {x : String} :
    (earlier.lookup x).isSome ↔ x ∈ earlier.map (·.1) := by
  rw [List.lookup_isSome_iff]
  simp only [beq_iff_eq, List.mem_map, @eq_comm _ x]

theorem lookup_claim {earlier : List (String × Place)}
    (claims : ∀ entry ∈ earlier, ∃ position, entry.2 = Place.claim position) {x : String} {place : Place}
    (found : earlier.lookup x = some place) : ∃ position, place = .claim position := by
  obtain ⟨before, after, split, -⟩ := List.lookup_eq_some_iff.mp found
  exact claims (x, place) (by simp [split])

namespace Emitting

theorem lookupOverride_enterDefault (env : Emitting) (form : CallForm) (earlier : List (String × Place))
    (x : String) :
    (env.enterDefault form earlier).lookupOverride x = (earlier.lookup x).or (env.lookupOverride x) := by
  simp only [lookupOverride, enterDefault, List.findSome?_cons]
  cases earlier.lookup x <;> rfl

namespace At
variable {env : Emitting} {site : Site}

theorem start (cursor : Nat) : At { evalAreaCursor := cursor } none :=
  ⟨fun _ => by simp [lookupOverride, Site.enclosing], fun _ => rfl, fun _ member => by cases member⟩

theorem claim (at_site : env.At site) (slots : Nat) : (env.claim slots).At site :=
  ⟨at_site.enclosing, at_site.caller, at_site.expansion⟩

theorem enter (at_site : env.At site) {form : CallForm} (stages : form.Stages)
    {earlier : List (String × Place)} (claims : ∀ entry ∈ earlier, ∃ position, entry.2 = .claim position) :
    (env.enterDefault form earlier).At (site.enter form.isMethod (earlier.map (·.1))) where
  enclosing x := by
    rw [lookupOverride_enterDefault, Option.or_eq_none_iff, at_site.enclosing, ← Option.not_isSome_iff_eq_none,
      lookup_isSome_iff, ← not_or, ← List.mem_append]
    rfl
  caller entered := by cases entered
  expansion d member := by
    cases Option.mem_some.mp member
    refine ⟨earlier, _, rfl, rfl, ?_, claims, ?_, ?_⟩
    · intro x known
      rw [lookupOverride_enterDefault]
      obtain ⟨place, found⟩ := Option.isSome_iff_exists.mp (lookup_isSome_iff.mpr known)
      rw [found, Option.some_or]
    · cases method : form.isMethod with
      | false => rfl
      | true => exact (stages method).symm
    · intro r receives
      cases method : form.isMethod with
      | false => simp [method] at receives
      | true =>
        have staged : form.thisSlot = some r := by simpa [method] using receives
        simp [implicitThisSlot, lookupThisOverride, enterDefault, staged]

theorem identifier_of_free (ctx : FuncContext) (at_site : env.At site) {x : Binding} (free : spelling x ∉ site.enclosing) :
    env.identifier ctx x = env.resolveBareIdentifier ctx x := by
  rw [identifier, (at_site.enclosing _).mpr free]

theorem identifier_of_captured (ctx : FuncContext) (at_site : env.At site) {x : Binding} (captured : spelling x ∈ site.enclosing) :
    ∃ place, env.identifier ctx x = .slot place := by
  cases found : env.lookupOverride (spelling x) with
  | none => exact absurd captured ((at_site.enclosing _).mp found)
  | some place => exact ⟨place, by rw [identifier, found]⟩

end At
end Emitting

namespace Emitting.At
variable {env : Emitting} {d : Expansion} {ctx : FuncContext}

theorem access_denotes_iff {earlier : List (String × Place)} {receiver : Option Place}
    (scope : env.scope = .callee earlier receiver) (x : Binding) (target : Target) :
    (env.access x target).Denotes ↔ (Scope.callee earlier receiver).denotes x = some target := by
  simp [Access.Denotes, Emitting.access, scope]

theorem name_denotes_iff (at_site : env.At (some d)) {x : Binding} (sees : d.Sees x) :
    (env.access x (env.identifier ctx x)).Denotes ↔ d.Keeps ctx x := by
  obtain ⟨earlier, receiver, scope, names, own, -, receives, this⟩ := at_site.expansion d rfl
  rw [access_denotes_iff scope x]
  by_cases free : spelling x ∈ d.enclosing
  · -- An expansion in progress has a formal of this spelling: right for the formals of this call only.
    obtain ⟨place, target⟩ := at_site.identifier_of_captured ctx free
    rw [target]
    cases x with
    | «local» y =>
      have found : env.lookupOverride y = some place := by
        simp only [Emitting.identifier, spelling] at target
        cases override : env.lookupOverride y with
        | none => exact absurd free ((at_site.enclosing y).mp override)
        | some other => simpa [override] using target
      rw [own y sees] at found
      simp [Scope.denotes, found, Expansion.Keeps]
    | staticLocal y node => exact sees.elim
    | field y storage =>
      cases storage <;> simp_all [Scope.denotes, Expansion.Keeps, spelling]
    | constant y => simp_all [Scope.denotes, Expansion.Keeps, spelling]
  · rw [at_site.identifier_of_free ctx free]
    cases x with
    | «local» y =>
      have known : (env.lookupOverride y).isSome := by
        rw [own y sees, lookup_isSome_iff, ← names]
        exact sees
      rw [(at_site.enclosing y).mpr free] at known
      cases known
    | staticLocal y node => exact sees.elim
    | field y storage =>
      cases storage with
      | perObject =>
        obtain ⟨r, there⟩ := Option.isSome_iff_exists.mp (receives.symm.trans sees)
        cases «local» : ctx.findLocal y <;>
          simp_all [Scope.denotes, Expansion.Keeps, spelling, Emitting.resolveBareIdentifier,
            FuncContext.resolveBareIdentifier]
      | perClass =>
        cases «local» : ctx.findLocal y <;>
          simp_all [Scope.denotes, Expansion.Keeps, spelling, Emitting.resolveBareIdentifier,
            FuncContext.resolveBareIdentifier]
      | folded => exact iff_of_true rfl free
    | constant y => exact iff_of_true rfl free

theorem callee_denotes_iff (at_site : env.At (some d)) (x : Binding) :
    (env.access x (env.delegateCallee ctx x)).Denotes ↔ d.KeepsCallee ctx x := by
  obtain ⟨earlier, receiver, scope, names, own, claims, receives, this⟩ := at_site.expansion d rfl
  rw [access_denotes_iff scope x]
  cases x with
  | «local» y =>
    refine iff_of_false ?_ id
    intro same
    obtain ⟨place, found, target⟩ := Option.map_eq_some_iff.mp same
    obtain ⟨position, rfl⟩ := lookup_claim claims found
    cases «local» : ctx.findLocal y <;>
      simp_all [Emitting.delegateCallee, Emitting.resolveBareIdentifier, FuncContext.resolveBareIdentifier]
  | staticLocal y node => exact iff_of_false (by simp [Scope.denotes]) id
  | field y storage =>
    cases storage with
    | perObject =>
      cases receiver <;> cases «local» : ctx.findLocal y <;>
        simp_all [Scope.denotes, Expansion.KeepsCallee, Emitting.delegateCallee,
          Emitting.resolveBareIdentifier, FuncContext.resolveBareIdentifier]
    | perClass =>
      cases «local» : ctx.findLocal y <;>
        simp_all [Scope.denotes, Expansion.KeepsCallee, Emitting.delegateCallee,
          Emitting.resolveBareIdentifier, FuncContext.resolveBareIdentifier]
    | folded => exact iff_of_false (by rintro ⟨⟩) id
  | constant y => exact iff_of_false (by rintro ⟨⟩) id

theorem outSpill_not_denotes (at_site : env.At (some d)) (x : Binding) :
    ¬ (env.access x (env.outSpill ctx x)).Denotes := by
  obtain ⟨earlier, receiver, scope, names, own, claims, receives, this⟩ := at_site.expansion d rfl
  rw [access_denotes_iff scope x]
  intro same
  cases x with
  | «local» y =>
    obtain ⟨place, found, target⟩ := Option.map_eq_some_iff.mp same
    obtain ⟨position, rfl⟩ := lookup_claim claims found
    cases «local» : ctx.findLocal y <;>
      simp_all [Emitting.outSpill, Emitting.resolveBareIdentifier, FuncContext.resolveBareIdentifier]
  | staticLocal y node => simp [Scope.denotes] at same
  | field y storage =>
    cases storage <;> cases receiver <;> cases «local» : ctx.findLocal y <;>
      simp_all [Scope.denotes, Emitting.outSpill, Emitting.resolveBareIdentifier,
        FuncContext.resolveBareIdentifier]
  | constant y => cases same

end Emitting.At

theorem access_caller {env : Emitting} (at_site : env.At none) (x : Option Binding) (target : Target) :
    Access.Denotes ⟨env.scope, x, target⟩ := by
  rw [at_site.caller rfl]
  trivial

theorem forall_mem_append {before after : List Access} :
    (∀ a ∈ before ++ after, a.Denotes) ↔ (∀ a ∈ before, a.Denotes) ∧ ∀ a ∈ after, a.Denotes :=
  List.forall_mem_append

theorem name_denotes_iff {env : Emitting} {site : Site} {ctx : FuncContext} (at_site : env.At site) {x : Binding}
    (sees : ∀ d ∈ site, d.Sees x) :
    (env.access x (env.identifier ctx x)).Denotes ↔ ∀ d ∈ site, d.Keeps ctx x := by
  cases site with
  | none => exact iff_of_true (access_caller at_site _ _) (fun d member => by cases member)
  | some d => simpa using at_site.name_denotes_iff (sees d rfl)

theorem callee_denotes_iff {env : Emitting} {site : Site} {ctx : FuncContext} (at_site : env.At site)
    (x : Binding) :
    (env.access x (env.delegateCallee ctx x)).Denotes ↔ ∀ d ∈ site, d.KeepsCallee ctx x := by
  cases site with
  | none => exact iff_of_true (access_caller at_site _ _) (fun d member => by cases member)
  | some d => simpa using at_site.callee_denotes_iff x

theorem this_denotes {env : Emitting} {site : Site} (at_site : env.At site)
    (sees : ∀ d ∈ site, d.hasReceiver = true) :
    Access.Denotes ⟨env.scope, none, .slot env.implicitThisSlot⟩ := by
  cases site with
  | none => exact access_caller at_site _ _
  | some d =>
    obtain ⟨earlier, receiver, scope, -, -, -, receives, this⟩ := at_site.expansion d rfl
    obtain ⟨r, there⟩ := Option.isSome_iff_exists.mp (receives.symm.trans (sees d rfl))
    simp [Access.Denotes, scope, Scope.this, there, this r there]

mutual

theorem Expr.denotes_iff {ctx : FuncContext} (e : Expr) {env : Emitting} {site : Site} (at_site : env.At site)
    (result : Place) (resolved : e.Resolved site) :
    (∀ a ∈ e.emit ctx env result, a.Denotes) ↔ e.Uncaptured ctx site := by
  cases e with
  | value => exact iff_of_true (fun a member => by cases member) trivial
  | name x =>
    rw [Expr.emit, List.forall_mem_singleton]
    exact name_denotes_iff at_site resolved
  | this =>
    rw [Expr.emit, List.forall_mem_singleton]
    exact iff_of_true (this_denotes at_site resolved) trivial
  | outArg x =>
    cases site with
    | none =>
      refine iff_of_true (fun a member => ?_) rfl
      rcases List.mem_pair.mp member with rfl | rfl <;> exact access_caller at_site _ _
    | some d =>
      refine iff_of_false (fun all => ?_) (by rintro ⟨⟩)
      exact at_site.outSpill_not_denotes x (all _ (List.mem_pair.mpr (.inr rfl)))
  | operation claimed operands => exact operands.denotes_iff (at_site.claim claimed) result _ resolved
  | call bindings =>
    exact bindings.denotes_iff (at_site.claim _) ⟨0, none, false⟩ (by rintro ⟨⟩) _ [] (by simp) resolved
  | method receiver bindings =>
    rw [Expr.emit, forall_mem_append, receiver.denotes_iff at_site result resolved.1,
      bindings.denotes_iff (at_site.claim _) ⟨1, some result, true⟩ (fun _ => rfl) _ [] (by simp) resolved.2]
    rfl
  | construct bindings =>
    exact bindings.denotes_iff (at_site.claim _) ⟨1, none, false⟩ (by rintro ⟨⟩) _ [] (by simp) resolved
  | superCall bindings =>
    exact bindings.denotes_iff (at_site.claim _) ⟨1, some (.frame 0), false⟩ (by rintro ⟨⟩) _ [] (by simp)
      resolved
  | delegate callee claimed args =>
    rw [Expr.emit, forall_mem_append, args.denotes_iff (at_site.claim claimed) result _ resolved,
      List.forall_mem_singleton, callee_denotes_iff at_site]
    rfl

theorem Operands.denotes_iff {ctx : FuncContext} (operands : Operands) {env : Emitting} {site : Site}
    (at_site : env.At site) (result : Place) (claimBase : Nat) (resolved : operands.Resolved site) :
    (∀ a ∈ operands.emit ctx env result claimBase, a.Denotes) ↔ operands.Uncaptured ctx site := by
  cases operands with
  | nil => exact iff_of_true (fun a member => by cases member) trivial
  | cons staging first rest =>
    rw [Operands.emit, forall_mem_append, first.denotes_iff at_site _ resolved.1,
      rest.denotes_iff at_site result claimBase resolved.2]
    rfl

theorem Bindings.denotes_iff {ctx : FuncContext} (bindings : Bindings) {env : Emitting} {site : Site}
    (at_site : env.At site) (form : CallForm) (stages : form.Stages) (next : Nat)
    (earlier : List (String × Place)) (claims : ∀ entry ∈ earlier, ∃ position, entry.2 = .claim position)
    (resolved : bindings.Resolved site form.isMethod (earlier.map (·.1))) :
    (∀ a ∈ bindings.emit ctx env form next earlier, a.Denotes) ↔
      bindings.Uncaptured ctx site form.isMethod (earlier.map (·.1)) := by
  cases bindings with
  | nil => exact iff_of_true (fun a member => by cases member) trivial
  | supplied formal arg rest =>
    have later : ∀ entry ∈ (formal, Place.claim next) :: earlier, ∃ position, entry.2 = .claim position :=
      List.forall_mem_cons.mpr ⟨⟨next, rfl⟩, claims⟩
    rw [Bindings.emit, forall_mem_append, arg.denotes_iff at_site _ resolved.1,
      rest.denotes_iff at_site form stages (next + 1) _ later resolved.2]
    rfl
  | omitted formal init rest =>
    have later : ∀ entry ∈ (formal, Place.claim next) :: earlier, ∃ position, entry.2 = .claim position :=
      List.forall_mem_cons.mpr ⟨⟨next, rfl⟩, claims⟩
    rw [Bindings.emit, forall_mem_append, init.denotes_iff (at_site.enter stages claims) _ resolved.1,
      rest.denotes_iff at_site form stages (next + 1) _ later resolved.2]
    rfl

end

/-- Default arguments are evaluated in the scope of their declaration, at any nesting, exactly if no name is
captured. The emission starts in a statement of the caller, with no expansion in progress. -/
theorem defaults_resolved_iff (ctx : FuncContext) (cursor : Nat) (result : Place) (e : Expr)
    (resolved : e.Resolved none) :
    (∀ a ∈ e.emit ctx { evalAreaCursor := cursor } result, a.Denotes) ↔ e.Uncaptured ctx none :=
  e.denotes_iff (Emitting.At.start cursor) result resolved

def earlierFormal : Expr :=
  .call (.supplied "a" .value (.omitted "b"
    (.operation 1 (.cons .result (.name (.local "a")) (.cons (.claimed 0) .value .nil))) .nil))

theorem earlierFormal_denotes :
    earlierFormal.Resolved none ∧ ∀ a ∈ earlierFormal.emit {} {} (.frame 0), a.Denotes := by
  have resolved : earlierFormal.Resolved none := by
    simp [earlierFormal, Expr.Resolved, Bindings.Resolved, Operands.Resolved, Site.enter, Expansion.Sees]
  refine ⟨resolved, (defaults_resolved_iff {} 0 (.frame 0) earlierFormal resolved).mpr ?_⟩
  simp [earlierFormal, Expr.Uncaptured, Bindings.Uncaptured, Operands.Uncaptured, Site.enter, Expansion.Keeps]

def fieldDefault : Expr :=
  .method (.name (.local "c")) (.omitted "step" (.name (.field "count" .perObject)) .nil)

def nestedDefault : Expr :=
  .call (.supplied "red" .value (.omitted "b"
    (.call (.omitted "x" (.name (.field "red" .perClass)) .nil)) .nil))

theorem defaults_captured :
    (fieldDefault.Resolved none ∧
      ¬ ∀ a ∈ fieldDefault.emit (FuncContext.allocLocal {} "count" .int32 false) {} (.frame 0), a.Denotes) ∧
    nestedDefault.Resolved none ∧ ¬ ∀ a ∈ nestedDefault.emit {} {} (.frame 0), a.Denotes := by
  refine ⟨⟨?_, fun all => ?_⟩, ?_, fun all => ?_⟩
  · simp [fieldDefault, Expr.Resolved, Bindings.Resolved, Site.enter, Expansion.Sees]
  · have captured := all ⟨.callee [] (some (.frame 0)), some (.field "count" .perObject), .slot (.frame 0)⟩
      (List.mem_cons_of_mem _ (List.mem_singleton_self _))
    simp [Access.Denotes, Scope.denotes] at captured
  · simp [nestedDefault, Expr.Resolved, Bindings.Resolved, Site.enter, Expansion.Sees]
  · have captured := all ⟨.callee [] none, some (.field "red" .perClass), .slot (.claim 0)⟩
      (List.mem_singleton_self _)
    simp [Access.Denotes, Scope.denotes] at captured

end NLang.Backend.Calls
