import NLang.Backend.Emission

/-!
# Frames under construction

The frame of a function while its body is emitted (`VmBackend.cpp`, `ResolveBareIdentifier.cpp`). Positions
count slots of `kFrameSlotBytes`. The source keeps byte offsets in 16 bits and nothing checks them, so the slot
at a position is the position modulo 8192.
-/

namespace NLang.Backend
open NLang.Compiler NLang.Vm

def slotAt (position : Nat) : Nat := position % 8192

structure LocalDescriptor where
  name : String
  position : Nat
  kind : Rtk
  isParam : Bool

def LocalDescriptor.slot (d : LocalDescriptor) : Nat := slotAt d.position

inductive BareIdTarget where
  | unbound
  | local (slot : Nat)
  | staticLocal (slotIdx : Nat)
  | staticField (name : String)
  | thisField (name : String)
  | constant
  deriving DecidableEq

structure CallSlotStats where
  maxArgs : Nat := 0
  peakDepth : Nat := 0

/-- `staticSlots` are the declarations behind the rows that the function adds to the table of the module, which
has `staticBase` rows before. `accesses` and `evaluations` record what was emitted: the targets of the bare
identifiers, and the expressions with the positions of their result slots and whether the results stay. -/
structure FuncContext where
  locals : List LocalDescriptor := []
  staticLocalSlots : List (String × Nat) := []
  staticBase : Nat := 0
  staticSlots : List Nat := []
  nextOffset : Nat := 0
  foreachCounter : Nat := 0
  accesses : List (Binding × BareIdTarget) := []
  evaluations : List (Nat × Expr Binding × Bool) := []

structure FrameLayout where
  paramCount : Nat
  returnSlot : Nat
  tempSlot : Nat
  callParamBase : Nat
  evalAreaBase : Nat
  localsBase : Nat

def reserveReturnAndCallSlots (paramCount : Nat) (hasReturn : Bool) (stats : CallSlotStats) (next : Nat) :
    FrameLayout :=
  let tempSlot := if hasReturn then next + 1 else next
  let callParamBase := tempSlot + 4
  let evalAreaBase := callParamBase + max stats.maxArgs 1
  { paramCount, returnSlot := next, tempSlot, callParamBase, evalAreaBase
    localsBase := evalAreaBase + stats.peakDepth }

def foreachLocals (source : ForeachSource) (counter : Nat) : List (String × DeclType) :=
  let name := fun stem => s!"__foreach_{stem}_{counter}"
  match source with
  | .array => [(name "iter", .array), (name "i", .scalar .int32), (name "n", .scalar .int32)]
  | .container => [(name "iter", .cls), (name "i", .scalar .int32), (name "n", .scalar .int32)]
  | .string => [(name "iter", .string), (name "off", .scalar .int32), (name "cond", .scalar .int32)]

namespace FuncContext
variable (ctx : FuncContext)

def findLocal (name : String) : Option LocalDescriptor := ctx.locals.find? (·.name = name)

def allocLocal (name : String) (kind : Rtk) (isParam : Bool) : FuncContext :=
  if (ctx.findLocal name).isSome then ctx
  else { ctx with
    locals := ctx.locals ++ [{ name, position := ctx.nextOffset, kind, isParam }]
    nextOffset := ctx.nextOffset + 1 }

def allocLocals (names : List (String × DeclType)) (isParam : Bool) : FuncContext :=
  names.foldl (fun ctx (name, type) => ctx.allocLocal name (runtimeTypeKind type) isParam) ctx

def registerStatic (name : String) (node : Nat) : FuncContext :=
  { ctx with
    staticLocalSlots := (name, ctx.staticBase + ctx.staticSlots.length) :: ctx.staticLocalSlots
    staticSlots := ctx.staticSlots ++ [node] }

def resolveBareIdentifier : Binding → BareIdTarget
  | .constant _ | .field _ .folded => .constant
  | .staticLocal name _ =>
    match ctx.staticLocalSlots.lookup name with
    | some slotIdx => .staticLocal slotIdx
    | none => .unbound
  | .local name =>
    match ctx.findLocal name with
    | some d => .local d.slot
    | none => .unbound
  | .field name .perClass =>
    match ctx.findLocal name with
    | some d => .local d.slot
    | none => .staticField name
  | .field name .perObject =>
    match ctx.findLocal name with
    | some d => .local d.slot
    | none => .thisField name

def access (bindings : List Binding) : FuncContext :=
  { ctx with accesses := ctx.accesses ++ bindings.map fun b => (b, ctx.resolveBareIdentifier b) }

def evaluate (position : Nat) (e : Expr Binding) (stays : Bool) : FuncContext :=
  { ctx with evaluations := ctx.evaluations ++ [(position, e, stays)] }

def stage (layout : FrameLayout) (operands : Operands Binding) (calls : Bool) : FuncContext :=
  ctx.evaluate layout.tempSlot (.staged operands calls (.scalar .int32)) false

def throughTemp (type : DeclType) : BareIdTarget → Bool
  | .local _ => runtimeTypeKind type = .struct
  | .thisField _ => true
  | _ => false

def positionOf (name : String) : Nat := ((ctx.findLocal name).map (·.position)).getD 0

def step (layout : FrameLayout) : Event → FuncContext
  | .allocate name type _ => ctx.allocLocal name (runtimeTypeKind type) false
  | .register name node => ctx.registerStatic name node
  | .stage operands calls => (ctx.access operands.names).stage layout operands calls
  | .assign target type value =>
    let after := ctx.access (target :: value.names)
    if throughTemp type (ctx.resolveBareIdentifier target) then after.evaluate (layout.tempSlot + 1) value false
    else after.stage layout (.cons value .nil) false
  | .initStatic target value => (ctx.access (target :: value.names)).stage layout (.cons value .nil) false
  | .foreach var type source iterable =>
    let hidden := foreachLocals source (ctx.foreachCounter % 65536)
    let after := { ctx with foreachCounter := ctx.foreachCounter + 1 }.allocLocals
      ((var, type) :: hidden) false
    (after.access iterable.names).evaluate (after.positionOf ((hidden.map (·.1)).headD "")) iterable true
  | .switchOn condition =>
    ({ ctx with nextOffset := ctx.nextOffset + 1 }.access condition.names).evaluate ctx.nextOffset
      condition true
  | .result value guarded => (ctx.access value.names).evaluate layout.returnSlot value guarded

end FuncContext

def FunctionDecl.slots (f : FunctionDecl) : List (String × DeclType) :=
  f.receiver.toList.map (fun type => ("__this", type)) ++ f.params

def allocParams (f : FunctionDecl) (staticBase : Nat) : FuncContext :=
  FuncContext.allocLocals { staticBase } (FunctionDecl.slots f) true

def FunctionDecl.layout (f : FunctionDecl) (stats : CallSlotStats) : FrameLayout :=
  reserveReturnAndCallSlots (FunctionDecl.slots f).length f.returnType.isSome stats (allocParams f 0).nextOffset

def generateFunction (f : FunctionDecl) (stats : CallSlotStats) (staticBase : Nat)
    (body : Stmt Binding) : FuncContext :=
  let layout := FunctionDecl.layout f stats
  let start := { allocParams f staticBase with nextOffset := layout.localsBase }
  (body.events {}).foldl (fun ctx event => ctx.step layout event) start

namespace FuncContext

theorem findLocal_mem {ctx : FuncContext} {name : String} {d : LocalDescriptor}
    (found : ctx.findLocal name = some d) : d ∈ ctx.locals ∧ d.name = name :=
  ⟨List.mem_of_find?_eq_some found, of_decide_eq_true (List.find?_some found :)⟩

theorem allocLocal_cases (ctx : FuncContext) (name : String) (kind : Rtk) (isParam : Bool) :
    ((ctx.findLocal name).isSome ∧ ctx.allocLocal name kind isParam = ctx) ∨
    (ctx.findLocal name = none ∧ ctx.allocLocal name kind isParam =
      { ctx with
        locals := ctx.locals ++ [{ name, position := ctx.nextOffset, kind, isParam }]
        nextOffset := ctx.nextOffset + 1 }) := by
  unfold allocLocal
  split
  · rename_i there
    exact .inl ⟨there, rfl⟩
  · rename_i fresh
    exact .inr ⟨Option.not_isSome_iff_eq_none.mp fresh, rfl⟩

structure Allocates (ctx ctx' : FuncContext) : Prop where
  staticBase : ctx'.staticBase = ctx.staticBase
  accesses : ctx'.accesses = ctx.accesses
  evaluations : ctx'.evaluations = ctx.evaluations

theorem allocLocal_allocates (ctx : FuncContext) (name : String) (kind : Rtk) (isParam : Bool) :
    Allocates ctx (ctx.allocLocal name kind isParam) := by
  obtain ⟨-, same⟩ | ⟨-, same⟩ := allocLocal_cases ctx name kind isParam
  · rw [same]
    exact ⟨rfl, rfl, rfl⟩
  · rw [same]
    exact ⟨rfl, rfl, rfl⟩

theorem allocLocals_allocates (names : List (String × DeclType)) (isParam : Bool) (ctx : FuncContext) :
    Allocates ctx (ctx.allocLocals names isParam) := by
  induction names generalizing ctx with
  | nil => exact ⟨rfl, rfl, rfl⟩
  | cons first rest ih =>
    have now := allocLocal_allocates ctx first.1 (runtimeTypeKind first.2) isParam
    have later := ih (ctx.allocLocal first.1 (runtimeTypeKind first.2) isParam)
    exact ⟨later.staticBase.trans now.staticBase, later.accesses.trans now.accesses,
      later.evaluations.trans now.evaluations⟩

end FuncContext

end NLang.Backend
