import NLang.Backend.StaticGatePaths
import NLang.Library.Runs

/-!
# Gates at run time

Contexts run the emitted code. A gate lets a context pass if the owner is initialized or is being initialized by the
same context, makes it wait for another one, and otherwise claims the initialization. `OP_ClassInitDone` and
`OP_ClassInitFail` are the two ways in which the frame of a `$staticInit` ends. Which exceptions are raised and caught
and what methods and func values call is left to the environment.
-/

namespace NLang.Backend.StaticGates
open NLang.Library.AnnotatedCode NLang.Library.Runs

inductive Phase where
  | uninitialized
  | initializing (ctx : Nat)
  | done
  deriving DecidableEq

structure Frame where
  routine : Routine
  pc : Nat := 0
  passed : List Nat := []

structure Context where
  stack : List Frame := []
  pending : Option Nat := none
  raising : Bool := false

structure State where
  phase : Nat → Phase
  context : Nat → Context
  stored : Nat → Bool

def State.initial : State where
  phase := fun _ => .uninitialized
  context := fun _ => {}
  stored := fun _ => false

inductive Action where
  | start (ctx callee : Nat)
  | exec (ctx : Nat) (branch : Bool) (callee : Option Nat)
  | raise (ctx : Nat)
  | handle (ctx row : Nat)
  | unwind (ctx : Nat)
  | fail (ctx : Nat)

namespace Frame

def goTo (frame : Frame) (pc : Nat) : Frame := { frame with pc }

def pass (frame : Frame) (owner : Nat) : Frame := { frame with passed := owner :: frame.passed }

def returned (frame : Frame) (emitted : Emitted) : Frame :=
  match emitted.instr with
  | .callInit owner => (frame.goTo (frame.pc + emitted.stride)).pass owner
  | _ => frame.goTo (frame.pc + emitted.stride)

def facts (frame : Frame) : List Fact := frame.passed.map .passed

def initOwner (frame : Frame) : Option Nat :=
  match frame.routine with
  | .staticInit owner => some owner
  | .function _ => none

def settle (frame : Frame) (phase : Nat → Phase) (outcome : Phase) : Nat → Phase :=
  match frame.routine with
  | .staticInit owner => Function.update phase owner outcome
  | .function _ => phase

end Frame

def initOwners (stack : List Frame) : List Nat := stack.filterMap Frame.initOwner

def Context.claims (c : Context) : List Nat := c.pending.toList ++ initOwners c.stack

def Context.initializes (c : Context) (owner : Nat) : Bool :=
  c.stack.any fun frame => frame.routine == .staticInit owner

def Instr.mayRaise : Instr → Bool
  | .callInit _ | .jump _ | .jumpIfNot _ | .ret => false
  | _ => true

namespace Program
variable (P : Program)

def lineAt (frame : Frame) : Option CodeLine := fetch Emitted.stride (P.code frame.routine) 0 frame.pc

def resume : List Frame → List Frame
  | [] => []
  | frame :: rest =>
    match P.lineAt frame with
    | some line => frame.returned line.instr :: rest
    | none => frame :: rest

def execute (phase : Nat → Phase) (ctx : Nat) (frame : Frame) (rest : List Frame) (emitted : Emitted) (branch : Bool)
    (callee : Option Nat) : Option ((Nat → Phase) × Context) :=
  let next := frame.goTo (frame.pc + emitted.stride)
  match emitted.instr with
  | .classInitGate owner donePc =>
    match phase owner with
    | .done => some (phase, { stack := (frame.goTo donePc).pass owner :: rest })
    | .initializing other =>
      if other = ctx then some (phase, { stack := (frame.goTo donePc).pass owner :: rest }) else none
    | .uninitialized =>
      some (Function.update phase owner (.initializing ctx), { stack := next :: rest, pending := some owner })
  | .callInit owner => some (phase, { stack := { routine := .staticInit owner } :: frame :: rest })
  | .callFunc callee =>
    if callee < P.functions.length then some (phase, { stack := { routine := .function callee } :: frame :: rest })
    else some (phase, { stack := next :: rest })
  | .callMethod =>
    match callee with
    | some callee =>
      if P.staticOwner callee = none then
        some (phase, { stack := { routine := .function callee } :: frame :: rest })
      else none
    | none => some (phase, { stack := next :: rest })
  | .callDelegate =>
    match callee with
    | some callee => some (phase, { stack := { routine := .function callee } :: frame :: rest })
    | none => some (phase, { stack := next :: rest })
  | .jump target => some (phase, { stack := frame.goTo target :: rest })
  | .jumpIfNot target => some (phase, { stack := if branch then frame.goTo target :: rest else next :: rest })
  | .ret => some (frame.settle phase .done, { stack := P.resume rest })
  | .throwValue => some (phase, { stack := frame :: rest, raising := true })
  | .loadStatic _ | .storeStatic _ | .new _ | .op _ => some (phase, { stack := next :: rest })

def executed (s : State) : Action → Option (Frame × Emitted)
  | .exec ctx _ _ =>
    match s.context ctx with
    | { stack := frame :: _, raising := false, .. } => (P.lineAt frame).map fun line => (frame, line.instr)
    | _ => none
  | _ => none

def effect (s : State) : Action → Option (Nat × (Nat → Phase) × Context)
  | .start ctx callee =>
    if (s.context ctx).stack = [] then some (ctx, s.phase, { stack := [{ routine := .function callee }] }) else none
  | .exec ctx branch callee =>
    match s.context ctx with
    | { stack := frame :: rest, raising := false, .. } => do
        let line ← P.lineAt frame
        let result ← P.execute s.phase ctx frame rest line.instr branch callee
        return (ctx, result)
    | _ => none
  | .raise ctx =>
    match s.context ctx with
    | { stack := frame :: rest, raising := false, .. } => do
        let line ← P.lineAt frame
        if line.instr.instr.mayRaise then return (ctx, s.phase, { stack := frame :: rest, raising := true })
        else none
    | _ => none
  | .handle ctx row =>
    match s.context ctx with
    | { stack := frame :: rest, raising := true, .. } => do
        let row ← (P.body frame.routine).tryRows[row]?
        if P.offset (P.body frame.routine).pieces row.start ≤ frame.pc ∧
            frame.pc < P.offset (P.body frame.routine).pieces row.stop then
          return (ctx, s.phase, { stack := frame.goTo (P.offset (P.body frame.routine).pieces row.handler) :: rest })
        else none
    | _ => none
  | .unwind ctx =>
    match s.context ctx with
    | { stack := frame :: rest, raising := true, .. } =>
      some (ctx, frame.settle s.phase .uninitialized, { stack := rest, raising := !rest.isEmpty })
    | _ => none
  | .fail ctx =>
    some (ctx, fun owner => if s.phase owner = .initializing ctx then .uninitialized else s.phase owner, {})

def stores (s : State) (action : Action) : Option Nat :=
  match P.executed s action, action with
  | some (_, { instr := .storeStatic field, .. }), .exec ctx _ _ =>
    (P.fieldOwner field).filter fun owner => !(s.context ctx).initializes owner
  | _, _ => none

def step (s : State) (action : Action) : Option State := do
  let (ctx, phase, context) ← P.effect s action
  return {
    phase, context := Function.update s.context ctx context
    stored := fun owner => s.stored owner || P.stores s action == some owner }

def usedBy (instr : Instr) : Action → Option Nat
  | .exec _ _ (some callee) => if instr = .callDelegate then P.staticOwner callee else P.usedOwner instr
  | _ => P.usedOwner instr

structure Use where
  frame : Frame
  emitted : Emitted
  owner : Nat

def use (s : State) (action : Action) : Option Use :=
  (P.executed s action).bind fun (frame, emitted) =>
    (P.usedBy emitted.instr action).map fun owner => { frame, emitted, owner }

def Gated (s : State) (action : Action) : Prop :=
  ∀ used ∈ P.use s action, P.hasInitializer used.owner = true → used.owner ∈ used.frame.passed

def Initialized (s : State) (action : Action) : Prop :=
  ∀ ctx branch callee, action = .exec ctx branch callee → ∀ used ∈ P.use s action,
    P.hasInitializer used.owner = true →
      s.phase used.owner = .done ∨ (s.context ctx).initializes used.owner = true

def Untouched (s : State) (action : Action) : Prop :=
  ∀ frame emitted owner, P.executed s action = some (frame, emitted) → emitted.instr = .callInit owner →
    s.stored owner = false

/-- Not an ungated use: a compound assignment, a brace initializer, a call of a func value, or a use of a class that only
inherits an initializer, and from an imported class, unless the activation has passed the gate before. -/
def Meets (s : State) (action : Action) : Prop :=
  ∀ used ∈ P.use s action, P.hasInitializer used.owner = true →
    used.emitted.direct = true ∨ used.emitted.instr = .callDelegate ∨ P.staticInitMember used.owner = false →
      used.owner ∈ used.frame.passed

instance (s : State) (action : Action) : Decidable (P.Meets s action) :=
  inferInstanceAs (Decidable (∀ used ∈ P.use s action, _))

def Waiting (callee : Routine) : List Frame → Prop
  | [] => True
  | caller :: rest => (∀ line, P.lineAt caller = some line →
      P.Path caller.routine (caller.returned line.instr).pc (caller.returned line.instr).facts ∧
        ∀ owner, line.instr.instr = .callInit owner → callee = .staticInit owner) ∧ Waiting caller.routine rest

def Covered (phase : Nat → Phase) : List Frame → Prop
  | [] => True
  | frame :: rest => (∀ owner ∈ frame.passed, phase owner = .done ∨ owner ∈ initOwners (frame :: rest)) ∧
      Covered phase rest

structure ContextInv (phase : Nat → Phase) (ctx : Nat) (c : Context) : Prop where
  nodup : c.claims.Nodup
  claimed : ∀ owner, phase owner = .initializing ctx ↔ owner ∈ c.claims
  calls : ∀ owner, c.pending = some owner → c.raising = false ∧ c.stack ≠ [] ∧
    ∀ frame rest, c.stack = frame :: rest → ∀ line, P.lineAt frame = some line → line.instr.instr = .callInit owner
  reached : ∀ frame ∈ c.stack, ∃ facts, P.Path frame.routine frame.pc facts ∧
    facts.filter Fact.isPassed = frame.facts
  top : c.raising = false → ∀ frame rest, c.stack = frame :: rest →
    P.Path frame.routine frame.pc ((c.pending.map Fact.claimed).toList ++ frame.facts)
  waiting : ∀ frame rest, c.stack = frame :: rest → P.Waiting frame.routine rest
  covered : Covered phase c.stack

def Moves (ctx : Nat) (phase phase' : Nat → Phase) : Prop :=
  ∀ owner, phase' owner = phase owner ∨ (phase owner = .uninitialized ∨ phase owner = .initializing ctx) ∧
    (phase' owner = .uninitialized ∨ phase' owner = .initializing ctx ∨ phase' owner = .done)

variable {P} {phase phase' : Nat → Phase} {ctx : Nat} {c : Context} {frame : Frame} {rest : List Frame}

theorem Moves.refl : Moves ctx phase phase := fun _ => .inl rfl

theorem Moves.done (moves : Moves ctx phase phase') {owner : Nat} (done : phase owner = .done) :
    phase' owner = .done := by
  rcases moves owner with same | ⟨old | old, -⟩
  · rw [same, done]
  · rw [done] at old
    cases old
  · rw [done] at old
    cases old

theorem Covered.mono {stack : List Frame} (kept : ∀ owner, phase owner = .done → phase' owner = .done)
    (covered : Covered phase stack) : Covered phase' stack := by
  induction stack with
  | nil => trivial
  | cons frame rest ih =>
    exact ⟨fun owner passed => (covered.1 owner passed).imp_left (kept owner), ih covered.2⟩

theorem ContextInv.other (inv : P.ContextInv phase ctx c) {actor : Nat} (apart : actor ≠ ctx)
    (moves : Moves actor phase phase') : P.ContextInv phase' ctx c where
  nodup := inv.nodup
  claimed := by
    intro owner
    rw [← inv.claimed owner]
    rcases moves owner with same | ⟨old, new⟩
    · rw [same]
    · constructor
      · intro mine
        rcases new with other | other | other
        · cases mine.symm.trans other
        · cases mine.symm.trans other
          exact absurd rfl apart
        · cases mine.symm.trans other
      · intro mine
        rcases old with other | other
        · cases mine.symm.trans other
        · cases mine.symm.trans other
          exact absurd rfl apart
  calls := inv.calls
  reached := inv.reached
  top := inv.top
  waiting := inv.waiting
  covered := inv.covered.mono fun _ => moves.done

@[simp] theorem facts_filter (frame : Frame) : frame.facts.filter Fact.isPassed = frame.facts := by
  refine List.filter_eq_self.mpr fun fact member => ?_
  obtain ⟨_, _, rfl⟩ := List.mem_map.mp member
  rfl

theorem ContextInv.pending_none (inv : P.ContextInv phase ctx c) (stack : c.stack = frame :: rest) {line : CodeLine}
    (found : P.lineAt frame = some line) (notInit : ∀ owner, line.instr.instr ≠ .callInit owner) :
    c.pending = none := by
  cases pending : c.pending with
  | none => rfl
  | some owner => exact absurd ((inv.calls owner pending).2.2 frame rest stack line found) (notInit owner)

theorem ContextInv.pending_of_raising (inv : P.ContextInv phase ctx c) (raising : c.raising = true) :
    c.pending = none := by
  cases pending : c.pending with
  | none => rfl
  | some owner => rw [(inv.calls owner pending).1] at raising; cases raising

theorem ContextInv.go (inv : P.ContextInv phase ctx c) (stack : c.stack = frame :: rest) (pending : c.pending = none)
    {next : Frame} (same : next.routine = frame.routine) (path : P.Path next.routine next.pc next.facts)
    (covers : ∀ owner ∈ next.passed, owner ∈ frame.passed ∨ phase owner = .done ∨ phase owner = .initializing ctx) :
    P.ContextInv phase ctx { stack := next :: rest } := by
  have owners : initOwners (next :: rest) = initOwners (frame :: rest) := by
    simp [initOwners, List.filterMap_cons, Frame.initOwner, same]
  have claims : c.claims = initOwners (frame :: rest) := by rw [Context.claims, pending, stack]; rfl
  have covered := inv.covered
  rw [stack] at covered
  refine ⟨?_, fun owner => ?_, fun _ none => (by cases none), ?_, ?_, ?_, ?_, covered.2⟩
  · change (initOwners (next :: rest)).Nodup
    rw [owners, ← claims]
    exact inv.nodup
  · change _ ↔ owner ∈ initOwners (next :: rest)
    rw [owners, ← claims]
    exact inv.claimed owner
  · intro other member
    rcases List.mem_cons.mp member with rfl | later
    · exact ⟨_, path, facts_filter _⟩
    · exact inv.reached other (stack ▸ List.mem_cons_of_mem _ later)
  · rintro - _ _ ⟨⟩
    exact path
  · rintro _ _ ⟨⟩
    rw [same]
    exact inv.waiting frame rest stack
  · intro owner passed
    rw [owners]
    rcases covers owner passed with old | done | mine
    · exact covered.1 owner old
    · exact .inl done
    · right
      rw [← claims]
      exact (inv.claimed owner).mp mine

theorem ContextInv.push (inv : P.ContextInv phase ctx c) (stack : c.stack = frame :: rest) (pending : c.pending = none)
    {line : CodeLine} (found : P.lineAt frame = some line) (notInit : ∀ owner, line.instr.instr ≠ .callInit owner)
    (path : P.Path frame.routine (frame.pc + line.instr.stride) frame.facts) (callee : Nat) :
    P.ContextInv phase ctx { stack := { routine := .function callee } :: frame :: rest } := by
  have claims : c.claims = initOwners (frame :: rest) := by rw [Context.claims, pending, stack]; rfl
  have back : frame.returned line.instr = frame.goTo (frame.pc + line.instr.stride) := by
    unfold Frame.returned
    split
    · exact absurd ‹_› (notInit _)
    · rfl
  refine ⟨?_, fun owner => ?_, fun _ none => (by cases none), ?_, ?_, ?_, fun _ none => (by cases none), ?_⟩
  · change (initOwners (frame :: rest)).Nodup
    rw [← claims]
    exact inv.nodup
  · change _ ↔ owner ∈ initOwners (frame :: rest)
    rw [← claims]
    exact inv.claimed owner
  · intro other member
    rcases List.mem_cons.mp member with rfl | later
    · exact ⟨[], .start, rfl⟩
    · exact inv.reached other (stack ▸ later)
  · rintro - _ _ ⟨⟩
    exact .start
  · rintro _ _ ⟨⟩
    refine ⟨fun line' found' => ?_, inv.waiting frame rest stack⟩
    obtain rfl := Option.some.inj (found.symm.trans found')
    refine ⟨?_, fun owner same => absurd same (notInit owner)⟩
    rw [back]
    exact path
  · rw [← stack]
    exact inv.covered

theorem ContextInv.claim (inv : P.ContextInv phase ctx c) (small : P.Small) (stack : c.stack = frame :: rest)
    (running : c.raising = false) (pending : c.pending = none) {line : CodeLine} (found : P.lineAt frame = some line)
    {owner donePc : Nat} (gate : line.instr.instr = .classInitGate owner donePc)
    (free : phase owner = .uninitialized) :
    P.ContextInv (Function.update phase owner (.initializing ctx)) ctx
      { stack := frame.goTo (frame.pc + line.instr.stride) :: rest, pending := some owner } := by
  have width : line.instr.stride = 7 := by rw [Emitted.stride, gate]
  have claims : c.claims = initOwners (frame :: rest) := by rw [Context.claims, pending, stack]; rfl
  have fresh : owner ∉ initOwners (frame :: rest) := by
    intro mine
    rw [← claims, ← inv.claimed, free] at mine
    cases mine
  have covered := inv.covered
  rw [stack] at covered
  have path := inv.top running frame rest stack
  rw [pending] at path
  have next : P.Path frame.routine (frame.pc + 7) (.claimed owner :: frame.facts) :=
    .edge path found (by rw [edges, gate]; exact List.mem_cons_of_mem _ List.mem_cons_self)
  obtain ⟨call, after, calls⟩ := (code_sound small frame.routine).call_after found gate
  rw [width]
  refine ⟨?_, fun other => ?_, ?_, ?_, ?_, ?_, ?_⟩
  · change (owner :: initOwners (frame :: rest)).Nodup
    refine List.nodup_cons.mpr ⟨fresh, ?_⟩
    rw [← claims]
    exact inv.nodup
  · change _ ↔ other ∈ owner :: initOwners (frame :: rest)
    rw [List.mem_cons, ← claims, ← inv.claimed other]
    by_cases same : other = owner
    · subst same
      simp
    · simp [same]
  · rintro _ ⟨⟩
    refine ⟨rfl, List.cons_ne_nil _ _, ?_⟩
    rintro _ _ ⟨⟩ line' found'
    obtain rfl := Option.some.inj (after.symm.trans found')
    exact calls
  · intro other member
    rcases List.mem_cons.mp member with rfl | later
    · refine ⟨_, next, ?_⟩
      rw [List.filter_cons]
      exact facts_filter frame
    · exact inv.reached other (stack ▸ List.mem_cons_of_mem _ later)
  · rintro - _ _ ⟨⟩
    exact next
  · rintro _ _ ⟨⟩
    exact inv.waiting frame rest stack
  · have kept : ∀ other, phase other = .done → Function.update phase owner (.initializing ctx) other = .done := by
      intro other done
      by_cases same : other = owner
      · rw [same, free] at done
        cases done
      · rwa [Function.update_of_ne same]
    exact Covered.mono kept covered

theorem ContextInv.callInit (inv : P.ContextInv phase ctx c) (small : P.Small) (stack : c.stack = frame :: rest)
    (running : c.raising = false) {line : CodeLine} (found : P.lineAt frame = some line) {owner : Nat}
    (call : line.instr.instr = .callInit owner) :
    c.pending = some owner ∧
      P.ContextInv phase ctx { stack := { routine := .staticInit owner } :: frame :: rest } := by
  have path := inv.top running frame rest stack
  have claimed := Path.covered small path found (((code_sound small frame.routine).good (mem_of_fetch found)).claimed
    owner call).2
  have pending : c.pending = some owner := by
    rcases List.mem_append.mp claimed with here | passed
    · cases pending : c.pending with
      | none => rw [pending] at here; cases here
      | some other =>
        rw [pending] at here
        cases List.mem_singleton.mp here
        rfl
    · obtain ⟨_, _, differs⟩ := List.mem_map.mp passed
      cases differs
  have claims : c.claims = owner :: initOwners (frame :: rest) := by rw [Context.claims, pending, stack]; rfl
  rw [pending] at path
  have next : P.Path frame.routine (frame.pc + 5) (.passed owner :: frame.facts) := by
    have edge : (frame.pc + 5, .passed owner :: frame.facts) ∈ edges frame.pc line.instr
        ((Option.map Fact.claimed (some owner)).toList ++ frame.facts) := by
      rw [edges, call]
      simp [Fact.isPassed]
    exact .edge path found edge
  refine ⟨pending, ?_, fun other => ?_, fun _ none => (by cases none), ?_, ?_, ?_, fun _ none => (by cases none), ?_⟩
  · change (owner :: initOwners (frame :: rest)).Nodup
    rw [← claims]
    exact inv.nodup
  · change _ ↔ other ∈ owner :: initOwners (frame :: rest)
    rw [← claims]
    exact inv.claimed other
  · intro other member
    rcases List.mem_cons.mp member with rfl | later
    · exact ⟨[], .start, rfl⟩
    · exact inv.reached other (stack ▸ later)
  · rintro - _ _ ⟨⟩
    exact .start
  · rintro _ _ ⟨⟩
    refine ⟨fun line' found' => ?_, inv.waiting frame rest stack⟩
    obtain rfl := Option.some.inj (found.symm.trans found')
    refine ⟨?_, fun other same => ?_⟩
    · have width : line.instr.stride = 5 := by rw [Emitted.stride, call]
      rw [Frame.returned, call, width]
      exact next
    · rw [call] at same
      cases same
      rfl
  · rw [← stack]
    exact inv.covered

theorem ContextInv.popped (inv : P.ContextInv phase ctx c) (stack : c.stack = frame :: rest) (pending : c.pending = none)
    {outcome : Phase} (settled : outcome = .done ∨ outcome = .uninitialized) :
    (initOwners rest).Nodup ∧
      (∀ owner, frame.settle phase outcome owner = .initializing ctx ↔ owner ∈ initOwners rest) ∧
      Covered (frame.settle phase outcome) rest ∧ Moves ctx phase (frame.settle phase outcome) := by
  have claims : c.claims = initOwners (frame :: rest) := by rw [Context.claims, pending, stack]; rfl
  have nodup := inv.nodup
  have claimed := inv.claimed
  have covered := inv.covered
  rw [claims] at nodup
  rw [stack] at covered
  simp only [claims] at claimed
  cases routine : frame.routine with
  | function callee =>
    have owners : initOwners (frame :: rest) = initOwners rest := by
      simp [initOwners, Frame.initOwner, routine]
    have kept : frame.settle phase outcome = phase := by rw [Frame.settle, routine]
    rw [owners] at nodup claimed
    rw [kept]
    exact ⟨nodup, claimed, covered.2, .refl⟩
  | staticInit owner =>
    have owners : initOwners (frame :: rest) = owner :: initOwners rest := by
      simp [initOwners, Frame.initOwner, routine]
    have kept : frame.settle phase outcome = Function.update phase owner outcome := by rw [Frame.settle, routine]
    rw [owners] at nodup claimed
    obtain ⟨once, nodup⟩ := List.nodup_cons.mp nodup
    have mine : phase owner = .initializing ctx := (claimed owner).mpr List.mem_cons_self
    rw [kept]
    have moves : Moves ctx phase (Function.update phase owner outcome) := by
      intro other
      by_cases same : other = owner
      · subst same
        rw [Function.update_self]
        refine .inr ⟨.inr mine, ?_⟩
        rcases settled with rfl | rfl
        · exact .inr (.inr rfl)
        · exact .inl rfl
      · exact .inl (Function.update_of_ne same _ _)
    refine ⟨nodup, fun other => ?_, covered.2.mono fun _ => moves.done, moves⟩
    by_cases same : other = owner
    · subst same
      rw [Function.update_self]
      refine ⟨fun initializing => ?_, fun below => absurd below once⟩
      rcases settled with rfl | rfl <;> cases initializing
    · rw [Function.update_of_ne same, claimed other]
      exact ⟨fun member => (List.mem_cons.mp member).resolve_left same, List.mem_cons_of_mem _⟩

theorem ContextInv.ret (inv : P.ContextInv phase ctx c) (small : P.Small) (stack : c.stack = frame :: rest)
    (pending : c.pending = none) :
    P.ContextInv (frame.settle phase .done) ctx { stack := P.resume rest } ∧
      Moves ctx phase (frame.settle phase .done) := by
  obtain ⟨nodup, claimed, covered, moves⟩ := inv.popped stack pending (.inl rfl)
  refine ⟨?_, moves⟩
  cases rest with
  | nil =>
    exact ⟨nodup, claimed, fun _ none => (by cases none), fun _ none => (by cases none),
      fun _ _ _ none => (by cases none), fun _ _ none => (by cases none), trivial⟩
  | cons caller callers =>
    obtain ⟨back, waiting⟩ := inv.waiting frame (caller :: callers) stack
    obtain ⟨_, path, -⟩ := inv.reached caller (by rw [stack]; simp)
    obtain ⟨line, found, -⟩ := Path.line small path
    obtain ⟨next, initializer⟩ := back line found
    have resumed : P.resume (caller :: callers) = caller.returned line.instr :: callers := by
      rw [Program.resume, show P.lineAt caller = some line from found]
    have same : (caller.returned line.instr).routine = caller.routine := by
      unfold Frame.returned
      split <;> rfl
    have owners : initOwners (caller.returned line.instr :: callers) = initOwners (caller :: callers) := by
      simp [initOwners, List.filterMap_cons, Frame.initOwner, same]
    rw [resumed]
    refine ⟨?_, fun owner => ?_, fun _ none => (by cases none), ?_, ?_, ?_, ?_, covered.2⟩
    · change (initOwners (caller.returned line.instr :: callers)).Nodup
      rw [owners]
      exact nodup
    · change _ ↔ owner ∈ initOwners (caller.returned line.instr :: callers)
      rw [owners]
      exact claimed owner
    · intro other member
      rcases List.mem_cons.mp member with rfl | later
      · exact ⟨_, same ▸ next, facts_filter _⟩
      · exact inv.reached other (by rw [stack]; simp [later])
    · rintro - _ _ ⟨⟩
      exact same ▸ next
    · rintro _ _ ⟨⟩
      rw [same]
      exact waiting
    · intro owner passed
      rw [owners]
      unfold Frame.returned at passed
      split at passed
      · rename_i called call
        rcases List.mem_cons.mp passed with rfl | old
        · left
          simp only [Frame.settle, initializer owner call, Function.update_self]
        · exact covered.1 owner old
      · exact covered.1 owner passed

theorem ContextInv.unwind (inv : P.ContextInv phase ctx c) (stack : c.stack = frame :: rest)
    (raising : c.raising = true) :
    P.ContextInv (frame.settle phase .uninitialized) ctx { stack := rest, raising := !rest.isEmpty } ∧
      Moves ctx phase (frame.settle phase .uninitialized) := by
  obtain ⟨nodup, claimed, covered, moves⟩ := inv.popped stack (inv.pending_of_raising raising) (.inr rfl)
  refine ⟨⟨nodup, claimed, fun _ none => (by cases none), ?_, ?_, ?_, covered⟩, moves⟩
  · exact fun other member => inv.reached other (stack ▸ List.mem_cons_of_mem _ member)
  · rintro still _ _ rfl
    cases still
  · rintro caller callers rfl
    exact (inv.waiting frame _ stack).2

theorem ContextInv.raise (inv : P.ContextInv phase ctx c) (pending : c.pending = none) :
    P.ContextInv phase ctx { stack := c.stack, raising := true } := by
  have claims : c.claims = initOwners c.stack := by rw [Context.claims, pending]; rfl
  refine ⟨?_, fun owner => ?_, fun _ none => (by cases none), inv.reached, fun none => (by cases none), inv.waiting,
    inv.covered⟩
  · change (initOwners c.stack).Nodup
    rw [← claims]
    exact inv.nodup
  · change _ ↔ owner ∈ initOwners c.stack
    rw [← claims]
    exact inv.claimed owner

theorem ContextInv.start (inv : P.ContextInv phase ctx c) (empty : c.stack = []) (callee : Nat) :
    P.ContextInv phase ctx { stack := [{ routine := .function callee }] } := by
  have pending : c.pending = none := by
    cases pending : c.pending with
    | none => rfl
    | some owner => exact absurd empty (inv.calls owner pending).2.1
  have claims : c.claims = [] := by rw [Context.claims, pending, empty]; rfl
  refine ⟨List.nodup_nil, fun owner => ?_, fun _ none => (by cases none), ?_, ?_, ?_, fun _ none => (by cases none),
    trivial⟩
  · rw [inv.claimed owner, claims]
    rfl
  · intro frame member
    cases List.mem_singleton.mp member
    exact ⟨[], .start, rfl⟩
  · rintro - _ _ ⟨⟩
    exact .start
  · rintro _ _ ⟨⟩
    trivial

theorem ContextInv.fail (ctx : Nat) (phase : Nat → Phase) :
    P.ContextInv (fun owner => if phase owner = .initializing ctx then .uninitialized else phase owner) ctx {} ∧
      Moves ctx phase fun owner => if phase owner = .initializing ctx then .uninitialized else phase owner := by
  refine ⟨⟨List.nodup_nil, fun owner => ?_, fun _ none => (by cases none), fun _ none => (by cases none),
    fun _ _ _ none => (by cases none), fun _ _ none => (by cases none), trivial⟩, fun owner => ?_⟩
  · constructor
    · intro mine
      split at mine
      · cases mine
      · exact absurd mine ‹_›
    · intro none
      cases none
  · by_cases mine : phase owner = .initializing ctx
    · exact .inr ⟨.inr mine, .inl (if_pos mine)⟩
    · exact .inl (if_neg mine)

theorem ContextInv.next (inv : P.ContextInv phase ctx c) (stack : c.stack = frame :: rest)
    (running : c.raising = false) {line : CodeLine} (found : P.lineAt frame = some line)
    (notInit : ∀ owner, line.instr.instr ≠ .callInit owner) {edge : Nat × List Fact}
    (member : edge ∈ edges frame.pc line.instr frame.facts) : P.Path frame.routine edge.1 edge.2 := by
  have path := inv.top running frame rest stack
  rw [inv.pending_none stack found notInit] at path
  exact .edge path found member

theorem ContextInv.execute (inv : P.ContextInv phase ctx c) (small : P.Small) (stack : c.stack = frame :: rest)
    (running : c.raising = false) {line : CodeLine} (found : P.lineAt frame = some line) {branch : Bool}
    {callee : Option Nat} {c' : Context}
    (result : P.execute phase ctx frame rest line.instr branch callee = some (phase', c')) :
    P.ContextInv phase' ctx c' ∧ Moves ctx phase phase' := by
  obtain ⟨⟨instr, direct⟩, facts⟩ := line
  -- The top frame goes where an edge leads, with what it has passed.
  have goes : (∀ owner, instr ≠ .callInit owner) → ∀ {target}, (target, frame.facts) ∈ edges frame.pc ⟨instr, direct⟩
      frame.facts → P.ContextInv phase ctx { stack := frame.goTo target :: rest } := fun notInit _ member =>
    inv.go stack (inv.pending_none stack found notInit) rfl (inv.next stack running found notInit member)
      fun _ => .inl
  have calls : (∀ owner, instr ≠ .callInit owner) →
      (frame.pc + (Emitted.mk instr direct).stride, frame.facts) ∈ edges frame.pc ⟨instr, direct⟩ frame.facts →
      ∀ callee, P.ContextInv phase ctx { stack := { routine := .function callee } :: frame :: rest } :=
    fun notInit member callee => inv.push stack (inv.pending_none stack found notInit) found notInit
      (inv.next stack running found notInit member) callee
  cases instr with
  | classInitGate owner donePc =>
    have notInit : ∀ other, Instr.classInitGate owner donePc ≠ .callInit other := fun _ same => by cases same
    have pending := inv.pending_none stack found notInit
    have gate : (donePc, .passed owner :: frame.facts) ∈
        edges frame.pc ⟨.classInitGate owner donePc, direct⟩ frame.facts := List.mem_cons_self
    have path := inv.next stack running found notInit gate
    simp only [Program.execute] at result
    split at result
    · rename_i done
      obtain ⟨rfl, rfl⟩ := Prod.mk.inj (Option.some.inj result)
      refine ⟨inv.go stack pending rfl path fun other passed => ?_, .refl⟩
      rcases List.mem_cons.mp passed with rfl | old
      · exact .inr (.inl done)
      · exact .inl old
    · rename_i initializing
      split at result
      · subst ‹_ = ctx›
        obtain ⟨rfl, rfl⟩ := Prod.mk.inj (Option.some.inj result)
        refine ⟨inv.go stack pending rfl path fun other passed => ?_, .refl⟩
        rcases List.mem_cons.mp passed with rfl | old
        · exact .inr (.inr initializing)
        · exact .inl old
      · cases result
    · rename_i free
      obtain ⟨rfl, rfl⟩ := Prod.mk.inj (Option.some.inj result)
      refine ⟨inv.claim small stack running pending found rfl free, fun other => ?_⟩
      by_cases same : other = owner
      · subst same
        exact .inr ⟨.inl free, .inr (.inl (Function.update_self _ _ _))⟩
      · exact .inl (Function.update_of_ne same _ _)
  | callInit owner =>
    obtain ⟨rfl, rfl⟩ := Prod.mk.inj (Option.some.inj result)
    exact ⟨(inv.callInit small stack running found rfl).2, .refl⟩
  | callFunc target =>
    simp only [Program.execute] at result
    split at result
    · obtain ⟨rfl, rfl⟩ := Prod.mk.inj (Option.some.inj result)
      exact ⟨calls (fun _ same => by cases same) List.mem_cons_self target, .refl⟩
    · obtain ⟨rfl, rfl⟩ := Prod.mk.inj (Option.some.inj result)
      exact ⟨goes (fun _ same => by cases same) List.mem_cons_self, .refl⟩
  | callMethod =>
    simp only [Program.execute] at result
    split at result
    · split at result
      · obtain ⟨rfl, rfl⟩ := Prod.mk.inj (Option.some.inj result)
        exact ⟨calls (fun _ same => by cases same) List.mem_cons_self _, .refl⟩
      · cases result
    · obtain ⟨rfl, rfl⟩ := Prod.mk.inj (Option.some.inj result)
      exact ⟨goes (fun _ same => by cases same) List.mem_cons_self, .refl⟩
  | callDelegate =>
    simp only [Program.execute] at result
    split at result
    · obtain ⟨rfl, rfl⟩ := Prod.mk.inj (Option.some.inj result)
      exact ⟨calls (fun _ same => by cases same) List.mem_cons_self _, .refl⟩
    · obtain ⟨rfl, rfl⟩ := Prod.mk.inj (Option.some.inj result)
      exact ⟨goes (fun _ same => by cases same) List.mem_cons_self, .refl⟩
  | jumpIfNot target =>
    obtain ⟨rfl, rfl⟩ := Prod.mk.inj (Option.some.inj result)
    refine ⟨?_, .refl⟩
    split
    · exact goes (fun _ same => by cases same) List.mem_cons_self
    · exact goes (fun _ same => by cases same) (List.mem_cons_of_mem _ List.mem_cons_self)
  | ret =>
    obtain ⟨rfl, rfl⟩ := Prod.mk.inj (Option.some.inj result)
    exact inv.ret small stack (inv.pending_none stack found fun _ same => by cases same)
  | throwValue =>
    obtain ⟨rfl, rfl⟩ := Prod.mk.inj (Option.some.inj result)
    rw [← stack]
    exact ⟨inv.raise (inv.pending_none stack found fun _ same => by cases same), .refl⟩
  | jump | loadStatic | storeStatic | new | op =>
    obtain ⟨rfl, rfl⟩ := Prod.mk.inj (Option.some.inj result)
    exact ⟨goes (fun _ same => by cases same) List.mem_cons_self, .refl⟩

variable {s s' : State} {action : Action}

theorem ContextInv.effect (inv : ∀ ctx, P.ContextInv s.phase ctx (s.context ctx)) (small : P.Small)
    (result : P.effect s action = some (ctx, phase', c)) :
    P.ContextInv phase' ctx c ∧ Moves ctx s.phase phase' := by
  cases action with
  | start other callee =>
    simp only [Program.effect] at result
    split at result
    · cases result
      exact ⟨(inv ctx).start ‹_› callee, .refl⟩
    · cases result
  | exec other branch callee =>
    simp only [Program.effect] at result
    split at result
    · rename_i shape
      obtain ⟨line, found, later⟩ := Option.bind_eq_some_iff.mp result
      obtain ⟨⟨phase, context⟩, executed, same⟩ := Option.bind_eq_some_iff.mp later
      cases same
      exact (inv ctx).execute small (by rw [shape]) (by rw [shape]) found executed
    · cases result
  | raise other =>
    simp only [Program.effect] at result
    split at result
    · rename_i shape
      obtain ⟨line, found, later⟩ := Option.bind_eq_some_iff.mp result
      split at later
      · rename_i mayRaise
        cases later
        have notInit : ∀ owner, line.instr.instr ≠ .callInit owner := by
          intro owner call
          rw [call] at mayRaise
          cases mayRaise
        have stack : (s.context ctx).stack = _ :: _ := congrArg Context.stack shape
        have raised := (inv ctx).raise ((inv ctx).pending_none stack found notInit)
        rw [stack] at raised
        exact ⟨raised, .refl⟩
      · cases later
    · cases result
  | handle other row =>
    simp only [Program.effect] at result
    split at result
    · rename_i shape
      obtain ⟨row, member, later⟩ := Option.bind_eq_some_iff.mp result
      split at later
      · rename_i inside
        cases later
        have stack : (s.context ctx).stack = _ := congrArg Context.stack shape
        have raising : (s.context ctx).raising = true := congrArg Context.raising shape
        obtain ⟨facts, path, filtered⟩ := (inv ctx).reached _ (by rw [stack]; exact List.mem_cons_self)
        refine ⟨(inv ctx).go stack ((inv ctx).pending_of_raising raising) rfl ?_ fun _ => .inl, .refl⟩
        exact .enter path ⟨row, List.mem_of_getElem? member, inside.1, inside.2, rfl, filtered.symm⟩
      · cases later
    · cases result
  | unwind other =>
    simp only [Program.effect] at result
    split at result
    · rename_i shape
      cases result
      exact (inv ctx).unwind (congrArg Context.stack shape) (congrArg Context.raising shape)
    · cases result
  | fail other =>
    cases result
    exact ContextInv.fail _ _

structure Inv (s : State) : Prop where
  contexts : ∀ ctx, P.ContextInv s.phase ctx (s.context ctx)
  stored : ∀ owner, P.staticInitMember owner = true → s.stored owner = true → s.phase owner = .done

theorem Inv.initial : P.Inv .initial where
  contexts ctx := by
    refine ⟨List.nodup_nil, fun owner => ?_, fun _ none => (by cases none), fun _ none => (by cases none),
      fun _ _ _ none => (by cases none), fun _ _ none => (by cases none), trivial⟩
    exact ⟨fun none => (by cases none), fun none => by cases none⟩
  stored := fun _ _ none => by cases none

theorem hasInitializer_of_member {owner : Nat} (synthesized : P.staticInitMember owner = true) :
    P.hasInitializer owner = true := by
  unfold staticInitMember at synthesized
  cases declared : P.owners[owner]? with
  | none => rw [declared] at synthesized; cases synthesized
  | some decl =>
    rw [declared] at synthesized
    obtain ⟨ancestor, member, own⟩ := List.any_eq_true.mp synthesized
    exact List.any_eq_true.mpr ⟨ancestor, member, (Bool.and_eq_true_iff.mp own).2⟩

theorem executed_eq_some {emitted : Emitted} (executes : P.executed s action = some (frame, emitted)) :
    ∃ ctx branch callee rest line, action = .exec ctx branch callee ∧ (s.context ctx).stack = frame :: rest ∧
      (s.context ctx).raising = false ∧ P.lineAt frame = some line ∧ line.instr = emitted := by
  cases action with
  | exec ctx branch callee =>
    simp only [Program.executed] at executes
    split at executes
    · rename_i shape
      obtain ⟨line, found, same⟩ := Option.map_eq_some_iff.mp executes
      cases same
      exact ⟨ctx, branch, callee, _, line, rfl, congrArg Context.stack shape, congrArg Context.raising shape, found,
        rfl⟩
    · cases executes
  | _ => cases executes

theorem use_eq_some {used : Use} (uses : P.use s action = some used) :
    P.executed s action = some (used.frame, used.emitted) ∧
      (used.emitted.instr ≠ .callDelegate → P.usedOwner used.emitted.instr = some used.owner) := by
  obtain ⟨⟨frame, emitted⟩, executes, later⟩ := Option.bind_eq_some_iff.mp uses
  obtain ⟨owner, owned, same⟩ := Option.map_eq_some_iff.mp later
  cases same
  refine ⟨executes, fun notDelegate => ?_⟩
  unfold usedBy at owned
  split at owned
  · rwa [if_neg notDelegate] at owned
  · exact owned

theorem stores_eq_some {owner : Nat} (stores : P.stores s action = some owner) :
    ∃ ctx branch callee used, action = .exec ctx branch callee ∧ P.use s action = some used ∧ used.owner = owner ∧
      (s.context ctx).initializes owner = false := by
  unfold Program.stores at stores
  split at stores
  · rename_i frame field direct ctx branch callee executes
    obtain ⟨owned, outside⟩ := Option.filter_eq_some_iff.mp stores
    refine ⟨ctx, branch, callee, { frame, emitted := ⟨.storeStatic field, direct⟩, owner }, rfl, ?_, rfl,
      by simpa using outside⟩
    have used : P.usedBy (.storeStatic field) (.exec ctx branch callee) = some owner := by
      cases callee <;> exact owned
    rw [Program.use, executes]
    simp [used]
  · cases stores

theorem Inv.gated_of_meets (inv : P.Inv s) (small : P.Small) (meets : P.Meets s action) : P.Gated s action := by
  intro used uses initializer
  by_cases ungated : used.emitted.direct = true ∨ used.emitted.instr = .callDelegate ∨
      P.staticInitMember used.owner = false
  · exact meets used uses initializer ungated
  · obtain ⟨direct, delegate, member⟩ := by simpa only [not_or] using ungated
    obtain ⟨executes, owned⟩ := use_eq_some uses
    obtain ⟨ctx, branch, callee, rest, line, rfl, stack, running, found, same⟩ := executed_eq_some executes
    rw [← same] at direct owned
    have path := (inv.contexts ctx).top running used.frame rest stack
    rw [(inv.contexts ctx).pending_none stack found (by
      intro other call
      rw [call] at owned
      cases owned (fun same => by cases same))] at path
    have passed := Path.gated small path found (by simpa using direct) (owned (same ▸ delegate)) (by simpa using member)
    obtain ⟨_, here, equal⟩ := List.mem_map.mp passed
    cases equal
    exact here

theorem mem_initOwners {stack : List Frame} {owner : Nat} (member : owner ∈ initOwners stack) :
    (stack.any fun frame => frame.routine == .staticInit owner) = true := by
  obtain ⟨frame, inside, initializes⟩ := List.mem_filterMap.mp member
  refine List.any_eq_true.mpr ⟨frame, inside, ?_⟩
  unfold Frame.initOwner at initializes
  split at initializes
  · rename_i same
    cases initializes
    rw [same]
    exact beq_self_eq_true _
  · cases initializes

theorem Inv.initialized_of_gated (inv : P.Inv s) (gated : P.Gated s action) : P.Initialized s action := by
  rintro ctx branch callee rfl used uses initializer
  obtain ⟨_, _, _, rest, line, same, stack, running, found, -⟩ := executed_eq_some (use_eq_some uses).1
  cases same
  have covered := (inv.contexts ctx).covered
  rw [stack] at covered
  refine (covered.1 used.owner (gated used uses initializer)).imp_right fun below => ?_
  rw [Context.initializes, stack]
  exact mem_initOwners below

theorem Inv.untouched (inv : P.Inv s) (small : P.Small) : P.Untouched s action := by
  intro frame emitted owner executes call
  obtain ⟨ctx, _, _, rest, line, rfl, stack, running, found, rfl⟩ := executed_eq_some executes
  have synthesized := ((code_sound small frame.routine).good (mem_of_fetch found)).claimed owner call |>.1
  have pending := ((inv.contexts ctx).callInit small stack running found call).1
  have initializing : s.phase owner = .initializing ctx := by
    rw [(inv.contexts ctx).claimed, Context.claims, pending]
    exact List.mem_cons_self
  cases stored : s.stored owner with
  | false => rfl
  | true =>
    have done := inv.stored owner synthesized stored
    rw [initializing] at done
    cases done

theorem Inv.step (inv : P.Inv s) (small : P.Small) (gated : P.Gated s action) (taken : P.step s action = some s') :
    P.Inv s' := by
  obtain ⟨⟨ctx, phase, context⟩, result, same⟩ := Option.bind_eq_some_iff.mp taken
  cases same
  obtain ⟨own, moves⟩ := ContextInv.effect inv.contexts small result
  refine ⟨fun other => ?_, fun owner synthesized stored => ?_⟩
  · by_cases same : other = ctx
    · subst same
      simp only [Function.update_self]
      exact own
    · simp only [Function.update_of_ne same]
      exact (inv.contexts other).other (Ne.symm same) moves
  · refine moves.done ?_
    rcases Bool.or_eq_true_iff.mp stored with old | new
    · exact inv.stored owner synthesized old
    · obtain ⟨other, branch, callee, used, rfl, uses, rfl, outside⟩ := stores_eq_some (eq_of_beq new)
      have initializer := hasInitializer_of_member synthesized
      refine (inv.initialized_of_gated gated _ _ _ rfl used uses initializer).resolve_right ?_
      rw [outside]
      exact Bool.false_ne_true

variable (P)

def PathsGated : Prop :=
  ∀ routine pc facts line owner, P.Path routine pc facts →
    fetch Emitted.stride (P.code routine) 0 pc = some line → line.instr.direct = false →
      P.usedOwner line.instr.instr = some owner → P.staticInitMember owner = true → .passed owner ∈ facts

structure StepSafe (s : State) (action : Action) : Prop where
  gated : P.Gated s action
  initialized : P.Initialized s action
  untouched : P.Untouched s action

variable {P}

def ofStatement (statement : Piece) (straight : statement.target = none) : Program where
  owners := [{ module := 0 }]
  fields := [{ owner := 0, initializer := some (.operation .nil 4) }]
  functions := [{
    body := {
      pieces := [statement]
      targets := by
        rintro _ ⟨⟩ target jumps
        · rw [straight] at jumps
          cases jumps
        · contradiction
      handlers := fun _ none => by cases none } }]

theorem small_ofStatement {statement : Piece} (straight : statement.target = none)
    (fits : (ofStatement statement straight).pieceSize statement < 2 ^ 15) : (ofStatement statement straight).Small := by
  intro routine
  rw [code, emitBody, size_emitPieces]
  cases routine with
  | function callee =>
    cases callee with
    | zero =>
      change (([statement] : List Piece).map _).sum + 1 < 2 ^ 16
      simp only [List.map_cons, List.map_nil, List.sum_cons, List.sum_nil]
      omega
    | succ callee => exact Nat.lt_of_lt_of_le (by decide : 0 + 1 < 2) (by decide)
  | staticInit owner =>
    cases owner with
    | zero => exact Nat.lt_of_le_of_lt (Nat.le_refl 23) (by decide)
    | succ owner =>
      have none : (ofStatement statement straight).staticInitPieces (owner + 1) = [] := by
        simp [staticInitPieces, superClass, collectInitializedStatics, needsInitializer, ofStatement]
      change ((ofStatement statement straight).staticInitPieces (owner + 1) |>.map _).sum + 1 < 2 ^ 16
      rw [none]
      exact (by decide : 0 + 1 < 2 ^ 16)

end Program
end NLang.Backend.StaticGates
