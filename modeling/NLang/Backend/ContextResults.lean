import NLang.Backend.RootMap
import NLang.Library.Runs
import NLang.Vm.Scheduler

/-!
# Results of finished contexts

The result cell of a context from its registration on, and the scan of the registry (`MarkSchedulerRoots`,
`MarkContextResultCell`).
-/

namespace NLang.Backend
open NLang.Vm NLang.Library.Runs

structure ResultCell where
  low : Int := 0
  high : Int := 0

def returnTypeKind : Option DeclType → Rtk
  | none => .void
  | some type => runtimeTypeKind type

structure ResultContext where
  state : ContextState := .runnable
  resultCell : ResultCell := {}
  resultKind : Rtk := .int32
  unclassifiedResult : Bool := false
  frameTests : List MarkAction := []
  threadObjHeapIdx : Int := 0
  failExcHeapIdx : Int := 0
  resumeExcHeapIdx : Int := 0
  body : Option DeclType := none
  returned : Option ResultCell := none

namespace ResultContext
variable (ctx : ResultContext)

def decided : Bool := ctx.state = .finished ∨ ctx.state = .failed

def markContextResultCell : List MarkAction :=
  if ctx.unclassifiedResult then [.both ctx.resultCell.low, .both ctx.resultCell.high]
  else if ctx.state ≠ .finished ∧ ctx.state ≠ .failed then [.both ctx.resultCell.low, .both ctx.resultCell.high]
  else
    match ctx.resultKind with
    | .string => [.string ctx.resultCell.low]
    | .cls | .struct | .array | .func => [.record ctx.resultCell.low]
    | _ => []

def markRoots : List MarkAction :=
  ctx.frameTests ++ [.record ctx.threadObjHeapIdx, .record ctx.failExcHeapIdx, .record ctx.resumeExcHeapIdx] ++
    ctx.markContextResultCell

end ResultContext

def markSchedulerRoots (contexts : List ResultContext) : List MarkAction := contexts.flatMap (·.markRoots)

inductive ResultAction where
  /-- `RegisterContext` of main, or the registration and the minted handle of `IntrinsicSpawn`. -/
  | registers (body : Option DeclType) (frameTests : List MarkAction) (threadObj : Int)
  | registersPromise
  /-- Bytecode of the body, which accumulates through the cell, or a delivery to it while it is parked. -/
  | runs (id : Nat) (cell : ResultCell) (frameTests : List MarkAction)
  | moves (id : Nat) (state : ContextState) (resumeExc : Int)
  | returns (id : Nat) (cell : ResultCell)
  | finishes (id : Nat)
  | completes (id : Nat) (cell : ResultCell)
  | fails (id : Nat) (failExc : Int)

def changeContext (contexts : List ResultContext) (id : Nat) (may : ResultContext → Bool)
    (change : ResultContext → ResultContext) : Option (List ResultContext) :=
  if (contexts[id]?).any may then some (contexts.modify id change) else none

def stepContexts (contexts : List ResultContext) : ResultAction → Option (List ResultContext)
  | .registers body frameTests threadObj =>
    some (contexts ++ [{ resultKind := returnTypeKind body, frameTests, threadObjHeapIdx := threadObj, body }])
  | .registersPromise => some (contexts ++ [{ state := .parkedPromise, unclassifiedResult := true }])
  | .runs id cell frameTests =>
    changeContext contexts id (fun ctx => !ctx.unclassifiedResult && !ctx.decided && ctx.returned.isNone)
      fun ctx => { ctx with resultCell := cell, frameTests }
  | .moves id state resumeExc =>
    changeContext contexts id (fun _ => state ≠ .finished ∧ state ≠ .failed)
      fun ctx => { ctx with state, resumeExcHeapIdx := resumeExc }
  | .returns id cell =>
    changeContext contexts id (fun ctx => !ctx.unclassifiedResult && !ctx.decided && ctx.returned.isNone)
      fun ctx =>
        { ctx with
          resultCell := if ctx.body.isSome then cell else ctx.resultCell
          returned := some cell
          frameTests := [] }
  | .finishes id =>
    changeContext contexts id (fun ctx => ctx.returned.isSome) fun ctx => { ctx with state := .finished }
  | .completes id cell =>
    changeContext contexts id (fun ctx => ctx.unclassifiedResult && !ctx.decided)
      fun ctx => { ctx with state := .finished, resultCell := cell }
  | .fails id failExc =>
    changeContext contexts id (fun ctx => !ctx.decided)
      fun ctx => { ctx with state := .failed, failExcHeapIdx := failExc }

def resultClass : Rtk → EvalSlotClass
  | .string => escStrHandle
  | .cls | .struct | .array | .func => escHeapIndex
  | _ => escNone

def DeclType.resultScanned : DeclType → Bool
  | .iface | .typeParam | .object => false
  | _ => true

def ResultSurvives (type : DeclType) : Prop :=
  ∀ contexts, Run stepContexts (fun _ _ => True) [] contexts →
    ∀ ctx ∈ contexts, ctx.body = some type → ctx.state = .finished → ∀ cell, ctx.returned = some cell →
      ∀ tables h strings before after ref, RecordsFormed tables h →
        h.Denotes strings cell.low ref → fitsType type (ref.kind h) = true →
          ∃ marks, markPhase tables h strings (before ++ markSchedulerRoots contexts ++ after) = some marks ∧
            marks.Marks ref

structure ResultContext.Kept (ctx : ResultContext) : Prop where
  classified : ctx.body.isSome → ctx.unclassifiedResult = false ∧ ctx.resultKind = returnTypeKind ctx.body
  cell : ctx.body.isSome → ∀ cell, ctx.returned = some cell → ctx.resultCell = cell

theorem changeContext_kept {contexts after : List ResultContext} {id : Nat} {may : ResultContext → Bool}
    {change : ResultContext → ResultContext} (changed : changeContext contexts id may change = some after)
    (kept : ∀ ctx ∈ contexts, ctx.Kept)
    (changes : ∀ ctx : ResultContext, ctx.Kept → may ctx = true → (change ctx).Kept) : ∀ ctx ∈ after, ctx.Kept := by
  unfold changeContext at changed
  by_cases allowed : (contexts[id]?).any may = true
  · rw [if_pos allowed] at changed
    cases changed
    obtain ⟨own, found, met⟩ := (Option.any_eq_true _ _).mp allowed
    intro ctx member
    obtain ⟨place, there⟩ := List.mem_iff_getElem?.mp member
    rw [List.getElem?_modify] at there
    by_cases same : id = place
    · subst same
      rw [found] at there
      simp only [if_true, Option.map_eq_map, Option.map_some, Option.some.injEq] at there
      exact there ▸ changes own (kept own (List.mem_of_getElem? found)) met
    · simp only [if_neg same, id_map'] at there
      exact kept ctx (List.mem_of_getElem? there)
  · rw [if_neg allowed] at changed
    cases changed

theorem stepContexts_kept {contexts after : List ResultContext} {action : ResultAction}
    (kept : ∀ ctx ∈ contexts, ctx.Kept) (taken : stepContexts contexts action = some after) :
    ∀ ctx ∈ after, ctx.Kept := by
  cases action with
  | registers body frameTests threadObj =>
    cases taken
    intro ctx member
    obtain old | new := List.mem_append.mp member
    · exact kept ctx old
    · cases List.mem_singleton.mp new
      exact ⟨fun _ => ⟨rfl, rfl⟩, fun _ _ returned => nomatch returned⟩
  | registersPromise =>
    cases taken
    intro ctx member
    obtain old | new := List.mem_append.mp member
    · exact kept ctx old
    · cases List.mem_singleton.mp new
      exact ⟨(nomatch ·), (nomatch ·)⟩
  | runs id cell frameTests =>
    refine changeContext_kept taken kept fun ctx own allowed => ⟨own.classified, ?_⟩
    intro _ value returned
    rw [returned] at allowed
    simp at allowed
  | moves id state resumeExc =>
    exact changeContext_kept taken kept fun ctx own _ => ⟨own.classified, own.cell⟩
  | returns id cell =>
    refine changeContext_kept taken kept fun ctx own _ => ⟨own.classified, ?_⟩
    intro hasResult value returned
    cases returned
    exact if_pos hasResult
  | finishes id =>
    exact changeContext_kept taken kept fun ctx own _ => ⟨own.classified, own.cell⟩
  | completes id cell =>
    refine changeContext_kept taken kept fun ctx own allowed => ⟨own.classified, ?_⟩
    intro hasResult
    rw [(own.classified hasResult).1] at allowed
    cases allowed
  | fails id failExc =>
    exact changeContext_kept taken kept fun ctx own _ => ⟨own.classified, own.cell⟩

theorem run_kept {contexts : List ResultContext} (run : Run stepContexts (fun _ _ => True) [] contexts) :
    ∀ ctx ∈ contexts, ctx.Kept :=
  run.invariant (fun contexts => ∀ ctx ∈ contexts, ctx.Kept) (fun _ member => absurd member List.not_mem_nil)
    fun _ _ _ kept _ taken => stepContexts_kept kept taken

section
variable {h : Heap} {strings : StringStore} {ref : Ref} {ctx : ResultContext}

theorem rooted_markFinished (classified : ctx.unclassifiedResult = false) (finished : ctx.state = .finished) :
    Rooted h strings ctx.markContextResultCell ref ↔
      ref ∈ classTargets h strings (resultClass ctx.resultKind) ctx.resultCell.low := by
  unfold ResultContext.markContextResultCell
  rw [classified, finished]
  cases ctx.resultKind <;>
    simp [Rooted, MarkAction.targets, classTargets, resultClass, escNone, escStrHandle, escHeapIndex]

theorem covers_resultClass (type : DeclType) :
    Covers (resultClass (runtimeTypeKind type)) type ↔ type.resultScanned = true := by
  cases type with
  | scalar kind => cases kind <;> decide
  | struct structIdx =>
    simp [Covers, runtimeTypeKind, resultClass, DeclType.resultScanned, DeclType.domains, escHeapIndex]
  | _ => decide

theorem rooted_of_resultScanned {type : DeclType} (scanned : type.resultScanned = true)
    (classified : ctx.unclassifiedResult = false) (kind : ctx.resultKind = runtimeTypeKind type)
    (finished : ctx.state = .finished) (denotes : h.Denotes strings ctx.resultCell.low ref)
    (fits : fitsType type (ref.kind h) = true) : Rooted h strings ctx.markContextResultCell ref := by
  rw [rooted_markFinished classified finished, kind]
  obtain ⟨inStrings, inHeap⟩ := (covers_iff _ _).mp ((covers_resultClass type).mpr scanned)
  refine mem_classTargets.mpr ⟨denotes, ?_⟩
  cases ref with
  | string handle =>
    apply inStrings
    rw [domains_string]
    exact fits
  | record i => exact inHeap ((fitsType_record type).mpr ⟨_, fits⟩)

theorem rooted_registry {contexts : List ResultContext} {before after : List MarkAction} (member : ctx ∈ contexts)
    (rooted : Rooted h strings ctx.markContextResultCell ref) :
    Rooted h strings (before ++ markSchedulerRoots contexts ++ after) ref := by
  refine rooted_append.mpr (.inl (rooted_append.mpr (.inr (rooted_flatMap.mpr ⟨ctx, member, ?_⟩))))
  exact rooted_append.mpr (.inr rooted)

end

theorem survives_of_scanned {type : DeclType} (scanned : type.resultScanned = true) : ResultSurvives type := by
  intro contexts run ctx member body finished cell returned tables h strings before after ref formed denotes fits
  have kept := run_kept run ctx member
  have hasResult : ctx.body.isSome := by rw [body]; rfl
  obtain ⟨classified, kind⟩ := kept.classified hasResult
  rw [body] at kind
  rw [← kept.cell hasResult cell returned] at denotes
  obtain ⟨marks, phase, exactly⟩ := markPhase_spec strings formed (before ++ markSchedulerRoots contexts ++ after)
  have rooted := rooted_of_resultScanned scanned classified kind finished denotes fits
  exact ⟨marks, phase, (exactly ref).mpr ⟨ref, rooted_registry member rooted, .refl⟩⟩

/-- A context whose body returned `value` and which nothing else refers to. -/
def finishedWith (type : DeclType) (value : Int) : ResultContext :=
  { state := .finished, resultCell := ⟨value, 0⟩, resultKind := runtimeTypeKind type, body := some type
    returned := some ⟨value, 0⟩ }

theorem finishedWith_run (type : DeclType) (value : Int) :
    Run stepContexts (fun _ _ => True) [] [finishedWith type value] :=
  Run.refl.actions (fun _ _ _ => trivial)
    (show [ResultAction.registers (some type) [] 0, .returns 0 ⟨value, 0⟩, .finishes 0].foldlM stepContexts [] =
      some [finishedWith type value] from rfl)

def threeStrings : StringStore := { size := 4, form := fun _ => .flat }

theorem not_survives_object (type : DeclType) (fits : fitsType type (some .cls) = true)
    (unscanned : markPhase shapeDecls.tables shapeHeap noStrings ([] ++ markSchedulerRoots [finishedWith type 2] ++ []) =
      some {}) : ¬ ResultSurvives type := by
  intro survives
  obtain ⟨marks, phase, marked⟩ := survives _ (finishedWith_run type 2) _ (List.mem_singleton_self _) rfl rfl _ rfl
    shapeDecls.tables shapeHeap noStrings [] [] (.record 2) shapeHeap_formed ⟨rfl, rfl⟩ fits
  rw [unscanned] at phase
  cases phase
  cases marked

theorem not_survives_string : ¬ ResultSurvives .object := by
  intro survives
  obtain ⟨marks, phase, marked⟩ := survives _ (finishedWith_run .object 3) _ (List.mem_singleton_self _) rfl rfl _ rfl
    shapeDecls.tables shapeHeap threeStrings [] [] (.string 3) shapeHeap_formed ⟨rfl, rfl⟩ rfl
  have unscanned : markPhase shapeDecls.tables shapeHeap threeStrings
      ([] ++ markSchedulerRoots [finishedWith .object 3] ++ []) = some {} := rfl
  rw [unscanned] at phase
  cases phase
  cases marked

/-- The result of a body survives until it is taken just if its type is not an interface, a type parameter or
`Object`. -/
theorem result_survives_iff (type : DeclType) : ResultSurvives type ↔ type.resultScanned = true := by
  constructor
  · intro survives
    cases type with
    | iface => exact absurd survives (not_survives_object .iface rfl rfl)
    | typeParam => exact absurd survives (not_survives_object .typeParam rfl rfl)
    | object => exact absurd survives not_survives_string
    | _ => rfl
  · exact survives_of_scanned

theorem interface_result_unmarked : ¬ ∀ type, ResultSurvives type := by
  intro survives
  exact absurd (survives .iface) (not_survives_object .iface rfl rfl)

end NLang.Backend
