import Mathlib

/-!
# Angle brackets

The angle bracket rules of `nlang.l` with the generic depth of `ScriptScanner`, and the parser's increment of the depth
in the plain arm of `Type` (`nlang.y`). A text is given by the roles that its lexemes have in a derivation; the scanner
sees none of them.
-/

namespace NLang.Compiler.ScriptScanner

inductive Atom where
  | greater | equals
  /-- Whether the parser counts a plain `<` here: it does so in the arm of `Type` with a `TypeList`. -/
  | less (counted : Bool)
  | blank
  | name (builtinGeneric : Bool)
  | kwFunc | kwClass
  | other

inductive Token where
  | close | rsh | rshs | ge | plainLt | typeLt | lsh | lshs | le | eq | assign | name | kwFunc | kwClass | other
  deriving DecidableEq

structure Flags where
  genericOpen : Bool := false
  classDeclName : Bool := false

structure State where
  depth : Nat := 0
  flags : Flags := {}

namespace State
variable (s : State)

def incGenericDepth : State := { s with depth := s.depth + 1 }

def decGenericDepth : State := { s with depth := s.depth - 1 }

def clearGenericDepth : State := { s with depth := 0 }

end State

def nextToken (s : State) : Atom → List Atom → Option (Token × State × Nat)
  | .greater, .greater :: .equals :: _ =>
    if 0 < s.depth then some (.close, s.decGenericDepth, 0) else some (.rshs, s, 2)
  | .greater, .greater :: _ => if 0 < s.depth then some (.close, s.decGenericDepth, 0) else some (.rsh, s, 1)
  | .greater, .equals :: _ => some (.ge, s, 1)
  | .greater, _ => some (.close, s.decGenericDepth, 0)
  | .less _, .less _ :: .equals :: _ => some (.lshs, s, 2)
  | .less _, .less _ :: _ => some (.lsh, s, 1)
  | .less _, .equals :: _ => some (.le, s, 1)
  | .less counted, _ =>
    -- `TakePendingGenericOpen`
    let taken : State := { s with flags.genericOpen := false }
    if s.flags.genericOpen then some (.typeLt, taken.incGenericDepth, 0)
    else some (.plainLt, if counted then taken.incGenericDepth else taken, 0)
  | .equals, .equals :: _ => some (.eq, s, 1)
  | .equals, _ => some (.assign, s, 0)
  | .blank, _ => none
  | .name builtinGeneric, _ =>
    some (.name, { s with flags := ⟨!s.flags.classDeclName && builtinGeneric, false⟩ }, 0)
  | .kwFunc, _ => some (.kwFunc, { s with flags.genericOpen := true }, 0)
  | .kwClass, _ => some (.kwClass, { s with flags.classDeclName := true }, 0)
  | .other, _ => some (.other, s, 0)

/-- The tokens of an input, each with the state after it. Atoms of the last token are left out first. -/
def scan : State → Nat → List Atom → List (Token × State)
  | _, _, [] => []
  | s, more + 1, _ :: rest => scan s more rest
  | s, 0, atom :: rest =>
    match nextToken s atom rest with
    | some (token, s', more) => (token, s') :: scan s' more rest
    | none => scan s 0 rest

inductive Sign where
  | rsh | rshs | ge | lsh | lshs | le | eq | assign
  deriving DecidableEq

inductive Lexeme where
  | blank
  | name (builtinGeneric : Bool)
  | kwFunc | kwClass
  | openArgs (counted : Bool)
  | closeArgs
  | less | greater
  | sign (op : Sign)
  | other
  deriving DecidableEq

def Sign.render : Sign → List Atom
  | .rsh => [.greater, .greater]
  | .rshs => [.greater, .greater, .equals]
  | .ge => [.greater, .equals]
  | .lsh => [.less false, .less false]
  | .lshs => [.less false, .less false, .equals]
  | .le => [.less false, .equals]
  | .eq => [.equals, .equals]
  | .assign => [.equals]

def Sign.token : Sign → Token
  | .rsh => .rsh
  | .rshs => .rshs
  | .ge => .ge
  | .lsh => .lsh
  | .lshs => .lshs
  | .le => .le
  | .eq => .eq
  | .assign => .assign

namespace Lexeme

def render : Lexeme → List Atom
  | .blank => [.blank]
  | .name builtinGeneric => [.name builtinGeneric]
  | .kwFunc => [.kwFunc]
  | .kwClass => [.kwClass]
  | .openArgs counted => [.less counted]
  | .closeArgs | .greater => [.greater]
  | .less => [.less false]
  | .sign op => op.render
  | .other => [.other]

def angled : Lexeme → Bool
  | .openArgs _ | .closeArgs | .less | .greater | .sign _ => true
  | _ => false

def operator : Lexeme → Bool
  | .less | .greater | .sign _ => true
  | _ => false

def nesting (before : Nat) : Lexeme → Nat
  | .openArgs _ => before + 1
  | .closeArgs => before - 1
  | _ => before

def delivered : Lexeme → List Token
  | .blank => []
  | .name _ => [.name]
  | .kwFunc => [.kwFunc]
  | .kwClass => [.kwClass]
  | .openArgs _ | .less => [.plainLt, .typeLt]
  | .closeArgs | .greater => [.close]
  | .sign op => [op.token]
  | .other => [.other]

end Lexeme

def render (text : List Lexeme) : List Atom := text.flatMap Lexeme.render

def WellNested : Nat → List Lexeme → Prop
  | nesting, [] => nesting = 0
  | nesting, lexeme :: text =>
    (lexeme = .closeArgs → 0 < nesting) ∧ (lexeme.operator = true → nesting = 0) ∧
      WellNested (lexeme.nesting nesting) text

def Apart (first second : Lexeme) : Prop :=
  first.angled = true → second.angled = true → first = .closeArgs ∧ second = .closeArgs

structure Passage where
  text : List Lexeme
  nested : WellNested 0 text
  apart : text.IsChain Apart

structure SourceText where
  first : Passage
  recovered : List (State × Passage)

def expected : Nat → List Lexeme → List (Lexeme × Nat)
  | _, [] => []
  | nesting, lexeme :: text =>
    let rest := expected (lexeme.nesting nesting) text
    if lexeme = .blank then rest else (lexeme, lexeme.nesting nesting) :: rest

def Fits (scanned : Token × State) (lexeme : Lexeme × Nat) : Prop :=
  scanned.1 ∈ lexeme.1.delivered ∧ (0 < scanned.2.depth ↔ 0 < lexeme.2)

def Delivered (s : State) (nesting : Nat) (text : List Lexeme) : Prop :=
  List.Forall₂ Fits (scan s 0 (render text)) (expected nesting text)

def SourceText.Delivered (source : SourceText) : Prop :=
  ScriptScanner.Delivered {} 0 source.first.text ∧
    ∀ later ∈ source.recovered, ScriptScanner.Delivered later.1.clearGenericDepth 0 later.2.text

def Flags.after (flags : Flags) : Lexeme → Flags
  | .name builtinGeneric => ⟨!flags.classDeclName && builtinGeneric, false⟩
  | .kwFunc => { flags with genericOpen := true }
  | .kwClass => { flags with classDeclName := true }
  | .openArgs _ | .less => { flags with genericOpen := false }
  | _ => flags

/-- Type-argument lists are opened after a generic name of the scanner or in the counted arm, and nothing else is
opened after such a name. -/
def Counted (flags : Flags) : List Lexeme → Prop
  | [] => True
  | lexeme :: text =>
    (∀ counted, lexeme = .openArgs counted → flags.genericOpen = true ∨ counted = true) ∧
      (lexeme = .less → flags.genericOpen = false) ∧ Counted (flags.after lexeme) text

def SourceText.Counted (source : SourceText) : Prop :=
  ScriptScanner.Counted {} source.first.text ∧
    ∀ later ∈ source.recovered, ScriptScanner.Counted later.1.flags later.2.text

def AngledInput (rest : List Atom) : Prop :=
  ∃ atom ∈ rest.head?, atom = .greater ∨ atom = .equals ∨ ∃ counted, atom = .less counted

def State.after (s : State) (lexeme : Lexeme) : State where
  depth :=
    match lexeme with
    | .openArgs counted => if s.flags.genericOpen || counted then s.depth + 1 else s.depth
    | .less => if s.flags.genericOpen then s.depth + 1 else s.depth
    | .closeArgs | .greater => s.depth - 1
    | _ => s.depth
  flags := s.flags.after lexeme

theorem angledInput_render {lexeme : Lexeme} {text : List Lexeme} (angled : AngledInput (render (lexeme :: text))) :
    lexeme.angled = true := by
  obtain ⟨atom, first, starts⟩ := angled
  cases lexeme with
  | openArgs | closeArgs | less | greater | sign => rfl
  | blank | name | kwFunc | kwClass | other =>
    cases first
    simp at starts

theorem nextToken_greater {s : State} {rest : List Atom} (alone : ¬ AngledInput rest) :
    nextToken s .greater rest = some (.close, s.decGenericDepth, 0) := by
  cases rest with
  | nil => rfl
  | cons atom rest =>
    cases atom with
    | greater => exact absurd ⟨.greater, rfl, .inl rfl⟩ alone
    | equals => exact absurd ⟨.equals, rfl, .inr (.inl rfl)⟩ alone
    | less | blank | name | kwFunc | kwClass | other => rfl

theorem nextToken_greater_split {s : State} {rest : List Atom} (inside : 0 < s.depth) :
    nextToken s .greater (.greater :: rest) = some (.close, s.decGenericDepth, 0) := by
  unfold nextToken
  split <;> simp_all

theorem nextToken_less {s : State} {counted : Bool} {rest : List Atom} (alone : ¬ AngledInput rest) :
    ∃ token ∈ [Token.plainLt, Token.typeLt],
      nextToken s (.less counted) rest = some (token, s.after (.openArgs counted), 0) := by
  have single : nextToken s (.less counted) rest = nextToken s (.less counted) [] := by
    cases rest with
    | nil => rfl
    | cons atom rest =>
      cases atom with
      | less other => exact absurd ⟨.less other, rfl, .inr (.inr ⟨other, rfl⟩)⟩ alone
      | equals => exact absurd ⟨.equals, rfl, .inr (.inl rfl)⟩ alone
      | greater | blank | name | kwFunc | kwClass | other => rfl
  obtain ⟨depth, genericOpen, classDeclName⟩ := s
  rw [single]
  cases genericOpen with
  | true => exact ⟨.typeLt, by decide, rfl⟩
  | false =>
    cases counted with
    | true => exact ⟨.plainLt, by decide, rfl⟩
    | false => exact ⟨.plainLt, by decide, rfl⟩

theorem scan_of_nextToken {s s' : State} {atom : Atom} {rest : List Atom} {token : Token} {more : Nat}
    (next : nextToken s atom rest = some (token, s', more)) :
    scan s 0 (atom :: rest) = (token, s') :: scan s' more rest := by
  rw [scan, next]

theorem scan_sign {s : State} (op : Sign) {rest : List Atom} (outside : s.depth = 0) (alone : ¬ AngledInput rest) :
    scan s 0 (op.render ++ rest) = (op.token, s) :: scan s 0 rest := by
  obtain ⟨depth, flags⟩ := s
  obtain rfl : depth = 0 := outside
  cases rest with
  | nil => cases op <;> rfl
  | cons atom rest =>
    cases atom with
    | greater => exact absurd ⟨.greater, rfl, .inl rfl⟩ alone
    | equals => exact absurd ⟨.equals, rfl, .inr (.inl rfl)⟩ alone
    | less counted => exact absurd ⟨.less counted, rfl, .inr (.inr ⟨counted, rfl⟩)⟩ alone
    | blank | name | kwFunc | kwClass | other => cases op <;> rfl

theorem scan_lexeme {s : State} {lexeme : Lexeme} {text : List Lexeme} (apart : (lexeme :: text).IsChain Apart)
    (closes : lexeme = .closeArgs → 0 < s.depth) (operator : lexeme.operator = true → s.depth = 0)
    (notBlank : lexeme ≠ .blank) : ∃ token ∈ lexeme.delivered,
      scan s 0 (render (lexeme :: text)) = (token, s.after lexeme) :: scan (s.after lexeme) 0 (render text) := by
  have follows : lexeme.angled = true → AngledInput (render text) →
      lexeme = .closeArgs ∧ ∃ later, text = .closeArgs :: later := by
    intro angled input
    cases text with
    | nil =>
      obtain ⟨atom, first, -⟩ := input
      cases first
    | cons next later =>
      obtain ⟨here, rfl⟩ := (List.isChain_cons_cons.mp apart).1 angled (angledInput_render input)
      exact ⟨here, later, rfl⟩
  have alone : lexeme.angled = true → lexeme ≠ .closeArgs → ¬ AngledInput (render text) :=
    fun angled notClose input => notClose (follows angled input).1
  cases lexeme with
  | blank => exact absurd rfl notBlank
  | name builtinGeneric => exact ⟨.name, List.mem_cons_self, rfl⟩
  | kwFunc => exact ⟨.kwFunc, List.mem_cons_self, rfl⟩
  | kwClass => exact ⟨.kwClass, List.mem_cons_self, rfl⟩
  | other => exact ⟨.other, List.mem_cons_self, rfl⟩
  | openArgs counted =>
    obtain ⟨token, member, next⟩ := nextToken_less (alone rfl nofun)
    exact ⟨token, member, scan_of_nextToken next⟩
  | less =>
    obtain ⟨token, member, next⟩ := nextToken_less (alone rfl nofun)
    refine ⟨token, member, (scan_of_nextToken next).trans ?_⟩
    simp [State.after, Flags.after]
  | closeArgs =>
    refine ⟨.close, List.mem_cons_self, ?_⟩
    by_cases input : AngledInput (render text)
    · obtain ⟨-, later, rfl⟩ := follows rfl input
      exact scan_of_nextToken (nextToken_greater_split (closes rfl))
    · exact scan_of_nextToken (nextToken_greater input)
  | greater => exact ⟨.close, List.mem_cons_self, scan_of_nextToken (nextToken_greater (alone rfl nofun))⟩
  | sign op => exact ⟨op.token, List.mem_cons_self, scan_sign op (operator rfl) (alone rfl nofun)⟩

section Text
variable {s : State} {nesting : Nat} {lexeme : Lexeme} {text : List Lexeme}

theorem delivered_cons (apart : (lexeme :: text).IsChain Apart) (closes : lexeme = .closeArgs → 0 < s.depth)
    (operator : lexeme.operator = true → s.depth = 0) (notBlank : lexeme ≠ .blank) :
    Delivered s nesting (lexeme :: text) ↔
      (0 < (s.after lexeme).depth ↔ 0 < lexeme.nesting nesting) ∧
        Delivered (s.after lexeme) (lexeme.nesting nesting) text := by
  obtain ⟨token, member, scanned⟩ := scan_lexeme apart closes operator notBlank
  rw [Delivered, scanned, expected]
  simp only [if_neg notBlank, List.forall₂_cons, Fits, member, true_and]
  exact Iff.rfl

theorem not_delivered_of_lt (nested : WellNested nesting text) (apart : text.IsChain Apart) (inside : 0 < s.depth)
    (less : s.depth < nesting) : ¬ Delivered s nesting text := by
  induction text generalizing s nesting with
  | nil =>
    have closed : nesting = 0 := nested
    omega
  | cons lexeme text ih =>
    obtain ⟨-, outside, nested⟩ := nested
    have later := List.IsChain.tail apart
    by_cases blank : lexeme = .blank
    · subst blank
      exact ih nested later inside less
    · rw [delivered_cons apart (fun _ => inside) (fun operator => absurd (outside operator) (by omega)) blank]
      rintro ⟨positive, delivered⟩
      refine ih nested later ?_ ?_ delivered
      · refine positive.mpr ?_
        cases lexeme with
        | closeArgs => exact Nat.sub_pos_of_lt (by omega)
        | openArgs => exact Nat.succ_pos nesting
        | less | greater | sign => exact absurd (outside rfl) (by omega)
        | blank | name | kwFunc | kwClass | other => exact inside.trans less
      · cases lexeme with
        | closeArgs => exact Nat.sub_lt_sub_right inside less
        | openArgs counted =>
          change (if (s.flags.genericOpen || counted) = true then s.depth + 1 else s.depth) < nesting + 1
          split
          · exact Nat.succ_lt_succ less
          · exact Nat.lt_succ_of_lt less
        | less | greater | sign => exact absurd (outside rfl) (by omega)
        | blank | name | kwFunc | kwClass | other => exact less

theorem delivered_iff_counted (nested : WellNested nesting text) (apart : text.IsChain Apart)
    (inStep : s.depth = nesting) : Delivered s nesting text ↔ Counted s.flags text := by
  induction text generalizing s nesting with
  | nil => exact ⟨fun _ => trivial, fun _ => .nil⟩
  | cons lexeme text ih =>
    obtain ⟨closes, outside, nested⟩ := nested
    have later := List.IsChain.tail apart
    have goesOn (same : (s.after lexeme).depth = lexeme.nesting nesting) :
        ((0 < (s.after lexeme).depth ↔ 0 < lexeme.nesting nesting) ∧
          Delivered (s.after lexeme) (lexeme.nesting nesting) text) ↔ Counted (s.flags.after lexeme) text := by
      rw [ih nested later same, same]
      exact and_iff_right Iff.rfl
    by_cases blank : lexeme = .blank
    · subst blank
      refine (ih nested later inStep).trans ?_
      exact ⟨fun counted => ⟨nofun, nofun, counted⟩, fun counted => counted.2.2⟩
    rw [delivered_cons apart (fun close => inStep ▸ closes close)
      (fun operator => inStep.trans (outside operator)) blank]
    cases lexeme with
    | blank => exact absurd rfl blank
    | openArgs counted =>
      by_cases counts : (s.flags.genericOpen || counted) = true
      · rw [goesOn (by simp only [State.after, if_pos counts, inStep, Lexeme.nesting])]
        refine ⟨fun rest => ⟨?_, nofun, rest⟩, fun all => all.2.2⟩
        rintro _ ⟨⟩
        exact Bool.or_eq_true_iff.mp counts
      · have same : (s.after (.openArgs counted)).depth = nesting := (if_neg counts).trans inStep
        constructor
        · rintro ⟨positive, delivered⟩
          have inside : 0 < (s.after (.openArgs counted)).depth := positive.mpr (Nat.succ_pos nesting)
          exact absurd delivered (not_delivered_of_lt nested later inside (same ▸ Nat.lt_succ_self _))
        · rintro ⟨counted', -⟩
          exact absurd (Bool.or_eq_true_iff.mpr (counted' counted rfl)) counts
    | less =>
      obtain rfl : nesting = 0 := outside rfl
      by_cases taken : s.flags.genericOpen = true
      · have inside : 0 < (s.after .less).depth := by
          simp only [State.after, if_pos taken]
          omega
        constructor
        · rintro ⟨positive, -⟩
          exact absurd (positive.mp inside) (Nat.lt_irrefl 0)
        · rintro ⟨-, free, -⟩
          rw [free rfl] at taken
          cases taken
      · rw [goesOn ((if_neg taken).trans inStep)]
        exact ⟨fun rest => ⟨nofun, fun _ => Bool.eq_false_iff.mpr taken, rest⟩, fun all => all.2.2⟩
    | closeArgs =>
      rw [goesOn (congrArg (· - 1) inStep)]
      exact ⟨fun rest => ⟨nofun, nofun, rest⟩, fun all => all.2.2⟩
    | greater =>
      obtain rfl : nesting = 0 := outside rfl
      rw [goesOn (congrArg (· - 1) inStep)]
      exact ⟨fun rest => ⟨nofun, nofun, rest⟩, fun all => all.2.2⟩
    | sign | name | kwFunc | kwClass | other =>
      rw [goesOn inStep]
      exact ⟨fun rest => ⟨nofun, nofun, rest⟩, fun all => all.2.2⟩

end Text

/-- Every lexeme of a source text is delivered by its role, and the depth is positive just inside of type-argument
lists, if and only if every type-argument list is counted and no other `<` is. -/
theorem angleBrackets_delivered_iff (source : SourceText) : source.Delivered ↔ source.Counted := by
  unfold SourceText.Delivered SourceText.Counted
  rw [delivered_iff_counted source.first.nested source.first.apart rfl]
  exact and_congr_right fun _ => forall₂_congr fun later _ =>
    delivered_iff_counted later.2.nested later.2.apart rfl

def nestedVoid : SourceText where
  first := {
    text := [.name false, .openArgs false, .name false, .openArgs false, .other, .closeArgs, .closeArgs, .blank,
      .name false, .other]
    nested := by simp [WellNested, Lexeme.nesting, Lexeme.operator]
    apart := by simp [Apart, Lexeme.angled] }
  recovered := []

theorem nestedVoid_not_delivered :
    .rsh ∈ (scan {} 0 (render nestedVoid.first.text)).map Prod.fst ∧ ¬ nestedVoid.Delivered := by
  refine ⟨by decide, ?_⟩
  rintro ⟨delivered, -⟩
  exact absurd delivered.length_eq (by decide)

end NLang.Compiler.ScriptScanner
