import NLang.Compiler.CharLiterals

/-!
# String literals

The rules of `STRING_S` in `nlang.l`, and `BuildStringExpr` of `nlang.y`, which takes the interpolations apart. A source
is given by the pieces that it is written for: text, in which each `$` is doubled, and inserted names.
-/

namespace NLang.Compiler.Literals
open NLang.Library.Words NLang.Library.LongestMatch NLang.Vm.CodePoints

inductive Effect where
  | append (text : Bytes)
  | reject
  | close

def cString (yytext : Bytes) : Bytes := yytext.takeWhile (· != 0)

def escapeRule (letter : Char) (text : UInt8) : Rule UInt8 (Bytes → Effect) :=
  ⟨[is (byte '\\'), is (byte letter)], fun _ => .append [text]⟩

def escapeTable : List (Char × UInt8) :=
  [('n', 10), ('r', 13), ('t', 9), ('"', byte '"'), ('\\', byte '\\'), ('\'', byte '\''), ('0', 0), ('a', 7), ('b', 8),
    ('f', 12), ('v', 11)]

def escapeRules : List (Rule UInt8 (Bytes → Effect)) := escapeTable.map fun (letter, text) => escapeRule letter text

def pairRule : Rule UInt8 (Bytes → Effect) where
  pattern := [is (byte '\\'), is (byte 'u'), oneOf [byte 'd', byte 'D'],
    oneOf [byte '8', byte '9', byte 'a', byte 'A', byte 'b', byte 'B'], hex, hex,
    is (byte '\\'), is (byte 'u'), oneOf [byte 'd', byte 'D'],
    oneOf [byte 'c', byte 'd', byte 'e', byte 'f', byte 'C', byte 'D', byte 'E', byte 'F'], hex, hex]
  action yytext :=
    let hi := parseHex4 (yytext.drop 2)
    let lo := parseHex4 (yytext.drop 8)
    let cp := 0x10000 + ((hi - 0xD800) <<< 10) + (lo - 0xDC00)
    .append (utf8EncodeCodePoint cp)

def unicodeRule : Rule UInt8 (Bytes → Effect) where
  pattern := [is (byte '\\'), is (byte 'u'), hex, hex, hex, hex]
  action yytext :=
    let cp := parseHex4 (yytext.drop 2)
    if 0xD800 ≤ cp ∧ cp ≤ 0xDFFF then .reject else .append (utf8EncodeCodePoint cp)

def unknownRule : Rule UInt8 (Bytes → Effect) := ⟨[is (byte '\\'), noneOf [byte '\n']], fun _ => .reject⟩

def newlineRule : Rule UInt8 (Bytes → Effect) := ⟨[is (byte '\n')], fun _ => .reject⟩

def closeRule : Rule UInt8 (Bytes → Effect) := ⟨[is (byte '"')], fun _ => .close⟩

def rawRule : Rule UInt8 (Bytes → Effect) := ⟨[noneOf [byte '\n']], fun yytext => .append (cString yytext)⟩

def stringRules : List (Rule UInt8 (Bytes → Effect)) :=
  escapeRules ++ [pairRule, unicodeRule, unknownRule, newlineRule, closeRule, rawRule]

def scanBy (rules : List (Rule UInt8 (Bytes → Effect))) (content : Bytes) : Nat → Bytes → Option (Bytes × Bytes)
  | _, [] => none
  | skip + 1, _ :: input => scanBy rules content skip input
  | 0, b :: input =>
    match select (b :: input) rules with
    | none => none
    | some rule => match rule.action ((b :: input).take rule.pattern.length) with
      | .append text => scanBy rules (content ++ text) (rule.pattern.length - 1) input
      | .reject => none
      | .close => some (content, input)

def scanString (content input : Bytes) : Option (Bytes × Bytes) := scanBy stringRules content 0 input

inductive Expr where
  | literal (text : Bytes)
  | identifier (name : Bytes)
  | add (left right : Expr)
  deriving DecidableEq

inductive InterpolationError where
  | unterminated
  | empty
  /-- `invalid identifier "%s" in ${...}: only ${name} supported (no expressions).` -/
  | invalid (name : Bytes)

structure Built where
  expr : Expr
  errors : List InterpolationError

def identStart (c : UInt8) : Bool := within 'a' 'z' c.toNat || within 'A' 'Z' c.toNat || c == byte '_'

def identPart (c : UInt8) : Bool := identStart c || within '0' '9' c.toNat

def isValidIdent : Bytes → Bool
  | [] => false
  | c0 :: rest => identStart c0 && rest.all identPart

def flush (parts : List Expr) (lit : Bytes) : List Expr := if lit.isEmpty then parts else parts ++ [.literal lit]

def refer (parts : List Expr) (errors : List InterpolationError) (idName : Bytes) :
    List Expr × List InterpolationError :=
  if idName.isEmpty then (parts, errors ++ [.empty])
  else if !isValidIdent idName then (parts, errors ++ [.invalid idName])
  else (parts ++ [.identifier idName], errors)

/-- The loop of `BuildStringExpr`, with the literal accumulated, the parts and the errors; no parts when it is left for
an unterminated interpolation. Bytes of the last interpolation are left out first. -/
def interpolate (lit : Bytes) (parts : List Expr) (errors : List InterpolationError) :
    Nat → Bytes → Option (List Expr) × List InterpolationError
  | _, [] => (some (flush parts lit), errors)
  | skip + 1, _ :: s => interpolate lit parts errors skip s
  | 0, b :: s =>
    if b = byte '$' ∧ s.head? = some (byte '$') then interpolate (lit ++ [byte '$']) parts errors 1 s
    else if b = byte '$' ∧ s.head? = some (byte '\x7b') then
      let idName := s.tail.takeWhile (· != byte '\x7d')
      if s.tail.length ≤ idName.length then (none, errors ++ [.unterminated])
      else
        let (parts, errors) := refer (flush parts lit) errors idName
        interpolate [] parts errors (idName.length + 2) s
    else interpolate (lit ++ [b]) parts errors 0 s

def sum : List Expr → Expr
  | [] => .literal []
  | .literal text :: parts => parts.foldl .add (.literal text)
  | parts => parts.foldl .add (.literal [])

def buildStringExpr (rawText : Bytes) : Built :=
  if !rawText.contains (byte '$') then ⟨.literal rawText, []⟩
  else match interpolate [] [] [] 0 rawText with
    | (none, errors) => ⟨.literal [], errors⟩
    | (some parts, errors) => ⟨sum parts, errors⟩

def stringLiteral : Bytes → Option (Built × Bytes)
  | [] => none
  | b :: input =>
    if b = byte '"' then (scanString [] input).map fun (content, rest) => (buildStringExpr content, rest)
    else none

def utf8 (text : List Char) : Bytes := text.flatMap String.utf8EncodeChar

def stringEscapes : List (Char × Char) :=
  [('\n', 'n'), ('\r', 'r'), ('\t', 't'), ('"', '"'), ('\\', '\\'), ('\'', '\''), ('\x00', '0'), ('\x07', 'a'),
    ('\x08', 'b'), ('\x0c', 'f'), ('\x0b', 'v')]

inductive Spelling (c : Char) : Bytes → Prop where
  | raw (visible : c ∉ ['"', '\\', '\n', '\r']) : Spelling c (String.utf8EncodeChar c)
  | escape (letter : Char) (known : (c, letter) ∈ stringEscapes) : Spelling c [byte '\\', byte letter]
  | unicode (digits : Bytes) (number : Hex4 digits c.toNat) : Spelling c (byte '\\' :: byte 'u' :: digits)
  | pair (high low : Bytes) (hi lo : Nat) (first : Hex4 high hi) (second : Hex4 low lo)
      (leads : 0xD800 ≤ hi ∧ hi < 0xDC00) (trails : 0xDC00 ≤ lo ∧ lo < 0xE000)
      (paired : c.toNat = 0x10000 + (hi - 0xD800) * 0x400 + (lo - 0xDC00)) :
      Spelling c (byte '\\' :: byte 'u' :: (high ++ byte '\\' :: byte 'u' :: low))

inductive Writes : List Char → Bytes → Prop where
  | nil : Writes [] []
  | cons {c : Char} {bytes source : Bytes} {text : List Char} (spelled : Spelling c bytes)
      (others : Writes text source) : Writes (c :: text) (bytes ++ source)

structure Name where
  first : Char
  rest : List Char
  starts : first.isAlpha ∨ first = '_'
  goes_on : ∀ c ∈ rest, c.isAlphanum ∨ c = '_'

def Name.letters (name : Name) : List Char := name.first :: name.rest

inductive Piece where
  | text (w : List Char)
  | name (inserted : Name)

def doubled (w : List Char) : List Char := w.flatMap fun c => if c = '$' then ['$', '$'] else [c]

def Piece.render : Piece → List Char
  | .text w => doubled w
  | .name inserted => '$' :: '\x7b' :: (inserted.letters ++ ['\x7d'])

structure StringSource where
  pieces : List Piece
  source : Bytes
  writes : Writes (pieces.flatMap Piece.render) source

inductive Value where
  | string (text : Bytes)
  | other (text : Bytes)

def Value.shown : Value → Bytes
  | .string text | .other text => text

def Expr.eval (env : Bytes → Value) : Expr → Option Value
  | .literal text => some (.string text)
  | .identifier name => some (env name)
  | .add left right => do
      let .string text ← left.eval env | none
      let value ← right.eval env
      some (.string (text ++ value.shown))

def Piece.shown (env : Bytes → Value) : Piece → Bytes
  | .text w => utf8 w
  | .name inserted => (env (utf8 inserted.letters)).shown

structure Denotes (pieces : List Piece) (e : Expr) : Prop where
  text : ∀ w, pieces = [.text w] → e = .literal (utf8 w)
  value : ∀ env, e.eval env = some (.string (pieces.flatMap (Piece.shown env)))

def StringSource.Denoted (s : StringSource) : Prop :=
  ∀ rest, ∃ e, stringLiteral (byte '"' :: (s.source ++ byte '"' :: rest)) = some (⟨e, []⟩, rest) ∧ Denotes s.pieces e

section Scanning
variable {rules : List (Rule UInt8 (Bytes → Effect))} {rule : Rule UInt8 (Bytes → Effect)}
  {content text matched tail bytes source digits : Bytes} {c : Char}

theorem scanBy_skip (content matched tail : Bytes) :
    scanBy rules content matched.length (matched ++ tail) = scanBy rules content 0 tail := by
  induction matched with
  | nil => rfl
  | cons b matched ih => exact ih

theorem scanBy_append (selected : select (matched ++ tail) rules = some rule) (fits : Fits rule.pattern matched)
    (action : rule.action matched = .append text) (some_ : matched ≠ []) :
    scanBy rules content 0 (matched ++ tail) = scanBy rules (content ++ text) 0 tail := by
  obtain ⟨b, matched, rfl⟩ := List.exists_cons_of_ne_nil some_
  have taken : (b :: (matched ++ tail)).take rule.pattern.length = b :: matched := by
    rw [List.Forall₂.length_eq fits, ← List.cons_append, List.take_left]
  rw [List.cons_append] at selected ⊢
  simp only [scanBy, selected, taken, action]
  rw [List.Forall₂.length_eq fits, List.length_cons, Nat.add_sub_cancel, scanBy_skip]

theorem scanString_append (selected : select (matched ++ tail) stringRules = some rule)
    (fits : Fits rule.pattern matched) (action : rule.action matched = .append text) (some_ : matched ≠ []) :
    scanString content (matched ++ tail) = scanString (content ++ text) tail :=
  scanBy_append selected fits action some_

theorem rules_head {b : UInt8} {input : Bytes} (ordinary : b ∉ [byte '"', byte '\\', byte '\n'])
    (listed : rule ∈ escapeRules ++ [pairRule, unicodeRule, unknownRule, newlineRule, closeRule]) :
    accepts rule.pattern (b :: input) = false := by
  have headed (first : UInt8) (tests : List (UInt8 → Bool)) (special : first ∈ [byte '"', byte '\\', byte '\n']) :
      accepts (is first :: tests) (b :: input) = false := by
    have differs : is first b = false := beq_false_of_ne fun same => ordinary (same ▸ special)
    rw [accepts, differs, Bool.false_and]
  obtain escape | listed := List.mem_append.mp listed
  · obtain ⟨⟨letter, text⟩, -, rfl⟩ := List.mem_map.mp escape
    exact headed (byte '\\') _ (by decide)
  · simp only [List.mem_cons, List.not_mem_nil, or_false] at listed
    rcases listed with rfl | rfl | rfl | rfl | rfl
    · exact headed (byte '\\') _ (by decide)
    · exact headed (byte '\\') _ (by decide)
    · exact headed (byte '\\') _ (by decide)
    · exact headed (byte '\n') _ (by decide)
    · exact headed (byte '"') _ (by decide)

theorem select_raw {b : UInt8} (ordinary : b ∉ [byte '"', byte '\\', byte '\n']) :
    select (b :: tail) stringRules = some rawRule ∧ Fits rawRule.pattern [b] := by
  have visible : noneOf [byte '\n'] b = true := by
    simp only [List.mem_cons, List.not_mem_nil, or_false, not_or] at ordinary
    simpa [noneOf] using ordinary.2.2
  have fits : Fits rawRule.pattern [b] := .cons visible .nil
  have accepted : accepts rawRule.pattern (b :: tail) = true := accepts_append fits
  have split : stringRules = (escapeRules ++ [pairRule, unicodeRule, unknownRule, newlineRule, closeRule]) ++
      rawRule :: [] := rfl
  refine ⟨?_, fits⟩
  rw [split]
  refine select_first accepted ?_ (List.forall_mem_nil _)
  intro other listed matched
  rw [rules_head ordinary listed] at matched
  cases matched

theorem scanString_raw (ordinary : ∀ b ∈ bytes, b ∉ [byte '"', byte '\\', byte '\n']) :
    scanString content (bytes ++ tail) = scanString (content ++ bytes.filter (· != 0)) tail := by
  induction bytes generalizing content with
  | nil => rw [List.filter_nil, List.append_nil, List.nil_append]
  | cons b bytes ih =>
    rw [List.forall_mem_cons] at ordinary
    obtain ⟨here, others⟩ := ordinary
    obtain ⟨selected, fits⟩ := select_raw here
    have first : scanString content ([b] ++ (bytes ++ tail)) = scanString (content ++ cString [b]) (bytes ++ tail) :=
      scanString_append selected fits rfl (List.cons_ne_nil _ _)
    rw [List.cons_append, ← List.singleton_append, first, ih others, List.append_assoc, cString]
    cases nul : b != 0 with
    | false => simp only [List.takeWhile_cons, List.filter_cons, nul, Bool.false_eq_true, if_false, List.nil_append]
    | true =>
      simp only [List.takeWhile_cons, List.filter_cons, nul, if_true, List.takeWhile_nil, List.singleton_append]

theorem scanString_escape {letter : Char} (known : (c, letter) ∈ stringEscapes) :
    scanString content ([byte '\\', byte letter] ++ tail) = scanString (content ++ String.utf8EncodeChar c) tail := by
  simp only [stringEscapes, List.mem_cons, Prod.mk.injEq, List.not_mem_nil, or_false] at known
  rcases known with ⟨rfl, rfl⟩ | ⟨rfl, rfl⟩ | ⟨rfl, rfl⟩ | ⟨rfl, rfl⟩ | ⟨rfl, rfl⟩ | ⟨rfl, rfl⟩ | ⟨rfl, rfl⟩ |
    ⟨rfl, rfl⟩ | ⟨rfl, rfl⟩ | ⟨rfl, rfl⟩ | ⟨rfl, rfl⟩
  all_goals rfl

def digitBytes (d : Nat) : List UInt8 :=
  if d < 10 then [UInt8.ofNat ('0'.toNat + d)]
  else [UInt8.ofNat ('a'.toNat + (d - 10)), UInt8.ofNat ('A'.toNat + (d - 10))]

theorem mem_digitBytes {b : UInt8} {d : Nat} (digit : hexDigit b = some d) : b ∈ digitBytes d := by
  have self {n : Nat} (same : n = b.toNat) : b = UInt8.ofNat n := by rw [same, UInt8.ofNat_toNat]
  have codes : '9'.toNat = '0'.toNat + 9 ∧ 'f'.toNat = 'a'.toNat + 5 ∧ 'F'.toNat = 'A'.toNat + 5 := by decide
  simp only [hexDigit, within, decide_eq_true_eq] at digit
  rw [digitBytes]
  split at digit
  · cases digit
    rw [if_pos (by omega)]
    exact List.mem_singleton.mpr (self (by omega))
  split at digit
  · cases digit
    rw [if_neg (by omega)]
    exact List.mem_cons.mpr (.inl (self (by omega)))
  split at digit
  · cases digit
    rw [if_neg (by omega)]
    exact List.mem_cons_of_mem _ (List.mem_singleton.mpr (self (by omega)))
  · cases digit

theorem class_of {listed : List UInt8} {low high d : Nat} {b : UInt8}
    (all : ∀ d < 16, low ≤ d ∧ d < high → (digitBytes d).all (oneOf listed) = true) (digit : hexDigit b = some d)
    (inside : low ≤ d ∧ d < high) : oneOf listed b = true :=
  List.all_eq_true.mp (all d (hexDigit_lt digit) inside) b (mem_digitBytes digit)

theorem escapeRule_length (listed : rule ∈ escapeRules) : rule.pattern.length = 2 := by
  obtain ⟨⟨letter, text⟩, -, rfl⟩ := List.mem_map.mp listed
  rfl

theorem not_pair {v : Nat} (number : Hex4 digits v) (scalar : v < 0xD800 ∨ 0xDC00 ≤ v) :
    accepts pairRule.pattern ((byte '\\' :: byte 'u' :: digits) ++ tail) = false := by
  cases number with
  | @digits a b c d w x y z first second third last =>
    have small := hexDigit_lt third
    have small' := hexDigit_lt last
    by_contra accepted
    rw [Bool.not_eq_false] at accepted
    have lead := List.forall₂_cons.mp (List.forall₂_cons.mp (List.forall₂_cons.mp (fits_take accepted)).2).2
    have high := (List.forall₂_cons.mp lead.2).1
    have lead_class : ∀ b ∈ [byte 'd', byte 'D'], hexDigit b = some 13 :=
      List.all_iff_forall_prop.mp (by decide)
    have high_class : ∀ b ∈ [byte '8', byte '9', byte 'a', byte 'A', byte 'b', byte 'B'],
        ∃ n, 8 ≤ n ∧ n < 12 ∧ hexDigit b = some n := by
      simp only [List.forall_mem_cons]
      exact ⟨⟨8, by decide⟩, ⟨9, by decide⟩, ⟨10, by decide⟩, ⟨10, by decide⟩, ⟨11, by decide⟩, ⟨11, by decide⟩,
        List.forall_mem_nil _⟩
    have thirteen := lead_class a (List.contains_iff_mem.mp lead.1)
    obtain ⟨n, low, small_, same⟩ := high_class b (List.contains_iff_mem.mp high)
    rw [first, Option.some.injEq] at thirteen
    rw [second, Option.some.injEq] at same
    omega

theorem unicode_fits {v : Nat} (number : Hex4 digits v) :
    Fits unicodeRule.pattern (byte '\\' :: byte 'u' :: digits) :=
  .cons rfl (.cons rfl (hex4_iff.mpr ⟨_, number⟩))

theorem scanString_unicode (number : Hex4 digits c.toNat) :
    scanString content ((byte '\\' :: byte 'u' :: digits) ++ tail) =
      scanString (content ++ String.utf8EncodeChar c) tail := by
  have valid := char_valid c
  have fits := unicode_fits number
  have split : stringRules = (escapeRules ++ [pairRule]) ++
      unicodeRule :: [unknownRule, newlineRule, closeRule, rawRule] := rfl
  have selected : select ((byte '\\' :: byte 'u' :: digits) ++ tail) stringRules = some unicodeRule := by
    rw [split]
    refine select_first (accepts_append fits) ?_ ?_
    · intro other listed accepted
      obtain escape | pair := List.mem_append.mp listed
      · rw [escapeRule_length escape]
        decide
      · rw [List.mem_singleton.mp pair, not_pair number (by omega)] at accepted
        cases accepted
    · have shorter : ∀ other ∈ [unknownRule, newlineRule, closeRule, rawRule],
          other.pattern.length ≤ unicodeRule.pattern.length := by decide
      exact fun other listed _ => shorter other listed
  have parsed := parseHex4_eq number []
  rw [List.append_nil] at parsed
  have action : unicodeRule.action (byte '\\' :: byte 'u' :: digits) = .append (String.utf8EncodeChar c) := by
    simp only [unicodeRule, List.drop_succ_cons, List.drop_zero, parsed]
    rw [if_neg (by omega), utf8EncodeCodePoint_eq]
  exact scanString_append selected fits action (List.cons_ne_nil _ _)

theorem pair_fits {high low : Bytes} {hi lo : Nat} (first : Hex4 high hi) (second : Hex4 low lo)
    (leads : 0xD800 ≤ hi ∧ hi < 0xDC00) (trails : 0xDC00 ≤ lo ∧ lo < 0xE000) :
    Fits pairRule.pattern (byte '\\' :: byte 'u' :: (high ++ byte '\\' :: byte 'u' :: low)) := by
  cases first with
  | @digits a b c d w x y z ha hb hc hd =>
    cases second with
    | @digits a' b' c' d' w' x' y' z' ha' hb' hc' hd' =>
      have := hexDigit_lt hb
      have := hexDigit_lt hc
      have := hexDigit_lt hd
      have := hexDigit_lt hb'
      have := hexDigit_lt hc'
      have := hexDigit_lt hd'
      have thirteen : ∀ d < 16, 13 ≤ d ∧ d < 14 → (digitBytes d).all (oneOf [byte 'd', byte 'D']) = true := by
        decide
      have lead : oneOf [byte 'd', byte 'D'] a = true := class_of thirteen ha (by omega)
      have lead' : oneOf [byte 'd', byte 'D'] a' = true := class_of thirteen ha' (by omega)
      have upper : oneOf [byte '8', byte '9', byte 'a', byte 'A', byte 'b', byte 'B'] b = true := by
        have eight : 8 ≤ x ∧ x < 12 := by omega
        exact class_of (by decide) hb eight
      have lower : oneOf [byte 'c', byte 'd', byte 'e', byte 'f', byte 'C', byte 'D', byte 'E', byte 'F'] b' =
          true := by
        have twelve : 12 ≤ x' ∧ x' < 16 := by omega
        exact class_of (by decide) hb' twelve
      exact .cons rfl (.cons rfl (.cons lead (.cons upper (.cons (hex_iff.mpr ⟨_, hc⟩) (.cons (hex_iff.mpr ⟨_, hd⟩)
        (.cons rfl (.cons rfl (.cons lead' (.cons lower (.cons (hex_iff.mpr ⟨_, hc'⟩)
          (.cons (hex_iff.mpr ⟨_, hd'⟩) .nil)))))))))))

theorem scanString_pair {high low : Bytes} {hi lo : Nat} (first : Hex4 high hi) (second : Hex4 low lo)
    (leads : 0xD800 ≤ hi ∧ hi < 0xDC00) (trails : 0xDC00 ≤ lo ∧ lo < 0xE000)
    (paired : c.toNat = 0x10000 + (hi - 0xD800) * 0x400 + (lo - 0xDC00)) :
    scanString content ((byte '\\' :: byte 'u' :: (high ++ byte '\\' :: byte 'u' :: low)) ++ tail) =
      scanString (content ++ String.utf8EncodeChar c) tail := by
  have fits := pair_fits first second leads trails
  have split : stringRules =
      escapeRules ++ pairRule :: [unicodeRule, unknownRule, newlineRule, closeRule, rawRule] := rfl
  have selected : select ((byte '\\' :: byte 'u' :: (high ++ byte '\\' :: byte 'u' :: low)) ++ tail) stringRules =
      some pairRule := by
    rw [split]
    refine select_first (accepts_append fits) ?_ ?_
    · intro other escape _
      rw [escapeRule_length escape]
      decide
    · have shorter : ∀ other ∈ [unicodeRule, unknownRule, newlineRule, closeRule, rawRule],
          other.pattern.length ≤ pairRule.pattern.length := by decide
      exact fun other listed _ => shorter other listed
  have action : pairRule.action (byte '\\' :: byte 'u' :: (high ++ byte '\\' :: byte 'u' :: low)) =
      .append (String.utf8EncodeChar c) := by
    have lead := parseHex4_eq first (byte '\\' :: byte 'u' :: low)
    have trail := parseHex4_eq second []
    rw [List.append_nil] at trail
    have after : (byte '\\' :: byte 'u' :: (high ++ byte '\\' :: byte 'u' :: low)).drop 8 = low := by
      cases first
      rfl
    simp only [pairRule, after, List.drop_succ_cons, List.drop_zero, lead, trail, Nat.shiftLeft_eq, Nat.reducePow]
    rw [← utf8EncodeCodePoint_eq, paired]
  exact scanString_append selected fits action (List.cons_ne_nil _ _)

theorem not_mem_of_fits {pattern : List (UInt8 → Bool)} {b : UInt8} (fits : Fits pattern bytes)
    (rejected : ∀ test ∈ pattern, test b = false) : b ∉ bytes := by
  induction fits with
  | nil => exact List.not_mem_nil
  | @cons test first _ _ accepted _ ih =>
    rw [List.forall_mem_cons] at rejected
    rw [List.mem_cons, not_or]
    refine ⟨?_, ih rejected.2⟩
    rintro rfl
    rw [rejected.1] at accepted
    cases accepted

theorem Spelling.nul (spelled : Spelling c bytes) (found : 0 ∈ bytes) : c = '\x00' ∧ bytes = [0] := by
  cases spelled with
  | raw _ =>
    rw [show (0 : UInt8) = byte '\x00' from rfl, mem_encodeChar (by decide)] at found
    subst found
    exact ⟨rfl, rfl⟩
  | escape letter known =>
    have letters : ∀ known ∈ stringEscapes, 0 ∉ [byte '\\', byte known.2] := by decide
    exact absurd found (letters (c, letter) known)
  | unicode digits number =>
    exact absurd found (not_mem_of_fits (unicode_fits number) (List.all_iff_forall_prop.mp (by decide)))
  | pair high low hi lo first second leads trails _ =>
    have rejected : ∀ test ∈ pairRule.pattern, test 0 = false := List.all_iff_forall_prop.mp (by decide)
    exact absurd found (not_mem_of_fits (pair_fits first second leads trails) rejected)

def keptBytes (c : Char) (bytes : Bytes) : Bytes := if bytes = [0] then [] else String.utf8EncodeChar c

theorem scanString_spelled (spelled : Spelling c bytes) :
    scanString content (bytes ++ tail) = scanString (content ++ keptBytes c bytes) tail := by
  have escaped {rest : Bytes} (b : UInt8) : byte '\\' :: b :: rest ≠ [0] := by
    intro same
    cases same
  cases spelled with
  | raw visible =>
    have ordinary : ∀ b ∈ String.utf8EncodeChar c, b ∉ [byte '"', byte '\\', byte '\n'] := by
      intro b found special
      have ascii : ∀ b ∈ [byte '"', byte '\\', byte '\n'],
          ∃ a ∈ ['"', '\\', '\n', '\r'], a.toNat < 0x80 ∧ b = byte a := by
        simp only [List.forall_mem_cons]
        exact ⟨⟨'"', by decide, by decide, rfl⟩, ⟨'\\', by decide, by decide, rfl⟩, ⟨'\n', by decide, by decide, rfl⟩,
          List.forall_mem_nil _⟩
      obtain ⟨a, listed, small, rfl⟩ := ascii b special
      rw [mem_encodeChar small] at found
      exact visible (found ▸ listed)
    rw [scanString_raw ordinary, keptBytes]
    by_cases nul : 0 ∈ String.utf8EncodeChar c
    · rw [(Spelling.raw visible).nul nul |>.2, if_pos rfl]
      rfl
    · have other : String.utf8EncodeChar c ≠ [0] := by
        intro same
        exact nul (same ▸ List.mem_singleton_self _)
      rw [if_neg other, List.filter_eq_self.mpr]
      intro b found
      exact bne_iff_ne.mpr fun same => nul (same ▸ found)
  | escape letter known => rw [keptBytes, if_neg (escaped _), scanString_escape known]
  | unicode digits number => rw [keptBytes, if_neg (escaped _), scanString_unicode number]
  | pair high low hi lo first second leads trails paired =>
    rw [keptBytes, if_neg (escaped _), scanString_pair first second leads trails paired]

inductive Loses : List Char → List Char → Prop where
  | nil : Loses [] []
  | keep (c : Char) {text kept : List Char} (others : Loses text kept) : Loses (c :: text) (c :: kept)
  | drop {text kept : List Char} (others : Loses text kept) : Loses ('\x00' :: text) kept

theorem Loses.length_le {text kept : List Char} (loses : Loses text kept) : kept.length ≤ text.length := by
  induction loses with
  | nil => exact Nat.le_refl _
  | keep c _ ih => exact Nat.succ_le_succ ih
  | drop _ ih => exact Nat.le_succ_of_le ih

theorem scanString_text {text : List Char} (writes : Writes text source) :
    ∃ kept, Loses text kept ∧ (kept = text ↔ 0 ∉ source) ∧
      ∀ content tail, scanString content (source ++ tail) = scanString (content ++ utf8 kept) tail := by
  induction writes with
  | nil =>
    refine ⟨[], .nil, iff_of_true rfl List.not_mem_nil, fun content tail => ?_⟩
    rw [utf8, List.flatMap_nil, List.append_nil, List.nil_append]
  | @cons c bytes source text spelled _ ih =>
    obtain ⟨kept, loses, same, scanned⟩ := ih
    by_cases nul : bytes = [0]
    · have found : 0 ∈ bytes := nul ▸ List.mem_singleton_self _
      obtain ⟨rfl, -⟩ := spelled.nul found
      refine ⟨kept, .drop loses, iff_of_false ?_ fun absent => absent (List.mem_append_left _ found), ?_⟩
      · rintro rfl
        exact Nat.not_succ_le_self _ loses.length_le
      · intro content tail
        rw [List.append_assoc, scanString_spelled spelled, keptBytes, if_pos nul, List.append_nil, scanned]
    · have absent : 0 ∉ bytes := fun found => nul (spelled.nul found).2
      refine ⟨c :: kept, .keep c loses, ?_, ?_⟩
      · rw [List.cons_inj_right, same, List.mem_append, or_iff_right absent]
      · intro content tail
        rw [List.append_assoc, scanString_spelled spelled, keptBytes, if_neg nul, scanned, utf8, utf8,
          List.flatMap_cons, List.append_assoc]

end Scanning

section Interpolations
variable {lit bytes s tail : Bytes} {parts : List Expr} {errors : List InterpolationError} {w : List Char}
  {pieces : List Piece}

theorem utf8_append (v w : List Char) : utf8 (v ++ w) = utf8 v ++ utf8 w := List.flatMap_append

theorem utf8_cons (c : Char) (w : List Char) : utf8 (c :: w) = String.utf8EncodeChar c ++ utf8 w := List.flatMap_cons

theorem interpolate_skip (matched : Bytes) :
    interpolate lit parts errors matched.length (matched ++ tail) = interpolate lit parts errors 0 tail := by
  induction matched with
  | nil => rfl
  | cons b matched ih => exact ih

theorem interpolate_plain (plain : byte '$' ∉ bytes) :
    interpolate lit parts errors 0 (bytes ++ tail) = interpolate (lit ++ bytes) parts errors 0 tail := by
  induction bytes generalizing lit with
  | nil => rw [List.append_nil, List.nil_append]
  | cons b bytes ih =>
    rw [List.mem_cons, not_or] at plain
    obtain ⟨other, plain⟩ := plain
    rw [List.cons_append, interpolate, if_neg fun dollar => other dollar.1.symm,
      if_neg fun dollar => other dollar.1.symm, ih plain, List.append_assoc, List.singleton_append]

theorem interpolate_text : interpolate lit parts errors 0 (utf8 (doubled w) ++ tail) =
    interpolate (lit ++ utf8 w) parts errors 0 tail := by
  induction w generalizing lit with
  | nil =>
    rw [doubled, List.flatMap_nil, utf8, List.flatMap_nil, List.append_nil, List.nil_append]
  | cons c w ih =>
    rw [doubled, List.flatMap_cons, ← doubled, utf8_append, List.append_assoc, utf8_cons, ← List.append_assoc lit,
      ← ih]
    by_cases dollar : c = '$'
    · subst dollar
      rw [if_pos rfl]
      rfl
    · rw [if_neg dollar, utf8_cons, utf8, List.flatMap_nil, List.append_nil]
      exact interpolate_plain fun found => dollar ((mem_encodeChar (by decide)).mp found)

theorem within_iff {low high : Char} {n : Nat} : within low high n = true ↔ low.toNat ≤ n ∧ n ≤ high.toNat :=
  decide_eq_true_iff

theorem isAlpha_within {c : Char} (letter : c.isAlpha = true) :
    within 'a' 'z' c.toNat = true ∨ within 'A' 'Z' c.toNat = true := by
  simp only [Char.isAlpha, Char.isUpper, Char.isLower, Bool.or_eq_true, Bool.and_eq_true, decide_eq_true_iff, ge_iff_le,
    UInt32.le_iff_toNat_le] at letter
  exact letter.symm.imp within_iff.mpr within_iff.mpr

theorem isDigit_within {c : Char} (digit : c.isDigit = true) : within '0' '9' c.toNat = true := by
  simp only [Char.isDigit, Bool.and_eq_true, decide_eq_true_iff, ge_iff_le, UInt32.le_iff_toNat_le] at digit
  exact within_iff.mpr digit

theorem within_ascii {low high : Char} {n : Nat} (inside : within low high n = true) (ascii : high.toNat < 0x80) :
    n < 0x80 := Nat.lt_of_le_of_lt (within_iff.mp inside).2 ascii

theorem identStart_byte {c : Char} (letter : c.isAlpha = true ∨ c = '_') :
    c.toNat < 0x80 ∧ identStart (byte c) = true := by
  obtain letter | rfl := letter
  · have small : c.toNat < 0x80 := by
      obtain lower | upper := isAlpha_within letter
      · exact within_ascii lower (by decide)
      · exact within_ascii upper (by decide)
    refine ⟨small, ?_⟩
    rw [identStart, byte_toNat small, Bool.or_eq_true, Bool.or_eq_true]
    exact .inl (isAlpha_within letter)
  · decide

theorem identPart_byte {c : Char} (part : c.isAlphanum = true ∨ c = '_') :
    c.toNat < 0x80 ∧ identPart (byte c) = true := by
  rw [Char.isAlphanum, Bool.or_eq_true] at part
  obtain (letter | digit) | underscore := part
  · obtain ⟨small, starts⟩ := identStart_byte (.inl letter)
    exact ⟨small, by rw [identPart, starts, Bool.true_or]⟩
  · have small := within_ascii (isDigit_within digit) (by decide)
    refine ⟨small, ?_⟩
    rw [identPart, byte_toNat small, isDigit_within digit, Bool.or_true]
  · obtain ⟨small, starts⟩ := identStart_byte (.inr underscore)
    exact ⟨small, by rw [identPart, starts, Bool.true_or]⟩

theorem utf8_ascii (ascii : ∀ c ∈ w, c.toNat < 0x80) : utf8 w = w.map byte := by
  induction w with
  | nil => rfl
  | cons c w ih =>
    rw [List.forall_mem_cons] at ascii
    rw [utf8_cons, encodeChar_ascii ascii.1, ih ascii.2, List.map_cons, List.singleton_append]

theorem utf8_name (name : Name) :
    isValidIdent (utf8 name.letters) = true ∧ byte '\x7d' ∉ utf8 name.letters := by
  obtain ⟨small, starts⟩ := identStart_byte name.starts
  have parts : ∀ c ∈ name.rest, c.toNat < 0x80 ∧ identPart (byte c) = true := fun c found =>
    identPart_byte (name.goes_on c found)
  have ascii : ∀ c ∈ name.letters, c.toNat < 0x80 :=
    List.forall_mem_cons.mpr ⟨small, fun c found => (parts c found).1⟩
  have all : ∀ b ∈ utf8 name.letters, identPart b = true := by
    rw [utf8_ascii ascii]
    intro b found
    obtain ⟨c, listed, rfl⟩ := List.mem_map.mp found
    obtain rfl | later := List.mem_cons.mp listed
    · rw [identPart, starts, Bool.true_or]
    · exact (parts c later).2
  constructor
  · rw [utf8_ascii ascii, Name.letters, List.map_cons, isValidIdent, starts, Bool.true_and, List.all_eq_true]
    intro b found
    obtain ⟨c, listed, rfl⟩ := List.mem_map.mp found
    exact (parts c listed).2
  · intro brace
    exact absurd (all _ brace) (by decide)

theorem interpolate_name (name : Name) : interpolate lit parts errors 0 (utf8 (Piece.name name).render ++ tail) =
    interpolate [] (flush parts lit ++ [.identifier (utf8 name.letters)]) errors 0 tail := by
  obtain ⟨valid, closed⟩ := utf8_name name
  have rendered : utf8 (Piece.name name).render ++ tail =
      byte '$' :: byte '\x7b' :: (utf8 name.letters ++ byte '\x7d' :: tail) := by
    change utf8 ('$' :: '\x7b' :: (name.letters ++ ['\x7d'])) ++ tail = _
    rw [utf8_cons, utf8_cons, utf8_append, List.append_assoc, List.append_assoc, List.append_assoc]
    rfl
  have idName : (utf8 name.letters ++ byte '\x7d' :: tail).takeWhile (· != byte '\x7d') = utf8 name.letters := by
    rw [List.takeWhile_append_of_pos, List.takeWhile_cons_of_neg, List.append_nil]
    · decide
    · intro b found
      exact bne_iff_ne.mpr fun same => closed (same ▸ found)
  have ends : ¬ (utf8 name.letters ++ byte '\x7d' :: tail).length ≤ (utf8 name.letters).length := by
    rw [List.length_append, List.length_cons]
    omega
  have referred : refer (flush parts lit) errors (utf8 name.letters) =
      (flush parts lit ++ [.identifier (utf8 name.letters)], errors) := by
    have some_ : (utf8 name.letters).isEmpty = false := by
      cases empty : utf8 name.letters with
      | nil =>
        rw [empty] at valid
        cases valid
      | cons => rfl
    rw [refer, some_, valid]
    rfl
  have skipped : interpolate [] (flush parts lit ++ [.identifier (utf8 name.letters)]) errors
      (utf8 name.letters).length.succ.succ (byte '\x7b' :: (utf8 name.letters ++ byte '\x7d' :: tail)) =
      interpolate [] (flush parts lit ++ [.identifier (utf8 name.letters)]) errors 0 tail := by
    have length : (byte '\x7b' :: (utf8 name.letters ++ [byte '\x7d'])).length =
        (utf8 name.letters).length.succ.succ := by
      rw [List.length_cons, List.length_append, List.length_singleton]
    have split : byte '\x7b' :: (utf8 name.letters ++ byte '\x7d' :: tail) =
        (byte '\x7b' :: (utf8 name.letters ++ [byte '\x7d'])) ++ tail := by
      rw [List.cons_append, List.append_assoc, List.singleton_append]
    rw [← length, split]
    exact interpolate_skip _
  rw [rendered, interpolate, if_neg fun double => absurd (Option.some.inj double.2) (by decide), if_pos ⟨rfl, rfl⟩]
  simp only [List.tail_cons, idName, if_neg ends, referred]
  exact skipped

def partsOf (lit : Bytes) : List Piece → List Expr
  | [] => flush [] lit
  | .text w :: pieces => partsOf (lit ++ utf8 w) pieces
  | .name inserted :: pieces => flush [] lit ++ .identifier (utf8 inserted.letters) :: partsOf [] pieces

theorem flush_eq (parts : List Expr) (lit : Bytes) : flush parts lit = parts ++ flush [] lit := by
  rw [flush, flush]
  split
  · rw [List.append_nil]
  · rw [List.nil_append]

theorem interpolate_pieces : interpolate lit parts errors 0 (utf8 (pieces.flatMap Piece.render)) =
    (some (parts ++ partsOf lit pieces), errors) := by
  induction pieces generalizing lit parts with
  | nil =>
    rw [List.flatMap_nil, partsOf, ← flush_eq]
    rfl
  | cons piece pieces ih =>
    rw [List.flatMap_cons, utf8_append]
    cases piece with
    | text w => rw [Piece.render, interpolate_text, ih, partsOf]
    | name inserted =>
      rw [interpolate_name, ih, partsOf, flush_eq, List.append_assoc, List.append_assoc, List.singleton_append]

theorem buildStringExpr_eq (taken : interpolate [] [] [] 0 s = (some parts, [])) :
    buildStringExpr s = ⟨sum parts, []⟩ := by
  rw [buildStringExpr]
  split
  case isTrue plain =>
    rw [Bool.not_eq_true', List.contains_eq_mem, decide_eq_false_iff_not] at plain
    have looped : interpolate [] [] [] 0 (s ++ []) = interpolate ([] ++ s) [] [] 0 [] := interpolate_plain plain
    rw [List.append_nil, taken, List.nil_append, interpolate, Prod.mk.injEq, Option.some.injEq] at looped
    rw [looped.1]
    cases s with
    | nil => rfl
    | cons b s => rfl
  case isFalse => rw [taken]

variable {env : Bytes → Value} {e : Expr}

def Expr.shownAt (env : Bytes → Value) : Expr → Bytes
  | .literal text => text
  | .identifier name => (env name).shown
  | .add _ _ => []

def Expr.IsPart : Expr → Prop
  | .add _ _ => False
  | _ => True

theorem eval_foldl (left : e.eval env = some (.string lit)) (all : ∀ part ∈ parts, part.IsPart) :
    (parts.foldl .add e).eval env = some (.string (lit ++ parts.flatMap (Expr.shownAt env))) := by
  induction parts generalizing e lit with
  | nil => rw [List.foldl_nil, List.flatMap_nil, List.append_nil, left]
  | cons part parts ih =>
    rw [List.forall_mem_cons] at all
    have added : (Expr.add e part).eval env = some (.string (lit ++ part.shownAt env)) := by
      cases part with
      | literal text => simp only [Expr.eval, left, Option.bind_eq_bind, Option.bind_some, Value.shown, Expr.shownAt]
      | identifier name => simp only [Expr.eval, left, Option.bind_eq_bind, Option.bind_some, Expr.shownAt]
      | add _ _ => exact all.1.elim
    rw [List.foldl_cons, ih added all.2, List.flatMap_cons, List.append_assoc]

theorem eval_sum (all : ∀ part ∈ parts, part.IsPart) :
    (sum parts).eval env = some (.string (parts.flatMap (Expr.shownAt env))) := by
  have fold (parts : List Expr) (all : ∀ part ∈ parts, part.IsPart) :
      (parts.foldl Expr.add (Expr.literal [])).eval env = some (Value.string (parts.flatMap (Expr.shownAt env))) := by
    have empty : (Expr.literal []).eval env = some (.string []) := rfl
    exact eval_foldl empty all
  match parts, all with
  | [], _ => rfl
  | .literal text :: parts, all =>
    rw [sum, List.flatMap_cons]
    exact eval_foldl rfl (List.forall_mem_cons.mp all).2
  | .identifier name :: parts, all => exact fold _ all
  | .add _ _ :: parts, all => exact fold _ all

theorem partsOf_isPart : ∀ part ∈ partsOf lit pieces, part.IsPart := by
  have flushed (lit : Bytes) : ∀ part ∈ flush [] lit, part.IsPart := by
    intro part found
    rw [flush] at found
    split at found
    · cases found
    · rw [List.nil_append, List.mem_singleton] at found
      subst found
      exact trivial
  induction pieces generalizing lit with
  | nil => exact flushed lit
  | cons piece pieces ih =>
    cases piece with
    | text w => exact ih
    | name inserted => exact List.forall_mem_append.mpr ⟨flushed lit, List.forall_mem_cons.mpr ⟨trivial, ih⟩⟩

theorem shown_flush (lit : Bytes) : (flush [] lit).flatMap (Expr.shownAt env) = lit := by
  cases lit with
  | nil => rfl
  | cons b lit => exact List.append_nil _

theorem shown_partsOf : (partsOf lit pieces).flatMap (Expr.shownAt env) = lit ++ pieces.flatMap (Piece.shown env) := by
  induction pieces generalizing lit with
  | nil => rw [partsOf, shown_flush, List.flatMap_nil, List.append_nil]
  | cons piece pieces ih =>
    cases piece with
    | text w => rw [partsOf, ih, List.flatMap_cons, List.append_assoc, Piece.shown]
    | name inserted =>
      rw [partsOf, List.flatMap_append, shown_flush, List.flatMap_cons, ih, List.nil_append, List.flatMap_cons]
      rfl

theorem buildStringExpr_denotes (pieces : List Piece) :
    ∃ e, buildStringExpr (utf8 (pieces.flatMap Piece.render)) = ⟨e, []⟩ ∧ Denotes pieces e := by
  have taken : interpolate [] [] [] 0 (utf8 (pieces.flatMap Piece.render)) = (some (partsOf [] pieces), []) :=
    interpolate_pieces
  refine ⟨_, buildStringExpr_eq taken, ?_, ?_⟩
  · rintro w rfl
    rw [partsOf, partsOf, List.nil_append]
    cases utf8 w with
    | nil => rfl
    | cons b s => rfl
  · intro env
    rw [eval_sum partsOf_isPart, shown_partsOf, List.nil_append]

end Interpolations

section Lost
variable {text kept w : List Char} {pieces : List Piece}

theorem Loses.append {first second : List Char} (loses : Loses (first ++ second) kept) :
    ∃ kept₁ kept₂, kept = kept₁ ++ kept₂ ∧ Loses first kept₁ ∧ Loses second kept₂ := by
  induction first generalizing kept with
  | nil => exact ⟨[], kept, rfl, .nil, loses⟩
  | cons c first ih =>
    cases loses with
    | keep _ others =>
      obtain ⟨kept₁, kept₂, rfl, left, right⟩ := ih others
      exact ⟨c :: kept₁, kept₂, rfl, .keep c left, right⟩
    | drop others =>
      obtain ⟨kept₁, kept₂, rfl, left, right⟩ := ih others
      exact ⟨kept₁, kept₂, rfl, .drop left, right⟩

theorem Loses.eq_self (loses : Loses text kept) (visible : '\x00' ∉ text) : kept = text := by
  induction loses with
  | nil => rfl
  | keep c _ ih => rw [ih fun found => visible (List.mem_cons_of_mem _ found)]
  | drop _ _ => exact absurd List.mem_cons_self visible

theorem Loses.doubled (loses : Loses (doubled w) kept) :
    ∃ w', kept = Literals.doubled w' ∧ (w' = w ∨ (utf8 w').length < (utf8 w).length) := by
  induction w generalizing kept with
  | nil =>
    cases loses
    exact ⟨[], rfl, .inl rfl⟩
  | cons c w ih =>
    rw [Literals.doubled, List.flatMap_cons] at loses
    obtain ⟨head, _, rfl, first, others⟩ := loses.append
    obtain ⟨w', rfl, lost⟩ := ih others
    have grown : (utf8 (c :: w)).length = (String.utf8EncodeChar c).length + (utf8 w).length := by
      rw [utf8_cons, List.length_append]
    by_cases same : head = if c = '$' then ['$', '$'] else [c]
    · refine ⟨c :: w', by rw [same, Literals.doubled, Literals.doubled, List.flatMap_cons], ?_⟩
      refine lost.imp (congrArg _) fun shorter => ?_
      rw [grown, utf8_cons, List.length_append]
      exact Nat.add_lt_add_left shorter _
    · have other : c ≠ '$' := by
        rintro rfl
        exact same (first.eq_self (by decide))
      rw [if_neg other] at first same
      cases first with
      | keep _ done =>
        cases done
        exact absurd rfl same
      | drop done =>
        cases done
        refine ⟨w', List.nil_append _, .inr ?_⟩
        have width : (String.utf8EncodeChar '\x00').length = 1 := by decide
        have bound : (utf8 w').length ≤ (utf8 w).length := by
          obtain rfl | shorter := lost
          · exact Nat.le_refl _
          · exact Nat.le_of_lt shorter
        omega

theorem letters_visible (name : Name) : '\x00' ∉ (Piece.name name).render := by
  have letter {c : Char} (part : c.isAlphanum = true ∨ c = '_') : '\x00' ≠ c := by
    rintro rfl
    revert part
    decide
  intro found
  simp only [Piece.render, Name.letters, List.mem_cons, List.mem_append, List.not_mem_nil, or_false] at found
  obtain same | same | (same | found) | same := found
  · exact absurd same (by decide)
  · exact absurd same (by decide)
  · exact letter (name.starts.imp_left fun alpha => by rw [Char.isAlphanum, alpha, Bool.true_or]) same
  · exact letter (name.goes_on _ found) rfl
  · exact absurd same (by decide)

theorem Loses.render (env : Bytes → Value) (loses : Loses (pieces.flatMap Piece.render) kept) :
    ∃ pieces', kept = pieces'.flatMap Piece.render ∧ (pieces' = pieces ∨
      (pieces'.flatMap (Piece.shown env)).length < (pieces.flatMap (Piece.shown env)).length) := by
  induction pieces generalizing kept with
  | nil =>
    cases loses
    exact ⟨[], rfl, .inl rfl⟩
  | cons piece pieces ih =>
    rw [List.flatMap_cons] at loses
    obtain ⟨head, _, rfl, first, others⟩ := loses.append
    obtain ⟨pieces', rfl, lost⟩ := ih others
    obtain ⟨piece', rfl, lost'⟩ : ∃ piece', head = Piece.render piece' ∧ (piece' = piece ∨
        (piece'.shown env).length < (piece.shown env).length) := by
      cases piece with
      | text w =>
        obtain ⟨w', rfl, lost⟩ := first.doubled
        exact ⟨.text w', rfl, lost.imp_left (congrArg _)⟩
      | name inserted => exact ⟨.name inserted, first.eq_self (letters_visible inserted), .inl rfl⟩
    refine ⟨piece' :: pieces', (List.flatMap_cons ..).symm, ?_⟩
    rw [List.flatMap_cons, List.flatMap_cons, List.length_append, List.length_append]
    obtain rfl | shorter := lost
    · exact lost'.imp (congrArg (· :: pieces')) fun shorter => Nat.add_lt_add_right shorter _
    · refine .inr (Nat.add_lt_add_of_le_of_lt ?_ shorter)
      obtain rfl | shorter := lost'
      · exact Nat.le_refl _
      · exact Nat.le_of_lt shorter

end Lost

section Literal
variable (s : StringSource)

theorem scanString_closed (content rest : Bytes) : scanString content (byte '"' :: rest) = some (content, rest) := rfl

theorem stringLiteral_eq {kept : List Char} (scanned : ∀ content tail,
    scanString content (s.source ++ tail) = scanString (content ++ utf8 kept) tail) (rest : Bytes) :
    stringLiteral (byte '"' :: (s.source ++ byte '"' :: rest)) = some (buildStringExpr (utf8 kept), rest) := by
  rw [stringLiteral, if_pos rfl, scanned, scanString_closed, List.nil_append]
  rfl

theorem denoted_iff : s.Denoted ↔ 0 ∉ s.source := by
  obtain ⟨kept, loses, same, scanned⟩ := scanString_text s.writes
  let env : Bytes → Value := fun _ => .string []
  obtain ⟨pieces', rfl, lost⟩ := loses.render env
  obtain ⟨e, built, denotes⟩ := buildStringExpr_denotes pieces'
  have literal := stringLiteral_eq s scanned
  rw [built] at literal
  constructor
  · intro denoted
    obtain ⟨e', scanned', denotes'⟩ := denoted []
    rw [literal, Option.some.injEq, Prod.mk.injEq, Built.mk.injEq] at scanned'
    obtain ⟨⟨rfl, -⟩, -⟩ := scanned'
    obtain rfl | shorter := lost
    · exact same.mp rfl
    · have values := (denotes.value env).symm.trans (denotes'.value env)
      rw [Option.some.injEq, Value.string.injEq] at values
      rw [values] at shorter
      exact absurd shorter (Nat.lt_irrefl _)
  · intro visible rest
    have rendered := same.mpr visible
    obtain ⟨e', built', denotes'⟩ := buildStringExpr_denotes s.pieces
    rw [rendered, built', Built.mk.injEq] at built
    exact ⟨e, literal rest, built.1 ▸ denotes'⟩

end Literal

theorem literals_denote (s : StringSource) (body : Bytes) :
    (s.Denoted ↔ 0 ∉ s.source) ∧ (CharDenoted body ↔ body ∉ rawControls) :=
  ⟨denoted_iff s, charDenoted_iff body⟩

def nulSource : StringSource where
  pieces := [.text ['a', '\x00', 'b']]
  source := [byte 'a', 0, byte 'b']
  writes := .cons (.raw (by decide)) (.cons (.raw (by decide)) (.cons (.raw (by decide)) .nil))

theorem nul_lost (rest : Bytes) :
    stringLiteral (byte '"' :: (nulSource.source ++ byte '"' :: rest)) =
      some (⟨.literal [byte 'a', byte 'b'], []⟩, rest) := rfl

theorem nul_not_denoted : ¬ nulSource.Denoted := by
  intro denoted
  obtain ⟨e, scanned, denotes⟩ := denoted []
  rw [nul_lost, Option.some.injEq, Prod.mk.injEq, Built.mk.injEq] at scanned
  obtain ⟨⟨rfl, -⟩, -⟩ := scanned
  exact absurd (denotes.text _ rfl) (by decide)

end NLang.Compiler.Literals
