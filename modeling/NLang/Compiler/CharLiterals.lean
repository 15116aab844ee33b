import NLang.Library.LongestMatch
import NLang.Vm.CodePoints

/-!
# Character literals

`ParseHex4`, `DecodeCharLiteral` and the rule of character literals in `nlang.l`, with the bodies that denote a Unicode
scalar value. The alternatives of the rule, and the counts of its repetition, are patterns of their own.
-/

namespace NLang.Compiler.Literals
open NLang.Library.Words NLang.Library.LongestMatch NLang.Vm.CodePoints

def byte (c : Char) : UInt8 := UInt8.ofNat c.toNat

def is (b : UInt8) : UInt8 → Bool := fun other => other == b

def oneOf (listed : List UInt8) : UInt8 → Bool := fun b => listed.contains b

def noneOf (listed : List UInt8) : UInt8 → Bool := fun b => !listed.contains b

def within (low high : Char) (c : Nat) : Bool := decide (low.toNat ≤ c ∧ c ≤ high.toNat)

def hex : UInt8 → Bool := fun b => within '0' '9' b.toNat || within 'a' 'f' b.toNat || within 'A' 'F' b.toNat

def hexStep (v c : Nat) : Nat :=
  let v := v <<< 4
  if within '0' '9' c then v ||| (c - '0'.toNat)
  else if within 'a' 'f' c then v ||| (c - 'a'.toNat + 10)
  else v ||| (c - 'A'.toNat + 10)

def parseHex4 (p : Bytes) : Nat := (List.range 4).foldl (fun v i => hexStep v (byteAt p i)) 0

def decodeEscape (letter : UInt8) : Option Nat :=
  if letter = byte 'n' then some 0x0A
  else if letter = byte 'r' then some 0x0D
  else if letter = byte 't' then some 0x09
  else if letter = byte '\'' then some 0x27
  else if letter = byte '\\' then some 0x5C
  else none

def decodeBare (p : Bytes) : Option Nat := do
  if p.length < 1 ∨ 4 < p.length then none else
  let b0 := byteAt p 0
  let (cp, n) ←
    if b0 < 0x80 then some (b0, 1)
    else if b0 &&& 0xE0 = 0xC0 then some (b0 &&& 0x1F, 2)
    else if b0 &&& 0xF0 = 0xE0 then some (b0 &&& 0x0F, 3)
    else if b0 &&& 0xF8 = 0xF0 then some (b0 &&& 0x07, 4)
    else none
  if p.length ≠ n then none else
  let cp ← (List.range' 1 (n - 1)).foldlM (fun cp i =>
    if byteAt p i &&& 0xC0 ≠ 0x80 then none else some ((cp <<< 6) ||| (byteAt p i &&& 0x3F))) cp
  let kMinCp := [0, 0, 0x80, 0x800, 0x10000]
  if cp < kMinCp.getD n 0 ∨ 0x10FFFF < cp then none
  else if 0xD800 ≤ cp ∧ cp ≤ 0xDFFF then none
  else some cp

def decodeCharLiteral (p : Bytes) : Option Nat :=
  if 2 ≤ p.length ∧ p.head? = some (byte '\\') then
    if p.length = 2 then decodeEscape (p.getD 1 0)
    else if p.length = 6 ∧ p.getD 1 0 = byte 'u' then
      let v := parseHex4 (p.drop 2)
      if 0xD800 ≤ v ∧ v ≤ 0xDFFF then none else some v
    else none
  else decodeBare p

def plain : UInt8 → Bool := noneOf [byte '\'', byte '\n', byte '\r', byte '\t', byte '\\']

def charBodies : List (List (UInt8 → Bool)) :=
  [[plain], [plain, plain], [plain, plain, plain], [plain, plain, plain, plain],
    [is (byte '\\'), is (byte 'u'), hex, hex, hex, hex],
    [is (byte '\\'), oneOf [byte 'n', byte 'r', byte 't', byte '\'', byte '\\']]]

def charRule (body : List (UInt8 → Bool)) : Rule UInt8 (Bytes → Option Nat) where
  pattern := is (byte '\'') :: (body ++ [is (byte '\'')])
  action yytext := decodeCharLiteral (yytext.drop 1).dropLast

def otherRule : Rule UInt8 (Bytes → Option Nat) := ⟨[noneOf [byte '\n']], fun _ => none⟩

def charRules : List (Rule UInt8 (Bytes → Option Nat)) := charBodies.map charRule ++ [otherRule]

def scanChar (input : Bytes) : Option (Nat × Bytes) := do
  let rule ← select input charRules
  let cp ← rule.action (input.take rule.pattern.length)
  some (cp, input.drop rule.pattern.length)

def hexDigit (b : UInt8) : Option Nat :=
  if within '0' '9' b.toNat then some (b.toNat - '0'.toNat)
  else if within 'a' 'f' b.toNat then some (b.toNat - 'a'.toNat + 10)
  else if within 'A' 'F' b.toNat then some (b.toNat - 'A'.toNat + 10)
  else none

inductive Hex4 : Bytes → Nat → Prop where
  | digits {a b c d : UInt8} {w x y z : Nat} (first : hexDigit a = some w) (second : hexDigit b = some x)
      (third : hexDigit c = some y) (last : hexDigit d = some z) :
      Hex4 [a, b, c, d] (((w * 16 + x) * 16 + y) * 16 + z)

def charEscapes : List (Char × UInt8) :=
  [('\n', byte 'n'), ('\r', byte 'r'), ('\t', byte 't'), ('\'', byte '\''), ('\\', byte '\\')]

inductive DenotesChar : Bytes → Nat → Prop where
  | raw (c : Char) (quote : c ≠ '\'') (backslash : c ≠ '\\') : DenotesChar (String.utf8EncodeChar c) c.toNat
  | escape (c : Char) (letter : UInt8) (known : (c, letter) ∈ charEscapes) : DenotesChar [byte '\\', letter] c.toNat
  | unicode (c : Char) (digits : Bytes) (number : Hex4 digits c.toNat) :
      DenotesChar (byte '\\' :: byte 'u' :: digits) c.toNat

def CharDenoted (body : Bytes) : Prop :=
  ∀ (rest : Bytes) (v : Nat),
    scanChar (byte '\'' :: (body ++ byte '\'' :: rest)) = some (v, rest) ↔ DenotesChar body v

def rawControls : List Bytes := [[byte '\t'], [byte '\n'], [byte '\r']]

section Digits
variable {b : UInt8} {d v : Nat} {digits : Bytes}

theorem hex_iff : hex b = true ↔ ∃ d, hexDigit b = some d := by
  rw [hex, hexDigit]
  cases within '0' '9' b.toNat <;> cases within 'a' 'f' b.toNat <;> cases within 'A' 'F' b.toNat <;> simp

theorem hexDigit_lt (digit : hexDigit b = some d) : d < 16 := by
  have small : '9'.toNat - '0'.toNat < 16 ∧ 'f'.toNat - 'a'.toNat < 6 ∧ 'F'.toNat - 'A'.toNat < 6 := by decide
  simp only [hexDigit, within, decide_eq_true_eq] at digit
  split at digit
  · cases digit
    omega
  split at digit
  · cases digit
    omega
  split at digit
  · cases digit
    omega
  · cases digit

theorem hexStep_eq (digit : hexDigit b = some d) (v : Nat) : hexStep v b.toNat = v * 16 + d := by
  have small := hexDigit_lt digit
  have shifted : v <<< 4 ||| d = v * 16 + d := by
    rw [← Nat.shiftLeft_add_eq_or_of_lt small, Nat.shiftLeft_eq]
  rw [← shifted, hexStep]
  unfold hexDigit at digit
  split at digit
  case isTrue decimal =>
    cases digit
    exact if_pos decimal
  case isFalse decimal =>
    rw [if_neg decimal]
    split at digit
    case isTrue lower =>
      cases digit
      exact if_pos lower
    case isFalse lower =>
      rw [if_neg lower]
      split at digit
      · cases digit
        rfl
      · cases digit

theorem parseHex4_eq (number : Hex4 digits v) (rest : Bytes) : parseHex4 (digits ++ rest) = v := by
  cases number with
  | @digits a b c d _ _ _ _ first second third last =>
    have loop : parseHex4 ([a, b, c, d] ++ rest) =
        hexStep (hexStep (hexStep (hexStep 0 a.toNat) b.toNat) c.toNat) d.toNat := rfl
    rw [loop, hexStep_eq first, hexStep_eq second, hexStep_eq third, hexStep_eq last, Nat.zero_mul, Nat.zero_add]

theorem Hex4.lt (number : Hex4 digits v) : v < 0x10000 := by
  cases number with
  | digits first second third last =>
    have := hexDigit_lt first
    have := hexDigit_lt second
    have := hexDigit_lt third
    have := hexDigit_lt last
    omega

theorem Hex4.length_eq (number : Hex4 digits v) : digits.length = 4 := by
  cases number
  rfl

theorem hex4_iff : Fits [hex, hex, hex, hex] digits ↔ ∃ v, Hex4 digits v := by
  constructor
  · intro fits
    obtain ⟨a, _, first, three, rfl⟩ := List.forall₂_cons_left_iff.mp fits
    obtain ⟨b, _, second, two, rfl⟩ := List.forall₂_cons_left_iff.mp three
    obtain ⟨c, _, third, one, rfl⟩ := List.forall₂_cons_left_iff.mp two
    obtain ⟨d, _, last, done, rfl⟩ := List.forall₂_cons_left_iff.mp one
    cases done
    obtain ⟨w, first⟩ := hex_iff.mp first
    obtain ⟨x, second⟩ := hex_iff.mp second
    obtain ⟨y, third⟩ := hex_iff.mp third
    obtain ⟨z, last⟩ := hex_iff.mp last
    exact ⟨_, .digits first second third last⟩
  · rintro ⟨v, number⟩
    cases number with
    | digits first second third last =>
      exact .cons (hex_iff.mpr ⟨_, first⟩) (.cons (hex_iff.mpr ⟨_, second⟩)
        (.cons (hex_iff.mpr ⟨_, third⟩) (.cons (hex_iff.mpr ⟨_, last⟩) .nil)))

end Digits

section Encoded
variable {c : Char} {b : UInt8}

theorem encodeChar_ascii (ascii : c.toNat < 0x80) : String.utf8EncodeChar c = [byte c] := by
  rw [encodeChar_eq, if_pos ascii, byte]

theorem encodeChar_wide (wide : ¬ c.toNat < 0x80) (found : b ∈ String.utf8EncodeChar c) : 0x80 ≤ b.toNat := by
  have valid := char_valid c
  have large {n : Nat} (small : n < 256) (high : 0x80 ≤ n) : 0x80 ≤ (UInt8.ofNat n).toNat := by
    rwa [UInt8.toNat_ofNat_of_lt' small]
  rw [encodeChar_eq, if_neg wide] at found
  split at found
  · simp only [List.mem_cons, List.not_mem_nil, or_false] at found
    rcases found with rfl | rfl
    · exact large (by omega) (by omega)
    · exact large (by omega) (by omega)
  split at found
  · simp only [List.mem_cons, List.not_mem_nil, or_false] at found
    rcases found with rfl | rfl | rfl
    · exact large (by omega) (by omega)
    · exact large (by omega) (by omega)
    · exact large (by omega) (by omega)
  · simp only [List.mem_cons, List.not_mem_nil, or_false] at found
    rcases found with rfl | rfl | rfl | rfl
    · exact large (by omega) (by omega)
    · exact large (by omega) (by omega)
    · exact large (by omega) (by omega)
    · exact large (by omega) (by omega)

theorem byte_toNat (ascii : c.toNat < 0x80) : (byte c).toNat = c.toNat :=
  UInt8.toNat_ofNat_of_lt' (by change c.toNat < 256; omega)

theorem mem_encodeChar {ascii : Char} (small : ascii.toNat < 0x80) :
    byte ascii ∈ String.utf8EncodeChar c ↔ c = ascii := by
  constructor
  · intro found
    by_cases wide : c.toNat < 0x80
    · rw [encodeChar_ascii wide, List.mem_singleton] at found
      have same := congrArg UInt8.toNat found
      rw [byte_toNat small, byte_toNat wide] at same
      exact (Char.toNat_inj.mp same).symm
    · have large := encodeChar_wide wide found
      rw [byte_toNat small] at large
      omega
  · rintro rfl
    rw [encodeChar_ascii small]
    exact List.mem_singleton_self _

theorem length_encodeChar (c : Char) :
    1 ≤ (String.utf8EncodeChar c).length ∧ (String.utf8EncodeChar c).length ≤ 4 := by
  rw [encodeChar_eq]
  split
  · exact ⟨Nat.le_refl 1, Nat.le_add_left 1 3⟩
  split
  · exact ⟨Nat.le_add_left 1 1, Nat.le_add_left 2 2⟩
  split
  · exact ⟨Nat.le_add_left 1 2, Nat.le_add_left 3 1⟩
  · exact ⟨Nat.le_add_left 1 3, Nat.le_refl 4⟩

end Encoded

section Action
variable {p body : Bytes} {v : Nat}

theorem scalar_iff {decoded : Option Nat} {floor n length : Nat} :
    (if length ≠ n then none
      else decoded.bind fun cp =>
        if cp < floor ∨ 0x10FFFF < cp then none else if 0xD800 ≤ cp ∧ cp ≤ 0xDFFF then none else some cp) = some v ↔
    (if length < n then none
      else decoded.bind fun cp =>
        if cp < floor ∨ 0x10FFFF < cp ∨ (0xD800 ≤ cp ∧ cp ≤ 0xDFFF) then none else some (cp, n)) =
      some (v, length) := by
  cases decoded with
  | none => simp
  | some cp =>
    simp only [Option.bind_some]
    grind

theorem decodeBare_step (fits : 1 ≤ p.length ∧ p.length ≤ 4) :
    decodeBare p = some v ↔ decodeStep p 0 = some (v, p.length) := by
  have inside : ¬ (p.length < 1 ∨ 4 < p.length) := by omega
  unfold decodeBare decodeStep
  rw [if_neg inside]
  by_cases one : byteAt p 0 < 0x80
  · simp only [if_pos one, Nat.zero_add]
    exact scalar_iff
  by_cases two : byteAt p 0 &&& 0xE0 = 0xC0
  · simp only [if_neg one, if_pos two, Nat.zero_add]
    exact scalar_iff
  by_cases three : byteAt p 0 &&& 0xF0 = 0xE0
  · simp only [if_neg one, if_neg two, if_pos three, Nat.zero_add]
    exact scalar_iff
  by_cases four : byteAt p 0 &&& 0xF8 = 0xF0
  · simp only [if_neg one, if_neg two, if_neg three, if_pos four, Nat.zero_add]
    exact scalar_iff
  · simp only [if_neg one, if_neg two, if_neg three, if_neg four]
    constructor
    · intro none_
      cases none_
    · intro none_
      cases none_

theorem decodeBare_iff (fits : 1 ≤ p.length ∧ p.length ≤ 4) :
    decodeBare p = some v ↔ ∃ c : Char, c.toNat = v ∧ p = String.utf8EncodeChar c := by
  rw [decodeBare_step fits, decodeStep_iff, spells_iff]
  constructor
  · rintro ⟨c, number, width, starts⟩
    exact ⟨c, number, (starts.eq_of_length width).symm⟩
  · rintro ⟨c, number, rfl⟩
    exact ⟨c, number, rfl, List.prefix_rfl⟩

theorem decodeCharLiteral_bare (bare : p.head? ≠ some (byte '\\')) : decodeCharLiteral p = decodeBare p :=
  if_neg fun escaped => bare escaped.2

theorem decodeCharLiteral_unicode {digits : Bytes} (number : Hex4 digits v) :
    decodeCharLiteral (byte '\\' :: byte 'u' :: digits) = if 0xD800 ≤ v ∧ v ≤ 0xDFFF then none else some v := by
  have length := number.length_eq
  have parsed := parseHex4_eq number []
  rw [List.append_nil] at parsed
  rw [decodeCharLiteral, if_pos ⟨by rw [List.length_cons, List.length_cons]; omega, rfl⟩,
    if_neg (by rw [List.length_cons, List.length_cons]; omega),
    if_pos ⟨by rw [List.length_cons, List.length_cons]; omega, rfl⟩]
  simp only [List.drop_succ_cons, List.drop_zero, parsed]

end Action

section Rule_
variable {pattern other : List (UInt8 → Bool)} {body rest : Bytes} {b : UInt8} {v : Nat}

theorem plain_iff : plain b = true ↔ ∀ c ∈ ['\'', '\n', '\r', '\t', '\\'], b ≠ byte c := by
  simp [plain, noneOf]

theorem fits_replicate {n : Nat} {test : UInt8 → Bool} :
    Fits (List.replicate n test) body ↔ body.length = n ∧ ∀ b ∈ body, test b = true := by
  induction n generalizing body with
  | zero =>
    constructor
    · intro fits
      cases fits
      exact ⟨rfl, List.forall_mem_nil _⟩
    · rintro ⟨empty, -⟩
      rw [List.length_eq_zero_iff.mp empty]
      exact .nil
  | succ n ih =>
    cases body with
    | nil =>
      constructor
      · intro fits
        cases fits
      · rintro ⟨empty, -⟩
        cases empty
    | cons b body =>
      rw [List.replicate_succ, Fits, List.forall₂_cons, ← Fits, ih, List.forall_mem_cons, List.length_cons,
        Nat.add_right_cancel_iff]
      exact and_left_comm

theorem Hex4.hex_of_mem {digits : Bytes} (number : Hex4 digits v) (found : b ∈ digits) : hex b = true := by
  have fits : Fits (List.replicate 4 hex) digits := hex4_iff.mpr ⟨v, number⟩
  exact (fits_replicate.mp fits).2 b found

theorem fits_iff : (∃ pattern ∈ charBodies, Fits pattern body) ↔
    ((1 ≤ body.length ∧ body.length ≤ 4) ∧ ∀ b ∈ body, plain b = true) ∨
    (∃ digits v, body = byte '\\' :: byte 'u' :: digits ∧ Hex4 digits v) ∨
    ∃ c letter, body = [byte '\\', letter] ∧ (c, letter) ∈ charEscapes := by
  constructor
  · rintro ⟨pattern, listed, fits⟩
    have bare (n : Nat) (small : 1 ≤ n ∧ n ≤ 4) (fits : Fits (List.replicate n plain) body) :
        (1 ≤ body.length ∧ body.length ≤ 4) ∧ ∀ b ∈ body, plain b = true := by
      obtain ⟨rfl, all⟩ := fits_replicate.mp fits
      exact ⟨small, all⟩
    simp only [charBodies, List.mem_cons, List.not_mem_nil, or_false] at listed
    rcases listed with rfl | rfl | rfl | rfl | rfl | rfl
    · exact .inl (bare 1 (by decide) fits)
    · exact .inl (bare 2 (by decide) fits)
    · exact .inl (bare 3 (by decide) fits)
    · exact .inl (bare 4 (by decide) fits)
    · obtain ⟨_, _, first, escaped, rfl⟩ := List.forall₂_cons_left_iff.mp fits
      obtain ⟨_, digits, second, numbers, rfl⟩ := List.forall₂_cons_left_iff.mp escaped
      obtain ⟨v, number⟩ := hex4_iff.mp numbers
      rw [eq_of_beq first, eq_of_beq second]
      exact .inr (.inl ⟨digits, v, rfl, number⟩)
    · obtain ⟨_, _, first, escaped, rfl⟩ := List.forall₂_cons_left_iff.mp fits
      obtain ⟨letter, _, second, done, rfl⟩ := List.forall₂_cons_left_iff.mp escaped
      cases done
      rw [eq_of_beq first]
      have letters : letter ∈ charEscapes.map Prod.snd := List.contains_iff_mem.mp second
      obtain ⟨⟨c, _⟩, known, rfl⟩ := List.mem_map.mp letters
      exact .inr (.inr ⟨c, _, rfl, known⟩)
  · rintro (⟨⟨some_, short⟩, all⟩ | ⟨digits, v, rfl, number⟩ | ⟨c, letter, rfl, known⟩)
    · have listed : ∀ n, 1 ≤ n → n ≤ 4 → List.replicate n plain ∈ charBodies := by
        intro n low high
        match n, low, high with
        | 1, _, _ => exact .head _
        | 2, _, _ => exact .tail _ (.head _)
        | 3, _, _ => exact .tail _ (.tail _ (.head _))
        | 4, _, _ => exact .tail _ (.tail _ (.tail _ (.head _)))
      exact ⟨_, listed _ some_ short, fits_replicate.mpr ⟨rfl, all⟩⟩
    · exact ⟨_, .tail _ (.tail _ (.tail _ (.tail _ (.head _)))),
        .cons (beq_self_eq_true _) (.cons (beq_self_eq_true _) (hex4_iff.mpr ⟨v, number⟩))⟩
    · have letters : letter ∈ charEscapes.map Prod.snd := List.mem_map_of_mem known
      exact ⟨_, .tail _ (.tail _ (.tail _ (.tail _ (.tail _ (.head _))))),
        .cons (beq_self_eq_true _) (.cons (List.contains_iff_mem.mpr letters) .nil)⟩

theorem quote_place {more : Bytes} (listed : other ∈ charBodies) (fits : Fits other (body ++ byte '\'' :: more)) :
    body = [byte '\\'] := by
  have inside : byte '\'' ∈ body ++ byte '\'' :: more := List.mem_append_right _ List.mem_cons_self
  obtain ⟨-, all⟩ | ⟨digits, v, numbered, number⟩ | ⟨c, letter, escaped, -⟩ := fits_iff.mp ⟨other, listed, fits⟩
  · exact absurd (all _ inside) (by decide)
  · rw [numbered, List.mem_cons, List.mem_cons] at inside
    obtain same | same | found := inside
    · exact absurd same (by decide)
    · exact absurd same (by decide)
    · exact absurd (number.hex_of_mem found) (by decide)
  · match body, escaped with
    | [], escaped => exact absurd (List.cons.inj escaped).1 (by decide)
    | [b], escaped => rw [(List.cons.inj escaped).1]
    | _ :: _ :: _, escaped =>
      have lengths := congrArg List.length escaped
      simp only [List.length_append, List.length_cons, List.length_nil] at lengths
      omega

theorem quoted_eq (body rest : Bytes) :
    byte '\'' :: (body ++ byte '\'' :: rest) = (byte '\'' :: (body ++ [byte '\''])) ++ rest := by
  rw [List.cons_append, List.append_assoc, List.singleton_append]

theorem charRule_taken (rest : Bytes) (same : pattern.length = body.length) :
    (byte '\'' :: (body ++ byte '\'' :: rest)).take (charRule pattern).pattern.length =
        byte '\'' :: (body ++ [byte '\'']) ∧
      (byte '\'' :: (body ++ byte '\'' :: rest)).drop (charRule pattern).pattern.length = rest := by
  have length : (charRule pattern).pattern.length = (byte '\'' :: (body ++ [byte '\''])).length := by
    simp only [charRule, List.length_cons, List.length_append, same, List.length_nil]
  rw [length, quoted_eq body rest]
  exact ⟨List.take_left, List.drop_left⟩

theorem charRule_fits : Fits (charRule pattern).pattern (byte '\'' :: (body ++ [byte '\''])) ↔ Fits pattern body := by
  constructor
  · intro fits
    have inner := (List.forall₂_cons.mp fits).2
    have same : pattern.length = body.length := by
      have lengths := List.Forall₂.length_eq inner
      simpa using lengths
    have taken := List.forall₂_take pattern.length inner
    rwa [List.take_left, same, List.take_left] at taken
  · intro fits
    exact .cons (beq_self_eq_true _) (List.rel_append fits (.cons (beq_self_eq_true _) .nil))

theorem charRule_action : (charRule pattern).action (byte '\'' :: (body ++ [byte '\''])) = decodeCharLiteral body := by
  change decodeCharLiteral (body ++ [byte '\'']).dropLast = _
  rw [List.dropLast_concat]

theorem charRule_length : (charRule pattern).pattern.length = pattern.length + 2 := by
  rw [charRule, List.length_cons, List.length_append, List.length_singleton]

theorem selected_length (fit : ∃ pattern ∈ charBodies, Fits pattern body) (listed : other ∈ charBodies)
    (accepted : accepts (charRule other).pattern (byte '\'' :: (body ++ byte '\'' :: rest)) = true)
    (long : body.length ≤ other.length) : other.length = body.length := by
  by_contra different
  obtain ⟨extra, further⟩ : ∃ extra, other.length = (body ++ [byte '\'']).length + extra :=
    Nat.exists_eq_add_of_le (by rw [List.length_append, List.length_singleton]; omega)
  have inner := (List.forall₂_cons.mp (fits_take accepted)).2
  have taken := List.forall₂_take other.length inner
  rw [List.take_left, List.length_append, List.take_take, Nat.min_eq_left (Nat.le_add_right _ _), further,
    List.append_cons body _ rest, List.take_length_add_append, List.append_assoc, List.singleton_append] at taken
  have single := quote_place listed taken
  subst single
  obtain ⟨-, all⟩ | ⟨digits, v, numbered, -⟩ | ⟨c, letter, escaped, -⟩ := fits_iff.mp fit
  · exact absurd (all _ (List.mem_singleton_self _)) (by decide)
  · cases numbered
  · cases escaped

theorem scanChar_iff : scanChar (byte '\'' :: (body ++ byte '\'' :: rest)) = some (v, rest) ↔
    (∃ pattern ∈ charBodies, Fits pattern body) ∧ decodeCharLiteral body = some v := by
  constructor
  · intro scanned
    simp only [scanChar, Option.bind_eq_bind, Option.bind_eq_some_iff, Option.some.injEq, Prod.mk.injEq] at scanned
    obtain ⟨rule, selected, cp, action, rfl, after⟩ := scanned
    obtain ⟨known, accepted, -⟩ := select_spec selected
    obtain bodies | last := List.mem_append.mp known
    · obtain ⟨pattern, listed, rfl⟩ := List.mem_map.mp bodies
      have fits := fits_take accepted
      have same : pattern.length = body.length := by
        have lengths := congrArg List.length after
        have within := List.Forall₂.length_eq fits
        simp only [charRule_length, List.length_drop, List.length_take, List.length_cons, List.length_append]
          at lengths within
        omega
      rw [(charRule_taken rest same).1] at fits action
      exact ⟨⟨pattern, listed, charRule_fits.mp fits⟩, charRule_action.symm.trans action⟩
    · rw [List.mem_singleton.mp last] at action
      cases action
  · rintro ⟨fit, decoded⟩
    obtain ⟨pattern, listed, fits⟩ := fit
    have ruled : charRule pattern ∈ charRules := List.mem_append_left _ (List.mem_map_of_mem listed)
    have accepted : accepts (charRule pattern).pattern (byte '\'' :: (body ++ byte '\'' :: rest)) = true := by
      rw [quoted_eq body rest]
      exact accepts_append (charRule_fits.mpr fits)
    cases selected : select (byte '\'' :: (body ++ byte '\'' :: rest)) charRules with
    | none =>
      rw [select_eq_none selected _ ruled] at accepted
      cases accepted
    | some rule =>
      obtain ⟨known, matched, longest⟩ := select_spec selected
      have long := longest _ ruled accepted
      rw [charRule_length, List.Forall₂.length_eq fits] at long
      obtain bodies | last := List.mem_append.mp known
      · obtain ⟨other, listed', rfl⟩ := List.mem_map.mp bodies
        rw [charRule_length, Nat.add_le_add_iff_right] at long
        have same := selected_length ⟨pattern, listed, fits⟩ listed' matched long
        obtain ⟨taken, left⟩ := charRule_taken rest same
        rw [scanChar, selected]
        simp only [Option.bind_eq_bind, Option.bind_some, taken, left, charRule_action, decoded]
      · rw [List.mem_singleton.mp last] at long
        exact absurd (Nat.le_of_succ_le_succ long) (Nat.not_succ_le_zero _)

theorem denotesChar_bare (short : 1 ≤ body.length ∧ body.length ≤ 4) (all : ∀ b ∈ body, plain b = true) :
    decodeCharLiteral body = some v ↔ ∃ c : Char, c.toNat = v ∧ body = String.utf8EncodeChar c := by
  have bare : body.head? ≠ some (byte '\\') := by
    intro escaped
    exact absurd (all _ (List.mem_of_head? escaped)) (by decide)
  rw [decodeCharLiteral_bare bare, decodeBare_iff short]

theorem plain_encodeChar {c : Char} :
    (∀ b ∈ String.utf8EncodeChar c, plain b = true) ↔ c ∉ ['\'', '\n', '\r', '\t', '\\'] := by
  have excluded : ∀ ascii ∈ ['\'', '\n', '\r', '\t', '\\'], ascii.toNat < 0x80 :=
    List.all_iff_forall_prop.mp (by decide)
  constructor
  · intro all listed
    have first := (mem_encodeChar (excluded c listed)).mpr (rfl : c = c)
    exact plain_iff.mp (all _ first) c listed rfl
  · intro other b found
    refine plain_iff.mpr ?_
    rintro ascii listed rfl
    rw [mem_encodeChar (excluded ascii listed)] at found
    exact other (found ▸ listed)

theorem denotesChar_fits (denotes : DenotesChar body v) (visible : body ∉ rawControls) :
    (∃ pattern ∈ charBodies, Fits pattern body) ∧ decodeCharLiteral body = some v := by
  cases denotes with
  | raw c quote backslash =>
    have other : c ∉ ['\'', '\n', '\r', '\t', '\\'] := by
      intro listed
      simp only [List.mem_cons, List.not_mem_nil, or_false] at listed
      rcases listed with rfl | rfl | rfl | rfl | rfl
      · exact quote rfl
      · exact visible (by decide)
      · exact visible (by decide)
      · exact visible (by decide)
      · exact backslash rfl
    have short := length_encodeChar c
    have all := plain_encodeChar.mpr other
    exact ⟨fits_iff.mpr (.inl ⟨short, all⟩), (denotesChar_bare short all).mpr ⟨c, rfl, rfl⟩⟩
  | escape c letter known =>
    refine ⟨fits_iff.mpr (.inr (.inr ⟨c, letter, rfl, known⟩)), ?_⟩
    have decoded : ∀ known ∈ charEscapes, decodeCharLiteral [byte '\\', known.2] = some known.1.toNat := by decide
    exact decoded (c, letter) known
  | unicode c digits number =>
    have valid := char_valid c
    refine ⟨fits_iff.mpr (.inr (.inl ⟨digits, _, rfl, number⟩)), ?_⟩
    rw [decodeCharLiteral_unicode number, if_neg (by omega)]

theorem fits_denotesChar (fit : ∃ pattern ∈ charBodies, Fits pattern body) (decoded : decodeCharLiteral body = some v) :
    DenotesChar body v ∧ body ∉ rawControls := by
  obtain ⟨short, all⟩ | ⟨digits, w, rfl, number⟩ | ⟨c, letter, rfl, known⟩ := fits_iff.mp fit
  · obtain ⟨c, rfl, rfl⟩ := (denotesChar_bare short all).mp decoded
    have other := plain_encodeChar.mp all
    simp only [List.mem_cons, List.not_mem_nil, or_false, not_or] at other
    refine ⟨.raw c other.1 other.2.2.2.2, ?_⟩
    have bytes : ∀ body ∈ rawControls, ∃ b ∈ body, plain b = false := by decide
    intro control
    obtain ⟨b, found, special⟩ := bytes _ control
    rw [all b found] at special
    cases special
  · rw [decodeCharLiteral_unicode number] at decoded
    split at decoded
    · cases decoded
    · cases decoded
      have small := number.lt
      have valid : Nat.isValidChar v := by
        change v < 0xD800 ∨ 0xDFFF < v ∧ v < 0x110000
        omega
      exact ⟨.unicode (Char.ofNatAux v valid) digits number, by simp [rawControls]⟩
  · have known' : ∀ known ∈ charEscapes, decodeCharLiteral [byte '\\', known.2] = some known.1.toNat := by decide
    rw [known' (c, letter) known] at decoded
    cases decoded
    exact ⟨.escape c letter known, by simp [rawControls]⟩

theorem charDenoted_iff (body : Bytes) : CharDenoted body ↔ body ∉ rawControls := by
  constructor
  · intro denoted control
    have raw : ∀ c ∈ ['\t', '\n', '\r'], DenotesChar [byte c] c.toNat := by
      intro c listed
      have ascii : ∀ c ∈ ['\t', '\n', '\r'], c.toNat < 0x80 ∧ c ≠ '\'' ∧ c ≠ '\\' :=
        List.all_iff_forall_prop.mp (by decide)
      obtain ⟨small, quote, backslash⟩ := ascii c listed
      rw [← encodeChar_ascii small]
      exact .raw c quote backslash
    obtain ⟨v, denotes⟩ : ∃ v, DenotesChar body v := by
      simp only [rawControls, List.mem_cons, List.not_mem_nil, or_false] at control
      rcases control with rfl | rfl | rfl
      · exact ⟨_, raw '\t' (by decide)⟩
      · exact ⟨_, raw '\n' (by decide)⟩
      · exact ⟨_, raw '\r' (by decide)⟩
    obtain ⟨fit, decoded⟩ := scanChar_iff.mp ((denoted [] v).mpr denotes)
    exact (fits_denotesChar fit decoded).2 control
  · intro visible rest v
    rw [scanChar_iff]
    constructor
    · rintro ⟨fit, decoded⟩
      exact (fits_denotesChar fit decoded).1
    · intro denotes
      exact denotesChar_fits denotes visible

end Rule_

end NLang.Compiler.Literals
