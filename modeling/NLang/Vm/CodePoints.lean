import NLang.Library.HostIntegers
import NLang.Library.Loops
import NLang.Library.PrefixCodes
import NLang.Library.Words

/-!
# Code points of a string

The validator of source files, the decoder of `charAt` and `charCount`, the step of `foreach` over a string, and the
encoder. A loop is run for a number of rounds, and gives nothing where these are not enough.
-/

namespace NLang.Vm.CodePoints
open NLang.Library.Words NLang.Library.HostIntegers NLang.Library.PrefixCodes NLang.Library.Loops

def int32 : IntType := ⟨32, true⟩

def byteAt (s : Bytes) (k : Nat) : Nat := (s.getD k 0).toNat

def sequenceLength (lead : Nat) : Nat :=
  if lead < 0x80 then 1
  else if lead &&& 0xE0 = 0xC0 then 2
  else if lead &&& 0xF0 = 0xE0 then 3
  else if lead &&& 0xF8 = 0xF0 then 4
  else 0

def decodeCodePoint (s : Bytes) (start seqLength : Nat) : Nat :=
  let lead := byteAt s start
  let cp := match seqLength with
    | 2 => lead &&& 0x1F
    | 3 => lead &&& 0x0F
    | 4 => lead &&& 0x07
    | _ => lead
  (List.range' 1 (seqLength - 1)).foldl (fun cp k => (cp <<< 6) ||| (byteAt s (start + k) &&& 0x3F)) cp

def kFloor : List Nat := [0, 0, 0x80, 0x800, 0x10000]

/-- The body of the loop of `Utf8FirstInvalid`: the sequence it steps over, or nothing where it returns. -/
def sequenceAt (s : Bytes) (i : Nat) : Option (Nat × Nat) :=
  let seq := sequenceLength (byteAt s i)
  if seq = 0 then none
  else if s.length < i + seq then none
  else if (List.range' 1 (seq - 1)).any fun k => byteAt s (i + k) &&& 0xC0 != 0x80 then none
  else
    let cp := decodeCodePoint s i seq
    if cp < kFloor.getD seq 0 ∨ 0x10FFFF < cp ∨ (0xD800 ≤ cp ∧ cp ≤ 0xDFFF) then none else some (cp, seq)

def firstInvalidFrom (s : Bytes) : Nat → Nat → Option Nat
  | 0, _ => none
  | rounds + 1, i =>
    if s.length ≤ i then some s.length
    else match sequenceAt s i with
      | none => some i
      | some (_, seq) => firstInvalidFrom s rounds (i + seq)

def utf8FirstInvalid (s : Bytes) (rounds : Nat) : Option Nat := firstInvalidFrom s rounds 0

def utf8Valid (s : Bytes) (rounds : Nat) : Option Bool := (utf8FirstInvalid s rounds).map (· == s.length)

/-- The code point and its length in bytes; nothing is the result -1. -/
def decodeCodePointAt (s : Bytes) (i : Nat) : Option (Nat × Nat) := do
  let lead := byteAt s i
  let (n, cp) ←
    if lead < 0x80 then some (0, lead)
    else if lead &&& 0xE0 = 0xC0 then some (1, lead &&& 0x1F)
    else if lead &&& 0xF0 = 0xE0 then some (2, lead &&& 0x0F)
    else if lead &&& 0xF8 = 0xF0 then some (3, lead &&& 0x07)
    else none
  let cp ← (List.range' 1 n).foldlM (fun cp k =>
    if i + k < s.length ∧ byteAt s (i + k) &&& 0xC0 = 0x80 then some ((cp <<< 6) ||| (byteAt s (i + k) &&& 0x3F))
    else none) cp
  let kMinCp := [0, 0, 0x80, 0x800, 0x10000]
  if cp < kMinCp.getD (n + 1) 0 ∨ 0x10FFFF < cp ∨ (0xD800 ≤ cp ∧ cp ≤ 0xDFFF) then none else some (cp, n + 1)

inductive CharAtError where
  /-- "string.charAt: byte index " index " outside string of " size " bytes." -/
  | outside (index : Int) (size : Nat)
  /-- "string.charAt: byte index " index " does not start a valid UTF-8 sequence." -/
  | invalid (index : Int)

def charAt (s : Bytes) (index : Int) : Except CharAtError Nat :=
  if index < 0 ∨ (s.length : Int) ≤ index then .error (.outside index s.length)
  else match decodeCodePointAt s index.toNat with
    | none => .error (.invalid index)
    | some (cp, _) => .ok cp

inductive CountEnd where
  | counted (count : Int)
  /-- "string.charCount: invalid UTF-8 sequence at byte " position "." -/
  | raised (position : Nat)
  | undefined

def charCountFrom (s : Bytes) : Nat → Nat → Int → Option CountEnd
  | 0, _, _ => none
  | rounds + 1, i, count =>
    if s.length ≤ i then some (.counted count)
    else match decodeCodePointAt s i with
      | none => some (.raised i)
      | some (_, len) => (int32.add count 1).elim (some .undefined) (charCountFrom s rounds (i + len))

def charCount (s : Bytes) (rounds : Nat) : Option CountEnd := charCountFrom s rounds 0 0

/-- The decoding in `OP_StrForeachStep`; nothing where it raises "string iteration: invalid UTF-8 sequence.". -/
def decodeStep (s : Bytes) (pos : Nat) : Option (Nat × Nat) := do
  let b0 := byteAt s pos
  let (cp, len) ←
    if b0 < 0x80 then some (b0, 1)
    else if b0 &&& 0xE0 = 0xC0 then some (b0 &&& 0x1F, 2)
    else if b0 &&& 0xF0 = 0xE0 then some (b0 &&& 0x0F, 3)
    else if b0 &&& 0xF8 = 0xF0 then some (b0 &&& 0x07, 4)
    else none
  if s.length < pos + len then none else
  let cp ← (List.range' 1 (len - 1)).foldlM (fun cp i =>
    if byteAt s (pos + i) &&& 0xC0 ≠ 0x80 then none else some ((cp <<< 6) ||| (byteAt s (pos + i) &&& 0x3F))) cp
  let kMinCp := [0, 0, 0x80, 0x800, 0x10000]
  if cp < kMinCp.getD len 0 ∨ 0x10FFFF < cp ∨ (0xD800 ≤ cp ∧ cp ≤ 0xDFFF) then none else some (cp, len)

inductive Step where
  | exit
  | more (codePoint : Nat) (offset : Int)
  | raised
  | undefined

def opStrForeachStep (s : Bytes) (offset : Int) : Step :=
  if offset < 0 ∨ (s.length : Int) ≤ offset then .exit
  else match decodeStep s offset.toNat with
    | none => .raised
    | some (codePoint, len) => (int32.add offset len).elim .undefined (.more codePoint)

inductive LoopEnd where
  | exited
  | raised (offset : Int)
  | undefined

def foreachFrom (s : Bytes) : Nat → Int → List Nat → Option (List Nat × LoopEnd)
  | 0, _, _ => none
  | rounds + 1, offset, chars => match opStrForeachStep s offset with
    | .exit => some (chars, .exited)
    | .raised => some (chars, .raised offset)
    | .undefined => some (chars, .undefined)
    | .more codePoint next => foreachFrom s rounds next (chars ++ [codePoint])

def stringForeach (s : Bytes) (rounds : Nat) : Option (List Nat × LoopEnd) := foreachFrom s rounds 0 []

def utf8EncodeCodePoint (cp : Nat) : Bytes :=
  if cp < 0x80 then [UInt8.ofNat cp]
  else if cp < 0x800 then [UInt8.ofNat (0xC0 ||| (cp >>> 6)), UInt8.ofNat (0x80 ||| (cp &&& 0x3F))]
  else if cp < 0x10000 then
    [UInt8.ofNat (0xE0 ||| (cp >>> 12)), UInt8.ofNat (0x80 ||| ((cp >>> 6) &&& 0x3F)),
      UInt8.ofNat (0x80 ||| (cp &&& 0x3F))]
  else
    [UInt8.ofNat (0xF0 ||| (cp >>> 18)), UInt8.ofNat (0x80 ||| ((cp >>> 12) &&& 0x3F)),
      UInt8.ofNat (0x80 ||| ((cp >>> 6) &&& 0x3F)), UInt8.ofNat (0x80 ||| (cp &&& 0x3F))]

section Bits
variable {b cp : Nat}

theorem lead_two (byte : b < 256) : b &&& 0xE0 = 0xC0 ↔ 0xC0 ≤ b ∧ b < 0xE0 := by
  have all : ∀ b < 256, b &&& 0xE0 = 0xC0 ↔ 0xC0 ≤ b ∧ b < 0xE0 := by decide +kernel
  exact all b byte

theorem lead_three (byte : b < 256) : b &&& 0xF0 = 0xE0 ↔ 0xE0 ≤ b ∧ b < 0xF0 := by
  have all : ∀ b < 256, b &&& 0xF0 = 0xE0 ↔ 0xE0 ≤ b ∧ b < 0xF0 := by decide +kernel
  exact all b byte

theorem lead_four (byte : b < 256) : b &&& 0xF8 = 0xF0 ↔ 0xF0 ≤ b ∧ b < 0xF8 := by
  have all : ∀ b < 256, b &&& 0xF8 = 0xF0 ↔ 0xF0 ≤ b ∧ b < 0xF8 := by decide +kernel
  exact all b byte

theorem continuation (byte : b < 256) : b &&& 0xC0 = 0x80 ↔ 0x80 ≤ b ∧ b < 0xC0 := by
  have all : ∀ b < 256, b &&& 0xC0 = 0x80 ↔ 0x80 ≤ b ∧ b < 0xC0 := by decide +kernel
  exact all b byte

theorem group_eq : (cp <<< 6) ||| (b &&& 0x3F) = cp * 64 + b % 64 := by
  have low : b &&& 0x3F = b % 64 := Nat.and_two_pow_sub_one_eq_mod b 6
  have small : b % 64 < 2 ^ 6 := Nat.mod_lt b (by decide)
  rw [low, ← Nat.shiftLeft_add_eq_or_of_lt small, Nat.shiftLeft_eq]

theorem low_five : b &&& 0x1F = b % 32 := Nat.and_two_pow_sub_one_eq_mod b 5

theorem low_four : b &&& 0x0F = b % 16 := Nat.and_two_pow_sub_one_eq_mod b 4

theorem low_three : b &&& 0x07 = b % 8 := Nat.and_two_pow_sub_one_eq_mod b 3

theorem mark_eq {mark : Nat} (places : Nat) (high : mark % 2 ^ places = 0) (small : b < 2 ^ places) :
    mark ||| b = b + mark := by
  have split : mark = (mark / 2 ^ places) <<< places := by
    rw [Nat.shiftLeft_eq, Nat.div_mul_cancel (Nat.dvd_of_mod_eq_zero high)]
  rw [split, ← Nat.shiftLeft_add_eq_or_of_lt small, Nat.add_comm]

end Bits

section Characters
variable (c : Char)

theorem char_valid : c.toNat < 0xD800 ∨ 0xDFFF < c.toNat ∧ c.toNat < 0x110000 := c.valid

theorem encodeChar_eq : String.utf8EncodeChar c =
    if c.toNat < 0x80 then [UInt8.ofNat c.toNat]
    else if c.toNat < 0x800 then [UInt8.ofNat (c.toNat / 64 + 0xC0), UInt8.ofNat (c.toNat % 64 + 0x80)]
    else if c.toNat < 0x10000 then
      [UInt8.ofNat (c.toNat / 4096 + 0xE0), UInt8.ofNat (c.toNat / 64 % 64 + 0x80), UInt8.ofNat (c.toNat % 64 + 0x80)]
    else
      [UInt8.ofNat (c.toNat / 262144 + 0xF0), UInt8.ofNat (c.toNat / 4096 % 64 + 0x80),
        UInt8.ofNat (c.toNat / 64 % 64 + 0x80), UInt8.ofNat (c.toNat % 64 + 0x80)] := by
  have valid := char_valid c
  unfold String.utf8EncodeChar
  have number : c.val.toNat = c.toNat := rfl
  have bound (n : Nat) : c.toNat ≤ n ↔ c.toNat < n + 1 := Nat.lt_succ_iff.symm
  simp only [number, bound, Nat.reduceAdd]
  split
  · rfl
  split
  · rw [Nat.mod_eq_of_lt (by omega)]
  split
  · rw [Nat.mod_eq_of_lt (by omega)]
  rw [Nat.mod_eq_of_lt (by omega)]

theorem utf8EncodeCodePoint_eq : utf8EncodeCodePoint c.toNat = String.utf8EncodeChar c := by
  have valid := char_valid c
  have shift (x places : Nat) : x >>> places = x / 2 ^ places := Nat.shiftRight_eq_div_pow x places
  have tail (x : Nat) : 0x80 ||| (x &&& 0x3F) = x % 64 + 0x80 := by
    have low : x &&& 0x3F = x % 64 := Nat.and_two_pow_sub_one_eq_mod x 6
    rw [low]
    exact mark_eq 6 rfl (Nat.mod_lt x (by decide))
  rw [encodeChar_eq, utf8EncodeCodePoint]
  simp only [shift, tail]
  split
  · rfl
  split
  · rw [mark_eq 5 rfl (by omega)]
    rfl
  split
  · rw [mark_eq 4 rfl (by omega)]
    rfl
  rw [mark_eq 3 rfl (by omega)]
  rfl

end Characters

section Sequences
variable {s p : Bytes} {i cp width : Nat}

theorem byteAt_lt (s : Bytes) (k : Nat) : byteAt s k < 256 := UInt8.toNat_lt _

theorem prefix_iff (some_ : p ≠ []) :
    p <+: s.drop i ↔ i + p.length ≤ s.length ∧ ∀ k < p.length, byteAt p k = byteAt s (i + k) := by
  have positive := List.length_pos_iff.mpr some_
  rw [List.prefix_iff_eq_take]
  constructor
  · intro taken
    have fits := congrArg List.length taken
    rw [List.length_take, List.length_drop] at fits
    refine ⟨by omega, ?_⟩
    intro k small
    have same := congrArg (fun l => byteAt l k) taken
    simpa [byteAt, List.getD_eq_getElem?_getD, List.getElem?_take, small] using same
  · rintro ⟨fits, same⟩
    apply List.ext_getElem
    · rw [List.length_take, List.length_drop]
      omega
    · intro k small inside
      have bytes := UInt8.toNat_inj.mp (same k small)
      have within : i + k < s.length := by omega
      simpa [List.getD_eq_getElem?_getD, small, within] using bytes

def Spells (s : Bytes) (i cp width : Nat) : Prop :=
  i + width ≤ s.length ∧
    ((width = 1 ∧ cp < 0x80 ∧ byteAt s i = cp) ∨
    (width = 2 ∧ 0x80 ≤ cp ∧ cp < 0x800 ∧ byteAt s i = cp / 64 + 0xC0 ∧ byteAt s (i + 1) = cp % 64 + 0x80) ∨
    (width = 3 ∧ 0x800 ≤ cp ∧ cp < 0x10000 ∧ (cp < 0xD800 ∨ 0xDFFF < cp) ∧ byteAt s i = cp / 4096 + 0xE0 ∧
      byteAt s (i + 1) = cp / 64 % 64 + 0x80 ∧ byteAt s (i + 2) = cp % 64 + 0x80) ∨
    (width = 4 ∧ 0x10000 ≤ cp ∧ cp < 0x110000 ∧ byteAt s i = cp / 262144 + 0xF0 ∧
      byteAt s (i + 1) = cp / 4096 % 64 + 0x80 ∧ byteAt s (i + 2) = cp / 64 % 64 + 0x80 ∧
      byteAt s (i + 3) = cp % 64 + 0x80))

theorem spells_one (lead : byteAt s i < 0x80) :
    Spells s i cp width ↔ i + 1 ≤ s.length ∧ byteAt s i = cp ∧ 1 = width := by
  constructor
  · rintro ⟨fits, ⟨rfl, -, b0⟩ | ⟨-, -, -, b0, -⟩ | ⟨-, -, -, -, b0, -⟩ | ⟨-, -, -, b0, -⟩⟩
    · exact ⟨fits, b0, rfl⟩
    · omega
    · omega
    · omega
  · rintro ⟨fits, rfl, rfl⟩
    exact ⟨fits, .inl ⟨rfl, lead, rfl⟩⟩

theorem spells_two (lead : 0xC0 ≤ byteAt s i ∧ byteAt s i < 0xE0) {v : Nat}
    (number : byteAt s i % 32 * 64 + byteAt s (i + 1) % 64 = v) :
    Spells s i cp width ↔ (i + 2 ≤ s.length ∧ (0x80 ≤ byteAt s (i + 1) ∧ byteAt s (i + 1) < 0xC0) ∧ 0x80 ≤ v) ∧
      v = cp ∧ 2 = width := by
  constructor
  · rintro ⟨fits, ⟨-, low, b0⟩ | ⟨rfl, low, high, b0, b1⟩ | ⟨-, low, -, -, b0, -⟩ | ⟨-, low, -, b0, -⟩⟩
    · omega
    · have same : v = cp := by omega
      exact ⟨⟨fits, by omega, same ▸ low⟩, same, rfl⟩
    · omega
    · omega
  · rintro ⟨⟨fits, c1, low⟩, rfl, rfl⟩
    refine ⟨fits, .inr (.inl ⟨rfl, low, ?_, ?_, ?_⟩)⟩
    · omega
    · omega
    · omega

theorem digit {x y : Nat} (small : y < 64) : (x * 64 + y) / 64 = x ∧ (x * 64 + y) % 64 = y := by omega

theorem digit_lt : byteAt s i % 64 < 64 := Nat.mod_lt _ (by decide)

theorem spells_three (lead : 0xE0 ≤ byteAt s i ∧ byteAt s i < 0xF0) {v : Nat}
    (number : (byteAt s i % 16 * 64 + byteAt s (i + 1) % 64) * 64 + byteAt s (i + 2) % 64 = v) :
    Spells s i cp width ↔ (i + 3 ≤ s.length ∧ (0x80 ≤ byteAt s (i + 1) ∧ byteAt s (i + 1) < 0xC0) ∧
      (0x80 ≤ byteAt s (i + 2) ∧ byteAt s (i + 2) < 0xC0) ∧ 0x800 ≤ v ∧ (v < 0xD800 ∨ 0xDFFF < v)) ∧
      v = cp ∧ 3 = width := by
  constructor
  · rintro ⟨fits, ⟨-, low, b0⟩ | ⟨-, low, high, b0, -⟩ | ⟨rfl, low, high, scalar, b0, b1, b2⟩ | ⟨-, low, -, b0, -⟩⟩
    · clear number
      omega
    · clear number
      omega
    · have same : v = cp := by
        rw [b0, b1, b2] at number
        clear b0 b1 b2 lead scalar
        omega
      exact ⟨⟨fits, by clear number; omega, by clear number; omega, same ▸ low, same ▸ scalar⟩, same, rfl⟩
    · clear number
      omega
  · rintro ⟨⟨fits, c1, c2, low, scalar⟩, rfl, rfl⟩
    obtain ⟨upper, last⟩ := @digit (byteAt s i % 16 * 64 + byteAt s (i + 1) % 64) _ (@digit_lt s (i + 2))
    obtain ⟨top, middle⟩ := @digit (byteAt s i % 16) _ (@digit_lt s (i + 1))
    rw [number] at upper last
    have high : v < 0x10000 := by
      clear c1 c2 low scalar upper last top middle
      omega
    refine ⟨fits, .inr (.inr (.inl ⟨rfl, low, high, scalar, ?_, ?_, ?_⟩))⟩
    · rw [show 4096 = 64 * 64 from rfl, ← Nat.div_div_eq_div_mul, upper, top]
      clear number c1 c2 upper last top middle
      omega
    · rw [upper, middle]
      clear number c2 upper last top middle
      omega
    · rw [last]
      clear number c1 upper last top middle
      omega

theorem spells_four (lead : 0xF0 ≤ byteAt s i ∧ byteAt s i < 0xF8) {v : Nat}
    (number : ((byteAt s i % 8 * 64 + byteAt s (i + 1) % 64) * 64 + byteAt s (i + 2) % 64) * 64 +
      byteAt s (i + 3) % 64 = v) :
    Spells s i cp width ↔ (i + 4 ≤ s.length ∧ (0x80 ≤ byteAt s (i + 1) ∧ byteAt s (i + 1) < 0xC0) ∧
      (0x80 ≤ byteAt s (i + 2) ∧ byteAt s (i + 2) < 0xC0) ∧ (0x80 ≤ byteAt s (i + 3) ∧ byteAt s (i + 3) < 0xC0) ∧
      0x10000 ≤ v ∧ v < 0x110000) ∧ v = cp ∧ 4 = width := by
  constructor
  · rintro ⟨fits, ⟨-, low, b0⟩ | ⟨-, low, high, b0, -⟩ | ⟨-, low, high, -, b0, -⟩ | ⟨rfl, low, high, b0, b1, b2, b3⟩⟩
    · clear number
      omega
    · clear number
      omega
    · clear number
      omega
    · have same : v = cp := by
        rw [b0, b1, b2, b3] at number
        clear b0 b1 b2 b3 lead
        omega
      exact ⟨⟨fits, by clear number; omega, by clear number; omega, by clear number; omega, same ▸ low, same ▸ high⟩,
        same, rfl⟩
  · rintro ⟨⟨fits, c1, c2, c3, low, high⟩, rfl, rfl⟩
    obtain ⟨upper, last⟩ := @digit ((byteAt s i % 8 * 64 + byteAt s (i + 1) % 64) * 64 + byteAt s (i + 2) % 64) _
      (@digit_lt s (i + 3))
    obtain ⟨higher, third⟩ := @digit (byteAt s i % 8 * 64 + byteAt s (i + 1) % 64) _ (@digit_lt s (i + 2))
    obtain ⟨top, second⟩ := @digit (byteAt s i % 8) _ (@digit_lt s (i + 1))
    rw [number] at upper last
    clear number
    refine ⟨fits, .inr (.inr (.inr ⟨rfl, low, high, ?_, ?_, ?_, ?_⟩))⟩
    · rw [show 262144 = 64 * 64 * 64 from rfl, ← Nat.div_div_eq_div_mul, ← Nat.div_div_eq_div_mul, upper, higher, top]
      clear c1 c2 c3 upper last higher third top second
      omega
    · rw [show 4096 = 64 * 64 from rfl, ← Nat.div_div_eq_div_mul, upper, higher, second]
      clear c2 c3 upper last higher third top second
      omega
    · rw [upper, third]
      clear c1 c3 upper last higher third top second
      omega
    · rw [last]
      clear c1 c2 upper last higher third top second
      omega

theorem not_spells (one : ¬ byteAt s i < 0x80) (two : ¬ byteAt s i &&& 0xE0 = 0xC0)
    (three : ¬ byteAt s i &&& 0xF0 = 0xE0) (four : ¬ byteAt s i &&& 0xF8 = 0xF0) : ¬ Spells s i cp width := by
  rw [lead_two (byteAt_lt s i)] at two
  rw [lead_three (byteAt_lt s i)] at three
  rw [lead_four (byteAt_lt s i)] at four
  rintro ⟨-, ⟨-, low, b0⟩ | ⟨-, low, high, b0, -⟩ | ⟨-, low, high, -, b0, -⟩ | ⟨-, low, high, b0, -⟩⟩
  · omega
  · omega
  · omega
  · omega

theorem sequenceAt_iff : sequenceAt s i = some (cp, width) ↔ Spells s i cp width := by
  have byte := byteAt_lt s i
  unfold sequenceAt
  by_cases one : byteAt s i < 0x80
  · have len : sequenceLength (byteAt s i) = 1 := by rw [sequenceLength, if_pos one]
    rw [spells_one one]
    simp [len, decodeCodePoint, kFloor]
    omega
  by_cases two : byteAt s i &&& 0xE0 = 0xC0
  · have len : sequenceLength (byteAt s i) = 2 := by rw [sequenceLength, if_neg one, if_pos two]
    simp [len, decodeCodePoint, kFloor, group_eq, continuation (byteAt_lt s _), low_five]
    generalize number : byteAt s i % 32 * 64 + byteAt s (i + 1) % 64 = v
    rw [spells_two ((lead_two byte).mp two) number]
    omega
  by_cases three : byteAt s i &&& 0xF0 = 0xE0
  · have len : sequenceLength (byteAt s i) = 3 := by rw [sequenceLength, if_neg one, if_neg two, if_pos three]
    simp [len, decodeCodePoint, kFloor, group_eq, continuation (byteAt_lt s _), low_four, List.range'_succ]
    generalize number : (byteAt s i % 16 * 64 + byteAt s (i + 1) % 64) * 64 + byteAt s (i + 2) % 64 = v
    have small : v < 0x10000 := by omega
    rw [spells_three ((lead_three byte).mp three) number]
    clear number
    omega
  by_cases four : byteAt s i &&& 0xF8 = 0xF0
  · have len : sequenceLength (byteAt s i) = 4 := by
      rw [sequenceLength, if_neg one, if_neg two, if_neg three, if_pos four]
    simp [len, decodeCodePoint, kFloor, group_eq, continuation (byteAt_lt s _), low_three, List.range'_succ]
    generalize number : ((byteAt s i % 8 * 64 + byteAt s (i + 1) % 64) * 64 + byteAt s (i + 2) % 64) * 64 +
      byteAt s (i + 3) % 64 = v
    rw [spells_four ((lead_four byte).mp four) number]
    clear number
    omega
  have len : sequenceLength (byteAt s i) = 0 := by
    rw [sequenceLength, if_neg one, if_neg two, if_neg three, if_neg four]
  simp [len, not_spells one two three four]

theorem decodeCodePointAt_iff (inside : i < s.length) :
    decodeCodePointAt s i = some (cp, width) ↔ Spells s i cp width := by
  have byte := byteAt_lt s i
  unfold decodeCodePointAt
  by_cases one : byteAt s i < 0x80
  · rw [spells_one one]
    simp [one]
    omega
  by_cases two : byteAt s i &&& 0xE0 = 0xC0
  · simp [one, two, group_eq, continuation (byteAt_lt s _), low_five, Option.bind_eq_some_iff]
    generalize number : byteAt s i % 32 * 64 + byteAt s (i + 1) % 64 = v
    rw [spells_two ((lead_two byte).mp two) number]
    omega
  by_cases three : byteAt s i &&& 0xF0 = 0xE0
  · simp [one, two, three, group_eq, continuation (byteAt_lt s _), low_four, List.range'_succ, Option.bind_eq_some_iff]
    generalize number : (byteAt s i % 16 * 64 + byteAt s (i + 1) % 64) * 64 + byteAt s (i + 2) % 64 = v
    have small : v < 0x10000 := by omega
    rw [spells_three ((lead_three byte).mp three) number]
    clear number
    omega
  by_cases four : byteAt s i &&& 0xF8 = 0xF0
  · simp [one, two, three, four, group_eq, continuation (byteAt_lt s _), low_three, List.range'_succ,
      Option.bind_eq_some_iff]
    generalize number : ((byteAt s i % 8 * 64 + byteAt s (i + 1) % 64) * 64 + byteAt s (i + 2) % 64) * 64 +
      byteAt s (i + 3) % 64 = v
    rw [spells_four ((lead_four byte).mp four) number]
    clear number
    omega
  · simp [one, two, three, four, not_spells one two three four]

theorem decodeStep_iff : decodeStep s i = some (cp, width) ↔ Spells s i cp width := by
  have byte := byteAt_lt s i
  unfold decodeStep
  by_cases one : byteAt s i < 0x80
  · rw [spells_one one]
    simp [one]
    omega
  by_cases two : byteAt s i &&& 0xE0 = 0xC0
  · simp [one, two, group_eq, continuation (byteAt_lt s _), low_five, Option.bind_eq_some_iff]
    generalize number : byteAt s i % 32 * 64 + byteAt s (i + 1) % 64 = v
    rw [spells_two ((lead_two byte).mp two) number]
    omega
  by_cases three : byteAt s i &&& 0xF0 = 0xE0
  · simp [one, two, three, group_eq, continuation (byteAt_lt s _), low_four, List.range'_succ, Option.bind_eq_some_iff]
    generalize number : (byteAt s i % 16 * 64 + byteAt s (i + 1) % 64) * 64 + byteAt s (i + 2) % 64 = v
    have small : v < 0x10000 := by omega
    rw [spells_three ((lead_three byte).mp three) number]
    clear number
    omega
  by_cases four : byteAt s i &&& 0xF8 = 0xF0
  · simp [one, two, three, four, group_eq, continuation (byteAt_lt s _), low_three, List.range'_succ,
      Option.bind_eq_some_iff]
    generalize number : ((byteAt s i % 8 * 64 + byteAt s (i + 1) % 64) * 64 + byteAt s (i + 2) % 64) * 64 +
      byteAt s (i + 3) % 64 = v
    rw [spells_four ((lead_four byte).mp four) number]
    clear number
    omega
  · simp [one, two, three, four, not_spells one two three four]

section Encoded
variable {b₀ b₁ b₂ b₃ : UInt8}

theorem agree_one : (∀ j < [b₀].length, byteAt [b₀] j = byteAt s (i + j)) ↔ b₀.toNat = byteAt s i := by
  constructor
  · intro agree
    exact agree 0 (by simp)
  · intro first j inside
    match j, inside with
    | 0, _ => exact first

theorem agree_two : (∀ j < [b₀, b₁].length, byteAt [b₀, b₁] j = byteAt s (i + j)) ↔
    b₀.toNat = byteAt s i ∧ b₁.toNat = byteAt s (i + 1) := by
  constructor
  · intro agree
    exact ⟨agree 0 (by simp), agree 1 (by simp)⟩
  · rintro ⟨first, second⟩ j inside
    match j, inside with
    | 0, _ => exact first
    | 1, _ => exact second

theorem agree_three : (∀ j < [b₀, b₁, b₂].length, byteAt [b₀, b₁, b₂] j = byteAt s (i + j)) ↔
    b₀.toNat = byteAt s i ∧ b₁.toNat = byteAt s (i + 1) ∧ b₂.toNat = byteAt s (i + 2) := by
  constructor
  · intro agree
    exact ⟨agree 0 (by simp), agree 1 (by simp), agree 2 (by simp)⟩
  · rintro ⟨first, second, third⟩ j inside
    match j, inside with
    | 0, _ => exact first
    | 1, _ => exact second
    | 2, _ => exact third

theorem agree_four : (∀ j < [b₀, b₁, b₂, b₃].length, byteAt [b₀, b₁, b₂, b₃] j = byteAt s (i + j)) ↔
    b₀.toNat = byteAt s i ∧ b₁.toNat = byteAt s (i + 1) ∧ b₂.toNat = byteAt s (i + 2) ∧
      b₃.toNat = byteAt s (i + 3) := by
  constructor
  · intro agree
    exact ⟨agree 0 (by simp), agree 1 (by simp), agree 2 (by simp), agree 3 (by simp)⟩
  · rintro ⟨first, second, third, fourth⟩ j inside
    match j, inside with
    | 0, _ => exact first
    | 1, _ => exact second
    | 2, _ => exact third
    | 3, _ => exact fourth

end Encoded

theorem starts_iff (c : Char) :
    String.utf8EncodeChar c <+: s.drop i ↔ Spells s i c.toNat (String.utf8EncodeChar c).length := by
  have valid := char_valid c
  have byte {n : Nat} (small : n < 256) : (UInt8.ofNat n).toNat = n := UInt8.toNat_ofNat_of_lt' small
  rw [prefix_iff String.utf8EncodeChar_ne_nil, encodeChar_eq, Spells]
  refine and_congr_right fun _ => ?_
  split
  case isTrue low =>
    rw [agree_one, byte (by omega)]
    constructor
    · intro b0
      exact .inl ⟨rfl, low, b0.symm⟩
    · rintro (⟨-, -, b0⟩ | ⟨other, -⟩ | ⟨other, -⟩ | ⟨other, -⟩)
      · exact b0.symm
      all_goals cases other
  split
  case isTrue low high =>
    rw [agree_two, byte (by omega), byte (by omega)]
    constructor
    · rintro ⟨b0, b1⟩
      exact .inr (.inl ⟨rfl, Nat.le_of_not_lt low, high, b0.symm, b1.symm⟩)
    · rintro (⟨other, -⟩ | ⟨-, -, -, b0, b1⟩ | ⟨other, -⟩ | ⟨other, -⟩)
      · cases other
      · exact ⟨b0.symm, b1.symm⟩
      all_goals cases other
  split
  case isTrue low high =>
    rw [agree_three, byte (by omega), byte (by omega), byte (by omega)]
    constructor
    · rintro ⟨b0, b1, b2⟩
      exact .inr (.inr (.inl ⟨rfl, Nat.le_of_not_lt low, high, valid.imp_right And.left, b0.symm, b1.symm, b2.symm⟩))
    · rintro (⟨other, -⟩ | ⟨other, -⟩ | ⟨-, -, -, -, b0, b1, b2⟩ | ⟨other, -⟩)
      · cases other
      · cases other
      · exact ⟨b0.symm, b1.symm, b2.symm⟩
      · cases other
  case isFalse low =>
    have high : c.toNat < 0x110000 := by omega
    rw [agree_four, byte (by omega), byte (by omega), byte (by omega), byte (by omega)]
    constructor
    · rintro ⟨b0, b1, b2, b3⟩
      exact .inr (.inr (.inr ⟨rfl, Nat.le_of_not_lt low, high, b0.symm, b1.symm, b2.symm, b3.symm⟩))
    · rintro (⟨other, -⟩ | ⟨other, -⟩ | ⟨other, -⟩ | ⟨-, -, -, b0, b1, b2, b3⟩)
      · cases other
      · cases other
      · cases other
      · exact ⟨b0.symm, b1.symm, b2.symm, b3.symm⟩

def Starts (s : Bytes) (i cp width : Nat) : Prop :=
  ∃ c : Char, c.toNat = cp ∧ (String.utf8EncodeChar c).length = width ∧ String.utf8EncodeChar c <+: s.drop i

theorem spells_iff : Spells s i cp width ↔ Starts s i cp width := by
  constructor
  · intro spelled
    have valid : cp.isValidChar := by
      change cp < 0xD800 ∨ 0xDFFF < cp ∧ cp < 0x110000
      unfold Spells at spelled
      omega
    have number : (Char.ofNatAux cp valid).toNat = cp := rfl
    have size : (String.utf8EncodeChar (Char.ofNatAux cp valid)).length = width := by
      rw [encodeChar_eq, number]
      unfold Spells at spelled
      split
      · simp only [List.length_cons, List.length_nil]
        omega
      split
      · simp only [List.length_cons, List.length_nil]
        omega
      split
      · simp only [List.length_cons, List.length_nil]
        omega
      · simp only [List.length_cons, List.length_nil]
        omega
    refine ⟨_, number, size, (starts_iff _).mpr ?_⟩
    rwa [number, size]
  · rintro ⟨c, rfl, rfl, starts⟩
    exact (starts_iff c).mp starts

theorem charCode : PrefixCode String.utf8EncodeChar where
  ne_nil _ := String.utf8EncodeChar_ne_nil
  unique := by
    intro a b s first second
    have left := sequenceAt_iff.mpr ((@starts_iff s 0 a).mp first)
    have right := sequenceAt_iff.mpr ((@starts_iff s 0 b).mp second)
    have same := left.symm.trans right
    simp only [Option.some.injEq, Prod.mk.injEq] at same
    exact Char.toNat_inj.mp same.1

end Sequences

section Scans
variable {s : Bytes} {pos fin rounds : Nat} {cps chars : List Nat}

inductive Scan (s : Bytes) : Nat → List Nat → Nat → Prop where
  | stop {pos : Nat} : pos ≤ s.length → (∀ cp width, ¬ Spells s pos cp width) → Scan s pos [] pos
  | char {pos cp width fin : Nat} {cps : List Nat} : Spells s pos cp width → Scan s (pos + width) cps fin →
      Scan s pos (cp :: cps) fin

theorem scan_of_text {done cs : List Char} {rest : Bytes} (stops : Blocked String.utf8EncodeChar rest)
    (text : s = done.flatMap String.utf8EncodeChar ++ (cs.flatMap String.utf8EncodeChar ++ rest)) :
    Scan s (done.flatMap String.utf8EncodeChar).length (cs.map Char.toNat)
      ((done ++ cs).flatMap String.utf8EncodeChar).length := by
  induction cs generalizing done with
  | nil =>
    rw [List.append_nil]
    refine .stop ?_ ?_
    · rw [text, List.length_append]
      exact Nat.le_add_right _ _
    · intro cp width spelled
      obtain ⟨c, -, -, starts⟩ := spells_iff.mp spelled
      rw [text, List.drop_left] at starts
      exact stops c starts
  | cons c cs ih =>
    have starts : String.utf8EncodeChar c <+: s.drop (done.flatMap String.utf8EncodeChar).length := by
      rw [text, List.drop_left, List.flatMap_cons, List.append_assoc]
      exact List.prefix_append _ _
    have more := @ih (done ++ [c]) (by simp [text])
    rw [List.append_assoc] at more
    refine .char ((starts_iff c).mp starts) ?_
    simpa using more

theorem Spells.fits {cp width : Nat} (spelled : Spells s pos cp width) : 0 < width ∧ pos + width ≤ s.length := by
  unfold Spells at spelled
  omega

theorem Scan.le (scan : Scan s pos cps fin) : pos + cps.length ≤ fin ∧ fin ≤ s.length := by
  induction scan with
  | stop inside => exact ⟨Nat.le_refl _, inside⟩
  | char spelled _ ih =>
    have some_ := spelled.fits
    rw [List.length_cons]
    omega

theorem eq_none {found : Option (Nat × Nat)} (spells : ∀ cp width, found = some (cp, width) ↔ Spells s pos cp width)
    (nothing : ∀ cp width, ¬ Spells s pos cp width) : found = none := by
  cases found with
  | none => rfl
  | some found => exact absurd ((spells found.1 found.2).mp rfl) (nothing _ _)

theorem Scan.firstInvalid (scan : Scan s pos cps fin) (enough : cps.length < rounds) :
    firstInvalidFrom s rounds pos = some fin := by
  obtain ⟨rounds, rfl⟩ := Nat.exists_eq_add_of_le' (Nat.one_le_of_lt enough)
  induction scan generalizing rounds with
  | @stop pos inside nothing =>
    rw [firstInvalidFrom, eq_none (fun _ _ => sequenceAt_iff) nothing]
    split
    · rw [Nat.le_antisymm inside ‹_›]
    · rfl
  | char spelled _ ih =>
    have inside := spelled.fits
    rw [List.length_cons] at enough
    obtain ⟨rounds, rfl⟩ := Nat.exists_eq_add_of_le' (Nat.one_le_of_lt (Nat.lt_of_add_lt_add_right enough))
    rw [firstInvalidFrom, if_neg (by omega), sequenceAt_iff.mpr spelled]
    exact ih rounds (Nat.lt_of_add_lt_add_right enough)

theorem int32_add (x y : Nat) : int32.add x y = if x + y < 2 ^ 31 then some ((x + y : Nat) : Int) else none := by
  have holds_iff : int32.Holds (x + y : Nat) ↔ x + y < 2 ^ 31 := by
    simp [IntType.Holds, IntType.least, IntType.span, int32]
    omega
  have promoted : int32.promote = int32 := by decide
  rw [IntType.add, ← Int.natCast_add]
  by_cases fits : x + y < 2 ^ 31
  · have holds := holds_iff.mpr fits
    rw [if_pos fits, IntType.assign_eq (fun _ => promoted ▸ holds), IntType.convert_of_holds holds]
  · rw [if_neg fits, IntType.assign_none rfl (promoted ▸ fun holds => fits (holds_iff.mp holds))]

theorem Scan.count {count : Nat} (scan : Scan s pos cps fin) (enough : cps.length < rounds)
    (small : count + cps.length < 2 ^ 31) : charCountFrom s rounds pos count =
      some (if fin = s.length then .counted (count + cps.length : Nat) else .raised fin) := by
  obtain ⟨rounds, rfl⟩ := Nat.exists_eq_add_of_le' (Nat.one_le_of_lt enough)
  induction scan generalizing rounds count with
  | @stop pos inside nothing =>
    rw [charCountFrom]
    split
    · rw [if_pos (Nat.le_antisymm inside ‹_›)]
      rfl
    · rw [eq_none (fun _ _ => decodeCodePointAt_iff (Nat.lt_of_not_le ‹_›)) nothing, if_neg (by omega)]
  | @char pos cp width fin cps spelled _ ih =>
    have inside := spelled.fits
    rw [List.length_cons] at enough small
    obtain ⟨rounds, rfl⟩ := Nat.exists_eq_add_of_le' (Nat.one_le_of_lt (Nat.lt_of_add_lt_add_right enough))
    have next : int32.add count 1 = some ((count + 1 : Nat) : Int) := by
      rw [← Int.natCast_one, int32_add, if_pos (by omega)]
    rw [charCountFrom, if_neg (by omega), (decodeCodePointAt_iff (by omega)).mpr spelled]
    simp only [next, Option.elim_some]
    rw [ih (by omega) rounds (Nat.lt_of_add_lt_add_right enough), List.length_cons, Nat.add_assoc, Nat.add_comm 1]

theorem step_of_spells {cp width : Nat} (spelled : Spells s pos cp width) : opStrForeachStep s pos =
    if pos + width < 2 ^ 31 then .more cp (pos + width : Nat) else .undefined := by
  have inside := spelled.fits
  rw [opStrForeachStep, if_neg (by omega), Int.toNat_natCast, decodeStep_iff.mpr spelled]
  change (int32.add pos width).elim Step.undefined (Step.more cp) = _
  rw [int32_add]
  by_cases small : pos + width < 2 ^ 31
  · rw [if_pos small, if_pos small, Option.elim_some]
  · rw [if_neg small, if_neg small, Option.elim_none]

theorem step_of_stop (inside : pos ≤ s.length) (nothing : ∀ cp width, ¬ Spells s pos cp width) :
    opStrForeachStep s pos = if pos = s.length then .exit else .raised := by
  rw [opStrForeachStep, Int.toNat_natCast, eq_none (fun _ _ => decodeStep_iff) nothing]
  by_cases finished : pos = s.length
  · rw [if_pos finished, if_pos (by omega)]
  · rw [if_neg finished, if_neg (by omega)]

theorem Scan.iterates (scan : Scan s pos cps fin) (enough : cps.length < rounds) (small : fin < 2 ^ 31) :
    foreachFrom s rounds pos chars = some (chars ++ cps, if fin = s.length then .exited else .raised fin) := by
  obtain ⟨rounds, rfl⟩ := Nat.exists_eq_add_of_le' (Nat.one_le_of_lt enough)
  induction scan generalizing rounds chars with
  | @stop pos inside nothing =>
    rw [foreachFrom, step_of_stop inside nothing, List.append_nil]
    by_cases finished : pos = s.length
    · rw [if_pos finished, if_pos finished]
    · rw [if_neg finished, if_neg finished]
  | @char pos cp width fin cps spelled more ih =>
    have bound := more.le
    rw [List.length_cons] at enough
    obtain ⟨rounds, rfl⟩ := Nat.exists_eq_add_of_le' (Nat.one_le_of_lt (Nat.lt_of_add_lt_add_right enough))
    rw [foreachFrom, step_of_spells spelled, if_pos (by omega)]
    simp only [ih small rounds (Nat.lt_of_add_lt_add_right enough), List.append_assoc, List.singleton_append]

theorem Scan.overflows (scan : Scan s pos cps fin) (enough : cps.length < rounds) (low : pos < 2 ^ 31)
    (long : 2 ^ 31 ≤ fin) : ∃ some_, foreachFrom s rounds pos chars = some (some_, .undefined) := by
  obtain ⟨rounds, rfl⟩ := Nat.exists_eq_add_of_le' (Nat.one_le_of_lt enough)
  induction scan generalizing rounds chars with
  | stop => omega
  | @char pos cp width fin cps spelled more ih =>
    rw [List.length_cons] at enough
    obtain ⟨rounds, rfl⟩ := Nat.exists_eq_add_of_le' (Nat.one_le_of_lt (Nat.lt_of_add_lt_add_right enough))
    rw [foreachFrom, step_of_spells spelled]
    by_cases fits : pos + width < 2 ^ 31
    · rw [if_pos fits]
      exact ih fits long rounds (Nat.lt_of_add_lt_add_right enough)
    · rw [if_neg fits]
      exact ⟨chars, rfl⟩

end Scans

def WellFormed (s : Bytes) : Prop := ∃ cs : List Char, s = cs.flatMap String.utf8EncodeChar

def Agree (s : Bytes) : Prop :=
  (∀ i < s.length, ∀ cp width, (sequenceAt s i = some (cp, width) ↔ Starts s i cp width) ∧
    (decodeCodePointAt s i = some (cp, width) ↔ Starts s i cp width) ∧
    (decodeStep s i = some (cp, width) ↔ Starts s i cp width)) ∧
  (∀ i < s.length, ∀ cp, charAt s i = .ok cp ↔ ∃ width, Starts s i cp width) ∧
  ∃ (cs : List Char) (fin : Nat), (cs.map Char.toNat).flatMap utf8EncodeCodePoint = s.take fin ∧ fin ≤ s.length ∧
    (∀ cp width, ¬ Starts s fin cp width) ∧ (fin = s.length ↔ WellFormed s) ∧
    ∀ rounds, s.length < rounds →
      utf8FirstInvalid s rounds = some fin ∧ utf8Valid s rounds = some (fin == s.length) ∧
      stringForeach s rounds = some (cs.map Char.toNat, if fin = s.length then .exited else .raised fin) ∧
      charCount s rounds = some (if fin = s.length then .counted cs.length else .raised fin)

def ShortPrefixes (s : Bytes) : Prop :=
  ∀ cs : List Char, cs.flatMap String.utf8EncodeChar <+: s → (cs.flatMap String.utf8EncodeChar).length < 2 ^ 31

section Agreement
variable {s : Bytes}

theorem encode_map (cs : List Char) :
    (cs.map Char.toNat).flatMap utf8EncodeCodePoint = cs.flatMap String.utf8EncodeChar := by
  rw [List.flatMap_map]
  exact List.flatMap_congr fun c _ => utf8EncodeCodePoint_eq c

theorem charAt_iff {i cp : Nat} (inside : i < s.length) : charAt s i = .ok cp ↔ ∃ width, Starts s i cp width := by
  rw [charAt, if_neg (by omega), Int.toNat_natCast]
  constructor
  · intro found
    cases decoded : decodeCodePointAt s i with
    | none =>
      rw [decoded] at found
      cases found
    | some sequence =>
      rw [decoded] at found
      cases found
      exact ⟨sequence.2, spells_iff.mp ((decodeCodePointAt_iff inside).mp decoded)⟩
  · rintro ⟨width, starts⟩
    rw [(decodeCodePointAt_iff inside).mpr (spells_iff.mpr starts)]

theorem fin_iff {cs : List Char} {rest : Bytes} (stops : Blocked String.utf8EncodeChar rest)
    (text : s = cs.flatMap String.utf8EncodeChar ++ rest) :
    (cs.flatMap String.utf8EncodeChar).length = s.length ↔ WellFormed s := by
  have whole := @rest_eq_nil_iff _ _ _ _ cs charCode stops
  rw [← text] at whole
  rw [WellFormed, ← whole, text, List.length_append, ← List.length_eq_zero_iff]
  omega

theorem short_agree (short : ShortPrefixes s) : Agree s := by
  refine ⟨?_, fun i inside cp => charAt_iff inside, ?_⟩
  · intro i inside cp width
    exact ⟨sequenceAt_iff.trans spells_iff, (decodeCodePointAt_iff inside).trans spells_iff,
      decodeStep_iff.trans spells_iff⟩
  obtain ⟨cs, rest, text, stops⟩ := exists_scan charCode s
  have scan := @scan_of_text s [] cs rest stops text
  rw [List.nil_append, List.flatMap_nil, List.length_nil] at scan
  have small := short cs (text ▸ List.prefix_append _ _)
  refine ⟨cs, _, ?_, scan.le.2, ?_, fin_iff stops text, ?_⟩
  · rw [encode_map, text, List.take_left]
  · rintro cp width ⟨c, -, -, starts⟩
    rw [text, List.drop_left] at starts
    exact stops c starts
  · intro rounds enough
    obtain ⟨bound, inside⟩ := scan.le
    have rounds_enough : (cs.map Char.toNat).length < rounds := by omega
    have counted := @Scan.count _ _ _ rounds _ 0 scan rounds_enough (by omega)
    rw [Nat.zero_add, List.length_map] at counted
    refine ⟨scan.firstInvalid rounds_enough, ?_, scan.iterates rounds_enough small, counted⟩
    rw [utf8Valid, utf8FirstInvalid, scan.firstInvalid rounds_enough, Option.map_some]

theorem long_disagrees (cs : List Char) (starts : cs.flatMap String.utf8EncodeChar <+: s)
    (long : 2 ^ 31 ≤ (cs.flatMap String.utf8EncodeChar).length) : ¬ Agree s := by
  rintro ⟨-, -, chars, fin, -, -, -, -, runs⟩
  obtain ⟨-, -, iterates, -⟩ := runs (s.length + 1) (Nat.lt_succ_self _)
  obtain ⟨all, rest, text, stops⟩ := exists_scan charCode s
  have scan := @scan_of_text s [] all rest stops text
  rw [List.nil_append, List.flatMap_nil, List.length_nil] at scan
  obtain ⟨more, rfl⟩ := prefix_of_scan charCode stops (text ▸ starts)
  rw [List.flatMap_append, List.length_append] at scan
  obtain ⟨bound, inside⟩ := scan.le
  obtain ⟨some_, undefined_⟩ := @Scan.overflows _ _ _ (s.length + 1) _ [] scan (by omega) (by decide) (by omega)
  have ended := iterates.symm.trans undefined_
  simp only [Option.some.injEq, Prod.mk.injEq] at ended
  have ended := ended.2
  split at ended
  · cases ended
  · cases ended

end Agreement

/-- The decoders agree exactly on the texts whose well-formed prefixes have less than 2^31 bytes. -/
theorem agree_iff (s : Bytes) : Agree s ↔ ShortPrefixes s := by
  constructor
  · intro agree cs starts
    by_contra long
    exact long_disagrees cs starts (Nat.le_of_not_lt long) agree
  · exact short_agree

theorem flatMap_replicate (n : Nat) :
    (List.replicate n 'a').flatMap String.utf8EncodeChar = List.replicate n (97 : UInt8) := by
  induction n with
  | zero => rfl
  | succ n ih =>
    rw [List.replicate_succ, List.flatMap_cons, ih, List.replicate_succ]
    rfl

theorem two_gigabytes_disagree : ¬ Agree (List.replicate (2 ^ 31) 97) := by
  apply long_disagrees (List.replicate (2 ^ 31) 'a')
  · exact (flatMap_replicate (2 ^ 31)).symm ▸ List.prefix_refl _
  · rw [flatMap_replicate, List.length_replicate]

end NLang.Vm.CodePoints
