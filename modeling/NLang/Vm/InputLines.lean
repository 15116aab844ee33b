import NLang.Vm.CodePoints

/-!
# Program input

`InputLineSource.cpp` on a POSIX host, and the cursor of `TokenView.cpp` over any line source. What `read` will answer is part
of the state: the pieces of the input, none of them empty, and then the end. So is what the next probes of the descriptor
find.
-/

namespace NLang.Vm.InputLines
open NLang.Library.Words NLang.Vm.CodePoints

abbrev Piece := { got : Bytes // got ≠ [] }

/-- `stream` is `none` once `m_streamEof` is set. A poll is `true` where `StreamHasMore` goes on to `FillBuffer`. -/
structure InputLineSource where
  buffer : Bytes
  bufferPos : Nat
  inside : bufferPos ≤ buffer.length
  stream : Option (List Piece)
  onInputWait : Bool
  polls : List Bool

def newline : UInt8 := 10

def popCr (line : Bytes) : Bytes := if line.getLast? = some 13 then line.dropLast else line

namespace InputLineSource

def ahead (s : InputLineSource) : Bytes := s.buffer.drop s.bufferPos

theorem inside_append (s : InputLineSource) (got : Bytes) : s.bufferPos ≤ (s.buffer ++ got).length := by
  rw [List.length_append]
  exact s.inside.trans (Nat.le_add_right _ _)

def fillBuffer (s : InputLineSource) : Bool × InputLineSource :=
  match s.stream with
  | none => (false, s)
  | some [] => (false, { s with stream := none })
  | some (got :: later) =>
    (true, { s with buffer := s.buffer ++ got.1, stream := some later, inside := s.inside_append got.1 })

def streamHasMore (s : InputLineSource) : Bool × InputLineSource :=
  let next := { s with polls := s.polls.tail }
  if s.polls.headD false then next.fillBuffer else (false, next)

def hasMore (s : InputLineSource) : Bool × InputLineSource :=
  if s.bufferPos < s.buffer.length then (true, s)
  else if s.stream.isNone then (false, s)
  else s.streamHasMore

/-- The probe of `PullLine` before a read that may block. -/
def waitProbe (s : InputLineSource) : InputLineSource := if s.onInputWait then s.hasMore.2 else s

/-- The consumed prefix is dropped. -/
def erase (s : InputLineSource) : InputLineSource :=
  { s with buffer := s.ahead, bufferPos := 0, inside := Nat.zero_le _ }

def clear (s : InputLineSource) : InputLineSource :=
  { s with buffer := [], bufferPos := 0, inside := Nat.zero_le _ }

/-- The bytes before the first newline of the buffer. -/
def lineAhead (s : InputLineSource) : Bytes := s.ahead.takeWhile (· != newline)

def reads (s : InputLineSource) : Nat := (s.stream.map fun later => later.length + 1).getD 0

/-- The input that no line has been made of. -/
def pending (s : InputLineSource) : Bytes := s.ahead ++ ((s.stream.getD []).map (·.1)).flatten

section Steps
variable {s filled : InputLineSource}

theorem ahead_split (found : newline ∈ s.ahead) :
    ∃ rest, s.ahead = s.lineAhead ++ newline :: rest ∧ newline ∉ s.lineAhead := by
  obtain ⟨line, rest, split, absent⟩ := List.eq_append_cons_of_mem found
  have plain : ∀ b ∈ line, (b != newline) = true := by
    intro b mem
    rw [bne_iff_ne]
    rintro rfl
    exact absent mem
  have same : s.lineAhead = line := by
    rw [lineAhead, split, List.takeWhile_append_of_pos plain, List.takeWhile_cons_of_neg (by simp), List.append_nil]
  exact ⟨rest, same ▸ split, same ▸ absent⟩

theorem inside_skip (found : newline ∈ s.ahead) : s.bufferPos + (s.lineAhead.length + 1) ≤ s.buffer.length := by
  obtain ⟨rest, split, -⟩ := ahead_split found
  have size := congrArg List.length split
  have before := s.inside
  simp only [ahead, List.length_drop, List.length_append, List.length_cons] at size
  omega

/-- The line at the front of the buffer and its newline are consumed. -/
def skipLine (s : InputLineSource) (found : newline ∈ s.ahead) : InputLineSource :=
  { s with bufferPos := s.bufferPos + (s.lineAhead.length + 1), inside := inside_skip found }

theorem fillBuffer_pending : s.fillBuffer.2.pending = s.pending := by
  unfold fillBuffer
  split
  · rfl
  · next ended => simp [pending, ahead, ended]
  · next got later more => simp [pending, ahead, more, List.drop_append_of_le_length s.inside]

theorem fillBuffer_reads (more : s.fillBuffer.1 = true) : s.fillBuffer.2.reads + 1 = s.reads := by
  unfold fillBuffer at more ⊢
  split at more
  · cases more
  · cases more
  · next got later stream => simp [reads, stream]

theorem fillBuffer_reads_le : s.fillBuffer.2.reads ≤ s.reads := by
  unfold fillBuffer
  split
  · exact Nat.le_refl _
  · next ended => simp [reads, ended]
  · next got later more => simp [reads, more]

theorem fillBuffer_pos : s.fillBuffer.2.bufferPos = s.bufferPos := by
  unfold fillBuffer
  split
  · rfl
  · rfl
  · rfl

theorem fillBuffer_ended (more : ¬ s.fillBuffer.1 = true) :
    s.fillBuffer.2.stream = none ∧ s.fillBuffer.2.buffer = s.buffer := by
  unfold fillBuffer at more ⊢
  split
  · next ended => exact ⟨ended, rfl⟩
  · exact ⟨rfl, rfl⟩
  · next stream => simp [stream] at more

theorem hasMore_cases : s.hasMore.2 = s ∨ ∃ polls, s.hasMore.2 = { s with polls } ∨
    s.hasMore = fillBuffer { s with polls } := by
  unfold hasMore streamHasMore
  split
  · exact .inl rfl
  split
  · exact .inl rfl
  · refine .inr ⟨s.polls.tail, ?_⟩
    simp only
    split
    · exact .inr rfl
    · exact .inl rfl

theorem hasMore_keeps : s.hasMore.2.pending = s.pending ∧ s.hasMore.2.reads ≤ s.reads ∧
    s.hasMore.2.bufferPos = s.bufferPos := by
  obtain same | ⟨polls, same | filled⟩ := @hasMore_cases s
  · rw [same]
    exact ⟨rfl, Nat.le_refl _, rfl⟩
  · rw [same]
    exact ⟨rfl, Nat.le_refl _, rfl⟩
  · rw [filled]
    exact ⟨fillBuffer_pending, fillBuffer_reads_le, fillBuffer_pos⟩

theorem waitProbe_keeps : s.waitProbe.pending = s.pending ∧ s.waitProbe.reads ≤ s.reads ∧
    s.waitProbe.bufferPos = s.bufferPos := by
  unfold waitProbe
  split
  · exact hasMore_keeps
  · exact ⟨rfl, Nat.le_refl _, rfl⟩

/-- What `PullLine` has looked at when it finds no newline: the buffer starts at 0 again. -/
def probed (s : InputLineSource) : InputLineSource := s.erase.waitProbe

theorem probed_keeps : s.probed.pending = s.pending ∧ s.probed.reads ≤ s.reads ∧ s.probed.ahead = s.probed.buffer := by
  obtain ⟨same, fewer, start⟩ := @waitProbe_keeps s.erase
  refine ⟨same, fewer, ?_⟩
  rw [ahead, probed, start]
  rfl

/-- A round of `PullLine` reads a piece, or has read the newline that ends the line. -/
def rounds (s : InputLineSource) : Nat := 2 * s.reads + if newline ∈ s.ahead then 0 else 1

theorem rounds_probed (missing : newline ∉ s.ahead) (found : newline ∈ s.probed.buffer) : s.probed.rounds < s.rounds := by
  obtain ⟨-, fewer, start⟩ := @probed_keeps s
  rw [rounds, rounds, start, if_pos found, if_neg missing]
  omega

theorem rounds_filled (missing : newline ∉ s.ahead) (more : s.probed.fillBuffer.1 = true) :
    s.probed.fillBuffer.2.rounds < s.rounds := by
  obtain ⟨-, fewer, -⟩ := @probed_keeps s
  have one := fillBuffer_reads more
  rw [rounds, rounds, if_neg missing]
  split
  · omega
  · omega

/-- Nothing is the answer `Eof`. -/
def pullLine (s : InputLineSource) : Option Bytes × InputLineSource :=
  if found : newline ∈ s.ahead then (some (popCr s.lineAhead), s.skipLine found)
  -- the probe before a read that may block has read the newline itself
  else if _again : s.onInputWait = true ∧ newline ∈ s.probed.buffer then s.probed.pullLine
  else if _more : s.probed.fillBuffer.1 = true then s.probed.fillBuffer.2.pullLine
  else
    let ended := s.probed.fillBuffer.2
    if ended.buffer = [] then (none, ended) else (some (popCr ended.buffer), ended.clear)
termination_by s.rounds
decreasing_by
  · exact rounds_probed found _again.2
  · exact rounds_filled found _more

end Steps
end InputLineSource

/-- The text cut behind its newlines; what follows the last of them is a line where it is not empty. -/
def linesOf (text : Bytes) : List Bytes :=
  let parts := text.splitOn newline
  (if parts.getLast? = some [] then parts.dropLast else parts).map popCr

theorem linesOf_cons {line rest : Bytes} (absent : newline ∉ line) :
    linesOf (line ++ newline :: rest) = popCr line :: linesOf rest := by
  unfold linesOf
  have some_ := List.splitOn_ne_nil newline rest
  rw [List.splitOn_append_cons_self_of_not_mem absent]
  simp only [List.getLast?_cons, List.dropLast_cons_of_ne_nil some_]
  obtain ⟨last, is_last⟩ := Option.ne_none_iff_exists'.mp (mt List.getLast?_eq_none_iff.mp some_)
  simp only [is_last, Option.getD_some]
  split
  · rfl
  · rfl

theorem linesOf_last {line : Bytes} (absent : newline ∉ line) : linesOf line = if line = [] then [] else [popCr line] := by
  unfold linesOf
  rw [List.splitOn_eq_singleton absent]
  by_cases none_ : line = []
  · simp [none_]
  · simp [none_]

namespace InputLineSource
variable {s : InputLineSource}

theorem skipLine_pending (found : newline ∈ s.ahead) : s.pending = s.lineAhead ++ newline :: (s.skipLine found).pending := by
  obtain ⟨rest, split, -⟩ := ahead_split found
  have after : (s.skipLine found).ahead = rest := by
    rw [ahead, skipLine, ← List.drop_drop, ← ahead, split, List.drop_append]
    simp
  rw [pending, pending, after, split, List.append_assoc]
  rfl

theorem pending_ended (missing : newline ∉ s.ahead) (again : ¬ (s.onInputWait = true ∧ newline ∈ s.probed.buffer))
    (more : ¬ s.probed.fillBuffer.1 = true) :
    s.pending = s.probed.fillBuffer.2.buffer ∧ newline ∉ s.probed.fillBuffer.2.buffer := by
  obtain ⟨same, -, start⟩ := @probed_keeps s
  obtain ⟨ended, buffer⟩ := fillBuffer_ended more
  constructor
  · rw [← same, ← fillBuffer_pending, pending, ended, ahead, fillBuffer_pos, buffer, ← ahead, start]
    exact List.append_nil _
  · rw [buffer]
    intro found
    by_cases hook : s.onInputWait = true
    · exact again ⟨hook, found⟩
    · have kept : s.probed = s.erase := if_neg hook
      rw [kept] at found
      exact missing found

/-- However the input comes in pieces, and whatever the probes find. -/
theorem pullLine_lines (s : InputLineSource) :
    s.pullLine.1 = (linesOf s.pending).head? ∧ linesOf s.pullLine.2.pending = (linesOf s.pending).tail := by
  fun_induction pullLine s with
  | case1 s found =>
    obtain ⟨rest, -, absent⟩ := ahead_split found
    rw [skipLine_pending found, linesOf_cons absent]
    exact ⟨rfl, rfl⟩
  | case2 s missing again ih => rwa [probed_keeps.1] at ih
  | case3 s missing again more ih => rwa [fillBuffer_pending, probed_keeps.1] at ih
  | case4 s missing again more ended nothing =>
    obtain ⟨text, absent⟩ := pending_ended missing again more
    have ended_pending : ended.pending = s.pending := fillBuffer_pending.trans probed_keeps.1
    rw [ended_pending, text, linesOf_last absent, if_pos nothing]
    exact ⟨rfl, rfl⟩
  | case5 s missing again more ended left =>
    obtain ⟨text, absent⟩ := pending_ended missing again more
    rw [text, linesOf_last absent, if_neg left]
    refine ⟨rfl, ?_⟩
    have closed : ended.clear.stream = none := (fillBuffer_ended more).1
    have nothing : ended.clear.pending = [] := by
      rw [pending, closed]
      rfl
    rw [nothing]
    rfl

end InputLineSource

/-! ## The cursor -/

inductive NoLine where | eof | noChannel

def deliver (lines : List Bytes) (last : NoLine) : Except NoLine Bytes :=
  match lines with
  | [] => .error last
  | line :: _ => .ok line

/-- The lines that a source is still to deliver and its answer after them. A probe changes neither. -/
structure LineSource (σ : Type) where
  pullLine : σ → Except NoLine Bytes × σ
  hasMore : σ → Bool × σ
  lines : σ → List Bytes
  last : σ → NoLine
  pulled : ∀ s, (pullLine s).1 = deliver (lines s) (last s) ∧ lines (pullLine s).2 = (lines s).tail ∧
    last (pullLine s).2 = last s
  probed : ∀ s, lines (hasMore s).2 = lines s ∧ last (hasMore s).2 = last s

def InputLineSource.pull (s : InputLineSource) : Except NoLine Bytes × InputLineSource :=
  (match s.pullLine.1 with
    | some line => .ok line
    | none => .error .eof, s.pullLine.2)

theorem InputLineSource.pull_lines (s : InputLineSource) :
    s.pull.1 = deliver (linesOf s.pending) .eof ∧ linesOf s.pull.2.pending = (linesOf s.pending).tail ∧
      NoLine.eof = NoLine.eof := by
  obtain ⟨line, rest⟩ := pullLine_lines s
  refine ⟨?_, rest, rfl⟩
  rw [pull, line]
  cases linesOf s.pending with
  | nil => rfl
  | cons line later => rfl

theorem InputLineSource.probe_lines (s : InputLineSource) :
    linesOf s.hasMore.2.pending = linesOf s.pending ∧ NoLine.eof = NoLine.eof :=
  ⟨congrArg linesOf hasMore_keeps.1, rfl⟩

def inputLines : LineSource InputLineSource where
  pullLine := InputLineSource.pull
  hasMore := InputLineSource.hasMore
  lines s := linesOf s.pending
  last _ := .eof
  pulled := InputLineSource.pull_lines
  probed := InputLineSource.probe_lines

/-- A status with what goes with it. -/
inductive Answer where
  | text (bytes : Bytes)
  | scalar (value : Nat)
  | invalidUtf8
  | ended (status : NoLine)
  | more (told : Bool)

structure TokenView (σ : Type) where
  source : σ
  line : Bytes := []
  pos : Nat := 0
  lineLive : Bool := false

def isSpaceByte (c : UInt8) : Bool := c == 32 || c == 9 || c == 13 || c == 10

/-- The bytes that follow the lead, and its own bits. -/
def sequenceNeed (lead : Nat) : Option (Nat × Nat) :=
  if lead &&& 0xE0 = 0xC0 then some (1, lead &&& 0x1F)
  else if lead &&& 0xF0 = 0xE0 then some (2, lead &&& 0x0F)
  else if lead &&& 0xF8 = 0xF0 then some (3, lead &&& 0x07)
  else none

def decodeUtf8Scalar (s : Bytes) (pos : Nat) : Option (Nat × Nat) := do
  let lead := byteAt s pos
  if lead < 0x80 then some (lead, 1) else
  let (need, v) ← sequenceNeed lead
  let v ← (List.range' 1 need).foldlM (fun v i =>
    if s.length ≤ pos + i then none
    else if byteAt s (pos + i) &&& 0xC0 ≠ 0x80 then none
    else some ((v <<< 6) ||| (byteAt s (pos + i) &&& 0x3F))) v
  let kMinForNeed := [0x80, 0x800, 0x10000]
  if v < kMinForNeed.getD (need - 1) 0 then none
  else if 0x10FFFF < v then none
  else if 0xD800 ≤ v ∧ v ≤ 0xDFFF then none
  else some (v, need + 1)

namespace TokenView
variable {σ : Type} (S : LineSource σ)

def rest (v : TokenView σ) : Bytes := v.line.drop v.pos

def readLine (v : TokenView σ) : Answer × TokenView σ :=
  if v.lineLive then (.text v.rest, { v with lineLive := false })
  else match S.pullLine v.source with
    | (.error status, source) => (.ended status, { v with source })
    | (.ok next, source) => (.text next, { source, line := next })

/-- The inner loop of `SkipWhitespace`. -/
def skipSpaces (v : TokenView σ) : TokenView σ :=
  if v.lineLive then { v with pos := v.pos + (v.rest.takeWhile isSpaceByte).length } else v

theorem fewer_lines {source source' : σ} {next : Bytes} (pull : S.pullLine source = (.ok next, source')) :
    (S.lines source').length < (S.lines source).length := by
  have pulled := S.pulled source
  rw [pull] at pulled
  obtain ⟨line, later, -⟩ := pulled
  cases lines : S.lines source with
  | nil =>
    rw [lines] at line
    cases line
  | cons head tail =>
    rw [later, lines]
    exact Nat.lt_succ_self _

/-- Nothing is the answer `Ok`. -/
def skipWhitespace (v : TokenView σ) : Option NoLine × TokenView σ :=
  if v.skipSpaces.lineLive = true ∧ v.skipSpaces.pos < v.skipSpaces.line.length then (none, v.skipSpaces)
  else match _pull : S.pullLine v.skipSpaces.source with
    | (.error status, source) => (some status, { v.skipSpaces with source })
    | (.ok next, source) => skipWhitespace { source, line := next, lineLive := true }
termination_by (S.lines v.source).length
decreasing_by
  have same : v.skipSpaces.source = v.source := by
    unfold skipSpaces
    split
    · rfl
    · rfl
  exact same ▸ fewer_lines S _pull

def readToken (v : TokenView σ) : Answer × TokenView σ :=
  match v.skipWhitespace S with
  | (some status, v) => (.ended status, v)
  | (none, v) =>
    let token := v.rest.takeWhile (! isSpaceByte ·)
    (.text token, { v with pos := v.pos + token.length })

def readChar (v : TokenView σ) : Answer × TokenView σ :=
  match v.skipWhitespace S with
  | (some status, v) => (.ended status, v)
  | (none, v) =>
    match decodeUtf8Scalar v.line v.pos with
    | none => (.invalidUtf8, v)
    | some (value, length) => (.scalar value, { v with pos := v.pos + length })

def hasInput (v : TokenView σ) : Answer × TokenView σ :=
  if v.lineLive then (.more true, v)
  else (.more (S.hasMore v.source).1, { v with source := (S.hasMore v.source).2 })

/-- The lines that are left, with the remainder of the live one in front. -/
def content (v : TokenView σ) : List Bytes := (if v.lineLive then [v.rest] else []) ++ S.lines v.source

end TokenView

theorem decodeUtf8Scalar_iff {s : Bytes} {i cp width : Nat} (inside : i < s.length) :
    decodeUtf8Scalar s i = some (cp, width) ↔ Spells s i cp width := by
  have byte := byteAt_lt s i
  unfold decodeUtf8Scalar sequenceNeed
  by_cases one : byteAt s i < 0x80
  · rw [spells_one one]
    simp [one]
    omega
  by_cases two : byteAt s i &&& 0xE0 = 0xC0
  · simp [one, two, group_eq, continuation (byteAt_lt s _), low_five, Option.bind_eq_some_iff]
    generalize number : byteAt s i % 32 * 64 + byteAt s (i + 1) % 64 = v
    rw [spells_two ((lead_two byte).mp two) number]
    omega
  by_cases three : byteAt s i &&& 0xF0 = 0xE0
  · simp [one, two, three, group_eq, continuation (byteAt_lt s _), low_four, List.range'_succ, Option.bind_eq_some_iff]
    generalize number : (byteAt s i % 16 * 64 + byteAt s (i + 1) % 64) * 64 + byteAt s (i + 2) % 64 = v
    have small : v < 0x10000 := by omega
    rw [spells_three ((lead_three byte).mp three) number]
    clear number
    omega
  by_cases four : byteAt s i &&& 0xF8 = 0xF0
  · simp [one, two, three, four, group_eq, continuation (byteAt_lt s _), low_three, List.range'_succ,
      Option.bind_eq_some_iff]
    generalize number : ((byteAt s i % 8 * 64 + byteAt s (i + 1) % 64) * 64 + byteAt s (i + 2) % 64) * 64 +
      byteAt s (i + 3) % 64 = v
    rw [spells_four ((lead_four byte).mp four) number]
    clear number
    omega
  · simp [one, two, three, four, not_spells one two three four]

theorem decodeUtf8Scalar_drop {s : Bytes} {i : Nat} (inside : i < s.length) :
    decodeUtf8Scalar s i = decodeUtf8Scalar (s.drop i) 0 := by
  apply Option.ext
  rintro ⟨cp, width⟩
  have some_ : 0 < (s.drop i).length := by
    rw [List.length_drop]
    omega
  rw [decodeUtf8Scalar_iff inside, decodeUtf8Scalar_iff some_, spells_iff, spells_iff, Starts, Starts]
  rfl

/-- The decoder of `readChar` is one with those of source files, of `charAt` and of `foreach`. -/
theorem decoders_agree {s : Bytes} {i : Nat} (inside : i < s.length) : decodeUtf8Scalar s i = sequenceAt s i ∧
    decodeUtf8Scalar s i = decodeCodePointAt s i ∧ decodeUtf8Scalar s i = decodeStep s i := by
  refine ⟨Option.ext ?_, Option.ext ?_, Option.ext ?_⟩
  · rintro ⟨cp, width⟩
    exact (decodeUtf8Scalar_iff inside).trans sequenceAt_iff.symm
  · rintro ⟨cp, width⟩
    exact (decodeUtf8Scalar_iff inside).trans (decodeCodePointAt_iff inside).symm
  · rintro ⟨cp, width⟩
    exact (decodeUtf8Scalar_iff inside).trans decodeStep_iff.symm

theorem decoders_agree_overlong : decodeUtf8Scalar [0xC0, 0x80] 0 = decodeStep [0xC0, 0x80] 0 :=
  (@decoders_agree [0xC0, 0x80] 0 (by decide)).2.2

/-! ## Reading, in terms of the lines that are left -/

def skipBlank : List Bytes → List Bytes
  | [] => []
  | [line] => [line.dropWhile isSpaceByte]
  | line :: next :: later =>
    if line.dropWhile isSpaceByte = [] then skipBlank (next :: later)
    else line.dropWhile isSpaceByte :: next :: later

inductive Ask where | readLine | readToken | readChar | hasInput

/-- What an answer says about the text: a probe may say less than there is. -/
def Answer.told : Answer → Option Answer
  | .more _ => none
  | answer => some answer

def Ask.on (last : NoLine) (lines : List Bytes) : Ask → Answer × List Bytes
  | .readLine => match lines with
    | [] => (.ended last, [])
    | line :: later => (.text line, later)
  | .readToken => match skipBlank lines with
    | (b :: line) :: later =>
      (.text ((b :: line).takeWhile (! isSpaceByte ·)), (b :: line).dropWhile (! isSpaceByte ·) :: later)
    | lines => (.ended last, lines)
  | .readChar => match skipBlank lines with
    | (b :: line) :: later => match decodeUtf8Scalar (b :: line) 0 with
      | none => (.invalidUtf8, (b :: line) :: later)
      | some (value, length) => (.scalar value, (b :: line).drop length :: later)
    | lines => (.ended last, lines)
  | .hasInput => (.more (! lines.isEmpty), lines)

/-- Nothing that `readToken` or `readChar` could start with is left. -/
theorem Ask.on_blank {ask : Ask} {last : NoLine} {lines : List Bytes} (reads : ask = .readToken ∨ ask = .readChar)
    (blank : skipBlank lines = [] ∨ skipBlank lines = [[]]) : ask.on last lines = (.ended last, skipBlank lines) := by
  rcases reads with rfl | rfl
  · rcases blank with none_ | empty
    · rw [Ask.on, none_]
    · rw [Ask.on, empty]
  · rcases blank with none_ | empty
    · rw [Ask.on, none_]
    · rw [Ask.on, empty]

def answersOf (last : NoLine) : List Ask → List Bytes → List Answer
  | [], _ => []
  | ask :: asks, lines => (ask.on last lines).1 :: answersOf last asks (ask.on last lines).2

section Cursor
variable {σ : Type} (S : LineSource σ)

def Ask.at (v : TokenView σ) : Ask → Answer × TokenView σ
  | .readLine => v.readLine S
  | .readToken => v.readToken S
  | .readChar => v.readChar S
  | .hasInput => v.hasInput S

def answers : List Ask → TokenView σ → List Answer
  | [], _ => []
  | ask :: asks, v => (ask.at S v).1 :: answers asks (ask.at S v).2

variable {S}

theorem drop_takeWhile {α : Type} (p : α → Bool) (l : List α) : l.drop (l.takeWhile p).length = l.dropWhile p := by
  induction l with
  | nil => rfl
  | cons a l ih =>
    by_cases holds : p a = true
    · simpa [holds] using ih
    · simp [holds]

theorem LineSource.pull_cases (s : σ) :
    (∃ line later, S.lines s = line :: later ∧ (S.pullLine s).1 = .ok line ∧ S.lines (S.pullLine s).2 = later) ∨
    S.lines s = [] ∧ (S.pullLine s).1 = .error (S.last s) ∧ S.lines (S.pullLine s).2 = [] := by
  obtain ⟨line, later, -⟩ := S.pulled s
  cases lines : S.lines s with
  | nil =>
    rw [lines] at line later
    exact .inr ⟨rfl, line, later⟩
  | cons head tail =>
    rw [lines] at line later
    exact .inl ⟨head, tail, rfl, line, later⟩

theorem skipBlank_visible {line : Bytes} (later : List Bytes) (visible : line.dropWhile isSpaceByte ≠ []) :
    skipBlank (line :: later) = line.dropWhile isSpaceByte :: later := by
  cases later with
  | nil => rfl
  | cons next later => exact if_neg visible

theorem skipBlank_blank {line next : Bytes} {later : List Bytes} (blank : line.dropWhile isSpaceByte = []) :
    skipBlank (line :: next :: later) = skipBlank (next :: later) := if_pos blank

namespace TokenView

theorem skipSpaces_keeps (v : TokenView σ) : v.skipSpaces.lineLive = v.lineLive ∧ v.skipSpaces.source = v.source ∧
    (v.lineLive = true → v.skipSpaces.rest = v.rest.dropWhile isSpaceByte) := by
  unfold skipSpaces
  by_cases live : v.lineLive = true
  · rw [if_pos live]
    refine ⟨rfl, rfl, fun _ => ?_⟩
    rw [rest, ← List.drop_drop, ← rest, drop_takeWhile]
  · rw [if_neg live]
    exact ⟨rfl, rfl, fun yes => absurd yes live⟩

theorem rest_ne_nil (v : TokenView σ) : v.rest ≠ [] ↔ v.pos < v.line.length := by
  rw [rest, Ne, List.drop_eq_nil_iff, Nat.not_le]

theorem content_live {v : TokenView σ} (live : v.lineLive = true) : v.content S = v.rest :: S.lines v.source := by
  rw [content, if_pos live]
  rfl

theorem content_dead {v : TokenView σ} (live : ¬ v.lineLive = true) : v.content S = S.lines v.source := by
  rw [content, if_neg live]
  rfl

theorem content_moved {v : TokenView σ} (live : v.lineLive = true) (pos : Nat) :
    content S { v with pos } = v.line.drop pos :: S.lines v.source := content_live live

theorem content_source {v : TokenView σ} (live : ¬ v.lineLive = true) (source : σ) :
    content S { v with source } = S.lines source := content_dead live

/-- The live line is blank where `SkipWhitespace` does not stop in it. -/
theorem skipBlank_content {v : TokenView σ} {next : Bytes} {later : List Bytes}
    (stops : ¬ (v.skipSpaces.lineLive = true ∧ v.skipSpaces.pos < v.skipSpaces.line.length))
    (lines : S.lines v.source = next :: later) : skipBlank (v.content S) = skipBlank (next :: later) := by
  obtain ⟨live, -, rest⟩ := v.skipSpaces_keeps
  by_cases was : v.lineLive = true
  · rw [content_live was, lines]
    apply skipBlank_blank
    rw [← rest was]
    by_contra visible
    exact stops ⟨live.trans was, (rest_ne_nil _).mp visible⟩
  · rw [content_dead was, lines]

/-- `SkipWhitespace` stops at a visible byte of a live line, or after the last line. -/
theorem skipWhitespace_content (v : TokenView σ) :
    (v.skipWhitespace S).2.content S = skipBlank (v.content S) ∧
      S.last (v.skipWhitespace S).2.source = S.last v.source ∧
      ((v.skipWhitespace S).1 = none ∧ (v.skipWhitespace S).2.lineLive = true ∧ (v.skipWhitespace S).2.rest ≠ [] ∨
      (v.skipWhitespace S).1 = some (S.last v.source) ∧ (skipBlank (v.content S) = [] ∨ skipBlank (v.content S) = [[]])) := by
  -- by the lines that are pulled: each live line that is left blank is one that `skipBlank` drops
  fun_induction skipWhitespace S v with
  | case1 v stops =>
    obtain ⟨live, source, rest⟩ := v.skipSpaces_keeps
    have was : v.lineLive = true := live.symm.trans stops.1
    have visible := (rest_ne_nil _).mpr stops.2
    rw [content_live stops.1, content_live was, source, skipBlank_visible _ (rest was ▸ visible), rest was]
    exact ⟨rfl, rfl, .inl ⟨rfl, stops.1, rest was ▸ visible⟩⟩
  | case2 v stops status source pull =>
    obtain ⟨live, same, rest⟩ := v.skipSpaces_keeps
    rw [same] at pull
    have kept := (S.pulled v.source).2.2
    obtain ⟨line, later, -, line_eq, -⟩ | ⟨lines, status_eq, lines'⟩ := S.pull_cases v.source
    · rw [pull] at line_eq
      cases line_eq
    rw [pull] at kept status_eq lines'
    cases status_eq
    by_cases was : v.lineLive = true
    · have blank : v.rest.dropWhile isSpaceByte = [] := by
        rw [← rest was]
        by_contra visible
        exact stops ⟨live.trans was, (rest_ne_nil _).mp visible⟩
      have after : content S { v.skipSpaces with source } = v.skipSpaces.rest :: S.lines source :=
        content_live (live.trans was)
      rw [content_live was, lines, skipBlank, blank]
      refine ⟨after.trans ?_, kept, .inr ⟨rfl, .inr rfl⟩⟩
      exact congrArg₂ List.cons ((rest was).trans blank) lines'
    · have after : content S { v.skipSpaces with source } = S.lines source := content_dead (live.symm ▸ was)
      rw [content_dead was, lines, skipBlank]
      exact ⟨after.trans lines', kept, .inr ⟨rfl, .inl rfl⟩⟩
  | case3 v stops next source pull ih =>
    obtain ⟨live, same, rest⟩ := v.skipSpaces_keeps
    rw [same] at pull
    have kept := (S.pulled v.source).2.2
    obtain ⟨line, later, lines, line_eq, lines'⟩ | ⟨-, status_eq, -⟩ := S.pull_cases v.source
    · rw [pull] at kept line_eq lines'
      cases line_eq
      have started : content S { source, line := next, lineLive := true } = next :: later :=
        (content_live rfl).trans (congrArg _ lines')
      rw [skipBlank_content stops lines, ← started, ← kept]
      exact ih
    · rw [pull] at status_eq
      cases status_eq

variable (S)

/-- The view does what the request does to the lines, up to the answer of a probe. -/
def Tells (v : TokenView σ) (ask : Ask) (got : Answer × TokenView σ) : Prop :=
  got.1.told = (ask.on (S.last v.source) (v.content S)).1.told ∧
    got.2.content S = (ask.on (S.last v.source) (v.content S)).2 ∧ S.last got.2.source = S.last v.source

variable {S}

theorem readLine_tells (v : TokenView σ) : v.Tells S .readLine (v.readLine S) := by
  unfold readLine Tells
  split
  · next live =>
    rw [content_live live]
    exact ⟨rfl, content_dead (by simp), rfl⟩
  · next dead =>
    rw [content_dead dead]
    have kept := (S.pulled v.source).2.2
    obtain ⟨line, later, lines, answer, lines'⟩ | ⟨lines, answer, lines'⟩ := S.pull_cases v.source
    · split
      · next pull =>
        rw [pull] at answer
        cases answer
      · next next_ source pull =>
        rw [pull] at answer lines' kept
        cases answer
        rw [lines]
        exact ⟨rfl, lines', kept⟩
    · split
      · next status source pull =>
        rw [pull] at answer lines' kept
        cases answer
        rw [lines]
        exact ⟨rfl, (content_source dead source).trans lines', kept⟩
      · next pull =>
        rw [pull] at answer
        cases answer

theorem readToken_tells (v : TokenView σ) : v.Tells S .readToken (v.readToken S) := by
  obtain ⟨lines, last, ⟨ok, live, visible⟩ | ⟨status, blank⟩⟩ := @skipWhitespace_content σ S v
  · unfold readToken Tells
    generalize v.skipWhitespace S = skipped at *
    obtain ⟨status, w⟩ := skipped
    cases ok
    obtain ⟨b, line, rest⟩ := List.exists_cons_of_ne_nil visible
    dsimp only at lines last live rest ⊢
    rw [content_live live, rest] at lines
    rw [Ask.on, ← lines]
    refine ⟨congrArg (fun line => (Answer.text (line.takeWhile (! isSpaceByte ·))).told) rest, ?_, last⟩
    refine (content_moved live _).trans (congrArg (· :: _) ?_)
    rw [ ← List.drop_drop, ← TokenView.rest, drop_takeWhile, rest]
  · rw [Tells, Ask.on_blank (.inl rfl) blank, readToken]
    generalize v.skipWhitespace S = skipped at *
    obtain ⟨_, w⟩ := skipped
    cases status
    exact ⟨rfl, lines, last⟩

theorem readChar_tells (v : TokenView σ) : v.Tells S .readChar (v.readChar S) := by
  obtain ⟨lines, last, ⟨ok, live, visible⟩ | ⟨status, blank⟩⟩ := @skipWhitespace_content σ S v
  · unfold readChar Tells
    generalize v.skipWhitespace S = skipped at *
    obtain ⟨status, w⟩ := skipped
    cases ok
    obtain ⟨b, line, rest⟩ := List.exists_cons_of_ne_nil visible
    dsimp only at lines last live visible rest ⊢
    rw [content_live live, rest] at lines
    rw [Ask.on, ← lines, decodeUtf8Scalar_drop ((rest_ne_nil w).mp visible), ← TokenView.rest, rest]
    dsimp only
    cases decodeUtf8Scalar (b :: line) 0 with
    | none => exact ⟨rfl, (content_live live).trans (congrArg (· :: _) rest), last⟩
    | some scalar =>
      refine ⟨rfl, (content_moved live _).trans (congrArg (· :: _) ?_), last⟩
      rw [← List.drop_drop, ← TokenView.rest, rest]
  · rw [Tells, Ask.on_blank (.inr rfl) blank, readChar]
    generalize v.skipWhitespace S = skipped at *
    obtain ⟨_, w⟩ := skipped
    cases status
    exact ⟨rfl, lines, last⟩

theorem hasInput_tells (v : TokenView σ) : v.Tells S .hasInput (v.hasInput S) := by
  unfold hasInput Tells
  split
  · exact ⟨rfl, rfl, rfl⟩
  · next dead =>
    obtain ⟨lines, last⟩ := S.probed v.source
    refine ⟨rfl, ?_, last⟩
    rw [content_dead dead]
    exact (content_source dead _).trans lines

theorem tells (v : TokenView σ) (ask : Ask) : v.Tells S ask (ask.at S v) := by
  cases ask with
  | readLine => exact v.readLine_tells
  | readToken => exact v.readToken_tells
  | readChar => exact v.readChar_tells
  | hasInput => exact v.hasInput_tells

end TokenView

/-- Every answer to a read is the one that the lines have, whatever the source does and its probes say. -/
theorem answers_told (asks : List Ask) (v : TokenView σ) :
    (answers S asks v).map Answer.told = (answersOf (S.last v.source) asks (v.content S)).map Answer.told := by
  induction asks generalizing v with
  | nil => rfl
  | cons ask asks ih =>
    obtain ⟨answer, lines, last⟩ := v.tells ask (S := S)
    rw [answers, answersOf, List.map_cons, List.map_cons, ih, answer, lines, last]

end Cursor

theorem Answer.eq_of_told {answer known : Answer} (told : answer.told = some known) : answer = known := by
  cases answer with
  | more => cases told
  | text | scalar | invalidUtf8 | ended => exact Option.some.inj told

/-- However the input comes in pieces, whatever the probes find and whether or not there is a cue, the answers are those of
the lines of the text. -/
theorem answers_of_text (asks : List Ask) (s : InputLineSource) :
    (answers inputLines asks { source := s }).map Answer.told =
      (answersOf .eof asks (linesOf s.pending)).map Answer.told := answers_told asks _

/-! ## The probe -/

theorem linesOf_nil : linesOf [] = [] := linesOf_last List.not_mem_nil

theorem linesOf_ne_nil {text : Bytes} (some_ : text ≠ []) : linesOf text ≠ [] := by
  by_cases found : newline ∈ text
  · obtain ⟨line, rest, rfl, absent⟩ := List.eq_append_cons_of_mem found
    rw [linesOf_cons absent]
    exact List.cons_ne_nil _ _
  · rw [linesOf_last found, if_neg some_]
    exact List.cons_ne_nil _ _

namespace InputLineSource
variable {s : InputLineSource}

theorem fillBuffer_iff (empty : s.ahead = []) : s.fillBuffer.1 = true ↔ s.pending ≠ [] := by
  rw [pending, empty, List.nil_append]
  unfold fillBuffer
  split
  · next ended => simp [ended]
  · next ended => simp [ended]
  · next got later more => simp [more, got.2]

theorem hasMore_pending : (s.hasMore.1 = true → s.pending ≠ []) ∧
    (s.hasMore.1 = false → s.polls.headD false = true → s.pending = []) := by
  unfold hasMore
  by_cases buffered : s.bufferPos < s.buffer.length
  · rw [if_pos buffered]
    refine ⟨fun _ none_ => ?_, fun no => Bool.noConfusion no⟩
    have size := congrArg List.length (List.append_eq_nil_iff.mp none_).1
    rw [ahead, List.length_drop, List.length_nil] at size
    omega
  have empty : s.ahead = [] := List.drop_of_length_le (Nat.le_of_not_lt buffered)
  rw [if_neg buffered]
  split
  · next ended =>
    refine ⟨fun no => Bool.noConfusion no, fun _ _ => ?_⟩
    rw [pending, empty, Option.isNone_iff_eq_none.mp ended]
    rfl
  unfold streamHasMore
  by_cases poll : s.polls.headD false = true
  · have filled : (fillBuffer { s with polls := s.polls.tail }).1 = true ↔ s.pending ≠ [] := fillBuffer_iff empty
    dsimp only
    rw [if_pos poll]
    refine ⟨filled.mp, fun no _ => ?_⟩
    by_contra some_
    exact Bool.noConfusion (no.symm.trans (filled.mpr some_))
  · dsimp only
    rw [if_neg poll]
    exact ⟨fun no => Bool.noConfusion no, fun _ yes => absurd yes poll⟩

end InputLineSource

/-- `hasInput` promises a line that `readLine` then delivers. Where the descriptor is looked at (a file, a pipe that is ready),
it is also the other way round. -/
theorem hasInput_exact (v : TokenView InputLineSource) :
    ((v.hasInput inputLines).1 = .more true → ∃ line, ((v.hasInput inputLines).2.readLine inputLines).1 = .text line) ∧
    (v.source.polls.headD false = true → (v.hasInput inputLines).1 = .more false →
      ((v.hasInput inputLines).2.readLine inputLines).1 = .ended .eof) := by
  obtain ⟨-, same, -⟩ := v.hasInput_tells (S := inputLines)
  obtain ⟨told, -⟩ := (v.hasInput inputLines).2.readLine_tells (S := inputLines)
  rw [same] at told
  have ends (none_ : v.content inputLines = []) :
      ((v.hasInput inputLines).2.readLine inputLines).1 = .ended .eof := by
    rw [none_] at told
    exact Answer.eq_of_told told
  have reads {line : Bytes} {later : List Bytes} (some_ : v.content inputLines = line :: later) :
      ((v.hasInput inputLines).2.readLine inputLines).1 = .text line := by
    rw [some_] at told
    exact Answer.eq_of_told told
  by_cases live : v.lineLive = true
  · refine ⟨fun _ => ⟨_, reads (TokenView.content_live live)⟩, fun _ no => ?_⟩
    rw [TokenView.hasInput, if_pos live] at no
    cases no
  have asked : (v.hasInput inputLines).1 = .more v.source.hasMore.1 := by
    rw [TokenView.hasInput, if_neg live]
    rfl
  have left : v.content inputLines = linesOf v.source.pending := TokenView.content_dead live
  obtain ⟨promised, denied⟩ := @InputLineSource.hasMore_pending v.source
  rw [asked]
  constructor
  · intro yes
    obtain ⟨line, later, some_⟩ := List.exists_cons_of_ne_nil (linesOf_ne_nil (promised (Answer.more.inj yes)))
    exact ⟨line, reads (left.trans some_)⟩
  · intro poll no
    apply ends
    rw [left, denied (Answer.more.inj no) poll, linesOf_nil]

/-! ## Hosts -/

/-- The input of an embedding host: what `ReadInputLine` and `HasInputLine` will answer. -/
structure HostIoLineSource where
  inputLines : List Bytes
  after : NoLine
  probes : List Bool
  terminal : Option NoLine

namespace HostIoLineSource

def pullLine (h : HostIoLineSource) : Except NoLine Bytes × HostIoLineSource :=
  match h.terminal with
  | some status => (.error status, h)
  | none => match h.inputLines with
    | line :: later => (.ok (popCr line), { h with inputLines := later })
    | [] => (.error h.after, { h with terminal := some h.after })

def hasMore (h : HostIoLineSource) : Bool × HostIoLineSource :=
  if h.terminal.isNone then (h.probes.headD true, { h with probes := h.probes.tail }) else (false, h)

def lines (h : HostIoLineSource) : List Bytes := if h.terminal.isNone then h.inputLines.map popCr else []

def last (h : HostIoLineSource) : NoLine := h.terminal.getD h.after

theorem pullLine_lines (h : HostIoLineSource) : h.pullLine.1 = deliver h.lines h.last ∧ h.pullLine.2.lines = h.lines.tail ∧
    h.pullLine.2.last = h.last := by
  obtain ⟨inputLines, after, probes, terminal⟩ := h
  cases terminal with
  | some status => exact ⟨rfl, rfl, rfl⟩
  | none =>
    cases inputLines with
    | nil => exact ⟨rfl, rfl, rfl⟩
    | cons line later => exact ⟨rfl, rfl, rfl⟩

theorem hasMore_lines (h : HostIoLineSource) : h.hasMore.2.lines = h.lines ∧ h.hasMore.2.last = h.last := by
  unfold hasMore
  split
  · exact ⟨rfl, rfl⟩
  · exact ⟨rfl, rfl⟩

end HostIoLineSource

def hostLines : LineSource HostIoLineSource where
  pullLine := HostIoLineSource.pullLine
  hasMore := HostIoLineSource.hasMore
  lines := HostIoLineSource.lines
  last := HostIoLineSource.last
  pulled := HostIoLineSource.pullLine_lines
  probed := HostIoLineSource.hasMore_lines

/-- A host that hands over the lines of a text gives every read the answer that the text has on a stream. -/
theorem host_answers (asks : List Ask) (s : InputLineSource) {h : HostIoLineSource} (fresh : h.terminal = none)
    (ends : h.after = .eof) (text : h.inputLines.map popCr = linesOf s.pending) :
    (answers hostLines asks { source := h }).map Answer.told =
      (answers inputLines asks { source := s }).map Answer.told := by
  have lines : h.lines = linesOf s.pending := by rw [HostIoLineSource.lines, fresh, ← text]; rfl
  have last : h.last = .eof := by rw [HostIoLineSource.last, fresh, ← ends]; rfl
  have left := answers_told asks { source := h } (S := hostLines)
  have right := answers_told asks { source := s } (S := inputLines)
  rw [left, right]
  change (answersOf h.last asks h.lines).map _ = _
  rw [lines, last]
  rfl

def oneLine : InputLineSource := ⟨[97], 0, Nat.zero_le _, some [⟨[newline], by decide⟩], false, []⟩

theorem host_answers_cr : (answers hostLines [.readLine, .readToken] { source := ⟨[[97, 13]], .eof, [], none⟩ }).map
    Answer.told = (answers inputLines [.readLine, .readToken] { source := oneLine }).map Answer.told :=
  host_answers _ oneLine rfl rfl (by decide)

end NLang.Vm.InputLines
