import NLang.Vm.InputLines

/-!
# Words and characters of the input

What `readToken` and `readChar` answer one after the other, in terms of the whole text.
-/

namespace NLang.Vm.InputLines
open NLang.Library.Words NLang.Vm.CodePoints

def words (text : Bytes) : List Bytes := (text.splitOnP isSpaceByte).filter (· ≠ [])

theorem words_append {before after : Bytes} {space : UInt8} (is_space : isSpaceByte space = true) :
    words (before ++ space :: after) = words before ++ words after := by
  rw [words, List.splitOnP_append_cons before after is_space, List.filter_append, words, words]

theorem words_space {space : UInt8} (is_space : isSpaceByte space = true) (text : Bytes) :
    words (space :: text) = words text := by
  rw [← List.nil_append (space :: text), words_append is_space]
  rfl

theorem words_dropWhile (line : Bytes) : words (line.dropWhile isSpaceByte) = words line := by
  induction line with
  | nil => rfl
  | cons b line ih =>
    by_cases space : isSpaceByte b = true
    · rw [List.dropWhile_cons_of_pos space, ih, words_space space]
    · rw [List.dropWhile_cons_of_neg space]

theorem words_visible {b : UInt8} {line : Bytes} (visible : isSpaceByte b = false) :
    words (b :: line) = (b :: line).takeWhile (! isSpaceByte ·) :: words ((b :: line).dropWhile (! isSpaceByte ·)) := by
  have plain : ∀ c ∈ (b :: line).takeWhile (! isSpaceByte ·), isSpaceByte c = false := by
    intro c mem
    simpa using List.mem_takeWhile_imp mem
  have first : (b :: line).takeWhile (! isSpaceByte ·) ≠ [] := by simp [visible]
  have alone : words ((b :: line).takeWhile (! isSpaceByte ·)) = [(b :: line).takeWhile (! isSpaceByte ·)] := by
    rw [words, List.splitOnP_eq_singleton plain, List.filter_cons_of_pos (by simpa using first), List.filter_nil]
  conv_lhs => rw [← @List.takeWhile_append_dropWhile _ (! isSpaceByte ·) (b :: line)]
  cases after : (b :: line).dropWhile (! isSpaceByte ·) with
  | nil => rw [List.append_nil, alone]; rfl
  | cons space rest =>
    have is_space : isSpaceByte space = true := by
      have stop := List.head?_dropWhile_not (! isSpaceByte ·) (b :: line)
      rw [after] at stop
      simpa using stop
    rw [words_append is_space, alone, words_space is_space]
    rfl

theorem words_popCr (line : Bytes) : words (popCr line) = words line := by
  unfold popCr
  split
  · next cr =>
    obtain ⟨front, rfl⟩ := List.getLast?_eq_some_iff.mp cr
    rw [List.dropLast_concat, words_append (by decide)]
    exact (List.append_nil _).symm
  · rfl

/-- No word of the text crosses a line. -/
theorem words_lines (text : Bytes) : (linesOf text).flatMap words = words text := by
  induction size : text.length using Nat.strong_induction_on generalizing text with
  | h n ih =>
    by_cases found : newline ∈ text
    · obtain ⟨line, rest, rfl, absent⟩ := List.eq_append_cons_of_mem found
      rw [linesOf_cons absent, List.flatMap_cons, words_popCr, words_append (by decide), ih rest.length ?_ rest rfl]
      rw [← size, List.length_append, List.length_cons]
      omega
    · rw [linesOf_last found]
      split
      · next none_ => rw [none_]; rfl
      · rw [List.flatMap_singleton, words_popCr]

theorem words_skipBlank (lines : List Bytes) : (skipBlank lines).flatMap words = lines.flatMap words := by
  fun_induction skipBlank lines with
  | case1 => rfl
  | case2 line => rw [List.flatMap_singleton, List.flatMap_singleton, words_dropWhile]
  | case3 line next later blank ih =>
    have nothing : words line = [] := by
      rw [← words_dropWhile, blank]
      rfl
    rw [ih, @List.flatMap_cons _ _ line, nothing, List.nil_append]
  | case4 line next later visible => simp only [List.flatMap_cons, words_dropWhile]

theorem skipBlank_front {b : UInt8} {line : Bytes} {lines later : List Bytes}
    (front : skipBlank lines = (b :: line) :: later) : isSpaceByte b = false := by
  have stop (line' : Bytes) (cut : line'.dropWhile isSpaceByte = b :: line) : isSpaceByte b = false := by
    have head := List.head?_dropWhile_not isSpaceByte line'
    rw [cut] at head
    simpa using head
  fun_induction skipBlank lines with
  | case1 => cases front
  | case2 line' => exact stop line' (List.cons.inj front).1
  | case3 line' next later blank ih => exact ih front
  | case4 line' next later visible => exact stop line' (List.cons.inj front).1

theorem skipBlank_cases (lines : List Bytes) :
    (∃ b line later, skipBlank lines = (b :: line) :: later) ∨ skipBlank lines = [] ∨ skipBlank lines = [[]] := by
  fun_induction skipBlank lines with
  | case1 => exact .inr (.inl rfl)
  | case2 line =>
    cases cut : line.dropWhile isSpaceByte with
    | nil => exact .inr (.inr rfl)
    | cons b rest => exact .inl ⟨b, rest, [], rfl⟩
  | case3 line next later blank ih => exact ih
  | case4 line next later visible =>
    obtain ⟨b, rest, cut⟩ := List.exists_cons_of_ne_nil visible
    exact .inl ⟨b, rest, _, congrArg (· :: _) cut⟩

/-- One kind of request, and what is left of its items: it answers the first of them, or that there is none. -/
def Serves {α : Type} (ask : Ask) (last : NoLine) (tell : α → Answer) (left : List Bytes → List α → Prop) : Prop :=
  ∀ lines items, left lines items → (ask.on last lines).1 = (items.head?.map tell).getD (.ended last) ∧
    left (ask.on last lines).2 items.tail

theorem answersOf_replicate {α : Type} {ask : Ask} {last : NoLine} {tell : α → Answer}
    {left : List Bytes → List α → Prop} (serves : Serves ask last tell left) (n : Nat) :
    ∀ lines items, left lines items → answersOf last (List.replicate n ask) lines =
      (List.range n).map fun k => (items[k]?.map tell).getD (.ended last) := by
  induction n with
  | zero => exact fun _ _ _ => rfl
  | succ n ih =>
    intro lines items now
    obtain ⟨answer, after⟩ := serves lines items now
    rw [List.replicate_succ, answersOf, ih _ _ after, answer, List.range_succ_eq_map, List.map_cons,
      List.map_map, List.head?_eq_getElem?]
    refine congrArg _ (List.map_congr_left fun k _ => ?_)
    rw [Function.comp_apply, List.getElem?_tail]

theorem readToken_serves (last : NoLine) :
    Serves .readToken last .text fun lines items => lines.flatMap words = items := by
  rintro lines _ rfl
  have left := words_skipBlank lines
  obtain ⟨b, line, later, front⟩ | blank := skipBlank_cases lines
  · rw [front, List.flatMap_cons, words_visible (skipBlank_front front)] at left
    rw [Ask.on, front, ← left]
    exact ⟨rfl, List.flatMap_cons⟩
  · have nothing : (skipBlank lines).flatMap words = [] := by
      rcases blank with none_ | empty
      · rw [none_]
        rfl
      · rw [empty]
        rfl
    rw [Ask.on_blank (.inl rfl) blank, ← left, nothing]
    exact ⟨rfl, nothing⟩

/-- Requests of one kind, each of which the lines answer with no probe. -/
theorem answers_of_told {σ : Type} {S : LineSource σ} {asks : List Ask} {v : TokenView σ} {known : List Answer}
    (text : answersOf (S.last v.source) asks (v.content S) = known) (reads : ∀ a ∈ known, a.told = some a) :
    answers S asks v = known := by
  have told := answers_told asks v (S := S)
  rw [text, List.map_congr_left reads] at told
  apply List.ext_getElem?
  intro k
  have same := congrArg (·[k]?) told
  simp only [List.getElem?_map] at same
  cases found : (answers S asks v)[k]? with
  | none => simpa [found] using same
  | some answer =>
    rw [found, Option.map_some] at same
    obtain ⟨other, is_other, answer_eq⟩ := Option.map_eq_some_iff.mp same.symm
    rw [is_other, Answer.eq_of_told answer_eq.symm]

/-- Requests of one kind, to a source whose text has these items. -/
theorem answers_replicate {α : Type} {ask : Ask} {tell : α → Answer} {left : List Bytes → List α → Prop}
    (serves : Serves ask .eof tell left) (plain : ∀ a, (tell a).told = some (tell a)) {s : InputLineSource} {items : List α}
    (text : left (linesOf s.pending) items) (n : Nat) : answers inputLines (List.replicate n ask) { source := s } =
      (List.range n).map fun k => (items[k]?.map tell).getD (.ended .eof) := by
  apply answers_of_told (answersOf_replicate serves n _ _ text)
  intro a mem
  obtain ⟨k, -, rfl⟩ := List.mem_map.mp mem
  cases items[k]? with
  | none => rfl
  | some item => exact plain item

theorem readToken_words (s : InputLineSource) (n : Nat) : answers inputLines (List.replicate n .readToken) { source := s } =
    (List.range n).map fun k => ((words s.pending)[k]?.map .text).getD (.ended .eof) :=
  answers_replicate (readToken_serves .eof) (fun _ => rfl) (words_lines s.pending) n

/-! ## Characters -/

def encoded (cs : List Char) : Bytes := cs.flatMap String.utf8EncodeChar

def isSpaceChar (c : Char) : Bool := [32, 9, 13, 10].contains c.toNat

def visible (cs : List Char) : List Char := cs.filter (! isSpaceChar ·)

theorem isSpaceByte_eq (b : UInt8) : isSpaceByte b = [32, 9, 13, 10].contains b.toNat := by
  rw [Bool.eq_iff_iff]
  simp [isSpaceByte, ← UInt8.toNat_inj, or_assoc]

theorem isSpaceByte_high {b : UInt8} (high : 0x80 ≤ b.toNat) : isSpaceByte b = false := by
  rw [isSpaceByte_eq]
  simp
  omega

/-- A character is one byte with its number, or takes bytes that no ASCII character has. -/
theorem encodeChar_cases (c : Char) : (∃ b : UInt8, b.toNat = c.toNat ∧ String.utf8EncodeChar c = [b]) ∨
    0x80 ≤ c.toNat ∧ ∀ b ∈ String.utf8EncodeChar c, 0x80 ≤ b.toNat := by
  have valid := char_valid c
  rw [encodeChar_eq]
  by_cases small : c.toNat < 0x80
  · rw [if_pos small]
    exact .inl ⟨_, UInt8.toNat_ofNat_of_lt' (Nat.lt_trans small (by decide)), rfl⟩
  rw [if_neg small]
  refine .inr ⟨Nat.le_of_not_lt small, ?_⟩
  split
  · simp
    omega
  split
  · simp
    omega
  · simp
    omega

theorem isSpaceChar_high {c : Char} (high : 0x80 ≤ c.toNat) : isSpaceChar c = false := by
  simp [isSpaceChar]
  omega

theorem visible_cons_space {c : Char} (space : isSpaceChar c = true) (cs : List Char) : visible (c :: cs) = visible cs :=
  List.filter_cons_of_neg (by simp [space])

theorem dropWhile_encoded (cs : List Char) :
    (encoded cs).dropWhile isSpaceByte = encoded (cs.dropWhile isSpaceChar) ∧ visible (cs.dropWhile isSpaceChar) = visible cs := by
  induction cs with
  | nil => exact ⟨rfl, rfl⟩
  | cons c cs ih =>
    obtain ⟨cut, seen⟩ := ih
    rw [encoded, List.flatMap_cons, ← encoded]
    obtain ⟨b, number, code⟩ | ⟨high, bytes⟩ := encodeChar_cases c
    · have same : isSpaceByte b = isSpaceChar c := by rw [isSpaceByte_eq, number, isSpaceChar]
      by_cases space : isSpaceChar c = true
      · rw [code, List.singleton_append, List.dropWhile_cons_of_pos (same.trans space), List.dropWhile_cons_of_pos space,
          visible_cons_space space]
        exact ⟨cut, seen⟩
      · rw [List.dropWhile_cons_of_neg space, code, List.singleton_append, List.dropWhile_cons_of_neg (same ▸ space)]
        exact ⟨(congrArg (· ++ _) code).symm, rfl⟩
    · obtain ⟨b, more, code⟩ := List.exists_cons_of_ne_nil (String.utf8EncodeChar_ne_nil (c := c))
      have byte : isSpaceByte b = false := isSpaceByte_high (bytes b (by simp [code]))
      rw [List.dropWhile_cons_of_neg (by simp [isSpaceChar_high high]), code, List.cons_append,
        List.dropWhile_cons_of_neg (by simp [byte])]
      exact ⟨(congrArg (· ++ _) code).symm, rfl⟩

theorem encoded_eq_nil {cs : List Char} : encoded cs = [] ↔ cs = [] := by
  cases cs with
  | nil => exact iff_of_true rfl rfl
  | cons c cs => simp [encoded]

theorem skipBlank_encoded (css : List (List Char)) :
    ∃ css' : List (List Char), skipBlank (css.map encoded) = css'.map encoded ∧ css'.flatMap visible = css.flatMap visible := by
  induction css with
  | nil => exact ⟨[], rfl, rfl⟩
  | cons cs css ih =>
    obtain ⟨cut, seen⟩ := dropWhile_encoded cs
    by_cases blank : cs.dropWhile isSpaceChar = []
    · cases css with
      | nil => exact ⟨[cs.dropWhile isSpaceChar], congrArg (fun left => [left]) cut, congrArg (· ++ []) seen⟩
      | cons next later =>
        obtain ⟨css', skip, same⟩ := ih
        refine ⟨css', ?_, ?_⟩
        · exact (skipBlank_blank (cut.trans (encoded_eq_nil.mpr blank))).trans skip
        · rw [blank] at seen
          rw [same, @List.flatMap_cons _ _ cs, ← seen]
          rfl
    · refine ⟨cs.dropWhile isSpaceChar :: css, ?_, by rw [List.flatMap_cons, List.flatMap_cons, seen]⟩
      rw [List.map_cons, List.map_cons, ← cut]
      exact skipBlank_visible _ (cut ▸ mt encoded_eq_nil.mp blank)

theorem readChar_serves (last : NoLine) : Serves .readChar last (fun c : Char => .scalar c.toNat)
    fun lines cs => ∃ css : List (List Char), lines = css.map encoded ∧ css.flatMap visible = cs := by
  rintro _ _ ⟨css, rfl, rfl⟩
  obtain ⟨css', skip, same⟩ := skipBlank_encoded css
  obtain ⟨b, line, later, front⟩ | blank := skipBlank_cases (css.map encoded)
  · obtain _ | ⟨_ | ⟨c, cs⟩, css'⟩ := css'
    · rw [front] at skip
      cases skip
    · rw [front] at skip
      cases skip
    rw [skip, List.map_cons] at front
    have front_eq := List.cons.inj front
    have byte := skipBlank_front (skip.trans front)
    have plain : isSpaceChar c = false := by
      obtain ⟨b', number, code⟩ | ⟨high, -⟩ := encodeChar_cases c
      · rw [encoded, List.flatMap_cons, code] at front_eq
        cases front_eq.1
        rwa [isSpaceByte_eq, number] at byte
      · exact isSpaceChar_high high
    have starts : decodeUtf8Scalar (encoded (c :: cs)) 0 = some (c.toNat, (String.utf8EncodeChar c).length) := by
      apply (decodeUtf8Scalar_iff ?_).mpr (spells_iff.mpr ⟨c, rfl, rfl, ⟨encoded cs, rfl⟩⟩)
      rw [front_eq.1]
      exact Nat.succ_pos _
    have first : visible (c :: cs) = c :: visible cs := List.filter_cons_of_pos (by simp [plain])
    rw [Ask.on, skip, List.map_cons, front_eq.1]
    dsimp only
    rw [← front_eq.1, starts, ← same, List.flatMap_cons, first]
    refine ⟨rfl, cs :: css', ?_, rfl⟩
    exact congrArg (· :: _) List.drop_left
  · have nothing : css'.flatMap visible = [] := by
      rw [skip] at blank
      obtain _ | ⟨_ | ⟨c, cs⟩, css'⟩ := css'
      · rfl
      · rcases blank with none_ | empty
        · cases none_
        · cases List.map_eq_nil_iff.mp (List.cons.inj empty).2
          rfl
      · rcases blank with none_ | empty
        · cases none_
        · cases encoded_eq_nil.mp (List.cons.inj empty).1
    rw [Ask.on_blank (.inr rfl) blank, ← same, nothing]
    exact ⟨rfl, css', skip, nothing⟩

theorem newline_encoded {cs : List Char} : newline ∈ encoded cs ↔ Char.ofNat 10 ∈ cs := by
  rw [encoded, List.mem_flatMap]
  constructor
  · rintro ⟨c, mem, byte⟩
    obtain ⟨b, number, code⟩ | ⟨-, high⟩ := encodeChar_cases c
    · rw [code, List.mem_singleton] at byte
      subst byte
      have same : c = Char.ofNat 10 := Char.toNat_inj.mp number.symm
      exact same ▸ mem
    · exact absurd (high _ byte) (by decide)
  · exact fun mem => ⟨_, mem, by decide⟩

theorem popCr_encoded (line : List Char) : ∃ line', popCr (encoded line) = encoded line' ∧ visible line' = visible line := by
  unfold popCr
  split
  · next cr =>
    obtain rfl | ⟨front, c, rfl⟩ := List.eq_nil_or_concat line
    · cases cr
    rw [encoded, List.concat_eq_append, List.flatMap_append, List.flatMap_singleton] at cr ⊢
    obtain ⟨b, number, code⟩ | ⟨-, high⟩ := encodeChar_cases c
    · rw [code, List.getLast?_concat] at cr
      cases cr
      have space : isSpaceChar c = true := by
        rw [isSpaceChar, ← number]
        rfl
      refine ⟨front, ?_, ?_⟩
      · rw [code, List.dropLast_concat, encoded]
      · simp [visible, space]
    · rw [List.getLast?_append_of_ne_nil _ String.utf8EncodeChar_ne_nil] at cr
      exact absurd (high _ (List.mem_of_getLast? cr)) (by decide)
  · exact ⟨line, rfl, rfl⟩

theorem linesOf_encoded (cs : List Char) :
    ∃ css : List (List Char), linesOf (encoded cs) = css.map encoded ∧ css.flatMap visible = visible cs := by
  induction size : cs.length using Nat.strong_induction_on generalizing cs with
  | h n ih =>
    by_cases found : Char.ofNat 10 ∈ cs
    · obtain ⟨line, rest, rfl, absent⟩ := List.eq_append_cons_of_mem found
      obtain ⟨line', cut, seen⟩ := popCr_encoded line
      obtain ⟨css, lines, same⟩ := ih rest.length (by rw [← size, List.length_append, List.length_cons]; omega) rest rfl
      have split : encoded (line ++ Char.ofNat 10 :: rest) = encoded line ++ newline :: encoded rest := by
        rw [encoded, List.flatMap_append, List.flatMap_cons]
        rfl
      refine ⟨line' :: css, ?_, ?_⟩
      · rw [split, linesOf_cons (mt newline_encoded.mp absent), cut, lines, List.map_cons]
      · rw [List.flatMap_cons, same, seen, visible, visible, visible, List.filter_append]
        exact congrArg _ (visible_cons_space rfl rest).symm
    · obtain ⟨line', cut, seen⟩ := popCr_encoded cs
      rw [linesOf_last (mt newline_encoded.mp found)]
      split
      · next none_ =>
        rw [encoded_eq_nil.mp none_]
        exact ⟨[], rfl, rfl⟩
      · refine ⟨[line'], congrArg (fun left => [left]) cut, ?_⟩
        rw [List.flatMap_singleton, seen]

/-- Where the input is the encoding of a text. -/
theorem readChar_visible (s : InputLineSource) {cs : List Char} (text : s.pending = encoded cs) (n : Nat) :
    answers inputLines (List.replicate n .readChar) { source := s } =
      (List.range n).map fun k => ((visible cs)[k]?.map fun c => .scalar c.toNat).getD (.ended .eof) :=
  answers_replicate (readChar_serves .eof) (fun _ => rfl) (text ▸ linesOf_encoded cs) n

def accented : InputLineSource :=
  ⟨encoded [Char.ofNat 13, Char.ofNat 10], 0, Nat.zero_le _, some [⟨encoded [Char.ofNat 0xE9], by decide⟩], false, []⟩

theorem readChar_accented : answers inputLines (List.replicate 2 .readChar) { source := accented } =
    [.scalar 0xE9, .ended .eof] :=
  @readChar_visible accented [Char.ofNat 13, Char.ofNat 10, Char.ofNat 0xE9] rfl 2

end NLang.Vm.InputLines
