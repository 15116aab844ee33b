import NLang.Package.Container

/-!
# Reads of the package reader

Which images make `Open` read past their end. The member table checks every length it uses before it
reads, so the only unchecked reads are the four words of the header and the entry record whose
length arithmetic is missing or one byte short.
-/

namespace NLang.Package
open NLang.Library.Words

def Overruns {α : Type} (result : Except Fault α) : Prop :=
  ∃ pos width, result = .error (.overrun pos width)

theorem not_overruns_ok {α : Type} (value : α) : ¬ Overruns (.ok value : Except Fault α) := by
  rintro ⟨pos, width, h⟩
  cases h

theorem not_overruns_rejected {α : Type} (message : Bytes) :
    ¬ Overruns (.error (.rejected message) : Except Fault α) := by
  rintro ⟨pos, width, h⟩
  cases h

theorem not_overruns_invalid {α : Type} (path text : Bytes) :
    ¬ Overruns (.error (invalid path text) : Except Fault α) := not_overruns_rejected _

theorem overruns_bind {α β : Type} (first : Except Fault α) (next : α → Except Fault β) :
    Overruns (first >>= next) ↔ Overruns first ∨ ∃ value, first = .ok value ∧ Overruns (next value) := by
  cases first with
  | error fault => simp [Overruns, bind, Except.bind]
  | ok value => simp [Overruns, bind, Except.bind]

theorem overruns_getWord (width : Nat) (image : Bytes) (pos : Nat) :
    Overruns (getWord width image pos) ↔ ¬ Inside image pos width := by
  by_cases inside : Inside image pos width
  · simp [getWord_inside inside, inside, not_overruns_ok]
  · simp [getWord_outside inside, inside, Overruns]

def PreambleAccepted (image : Bytes) : Prop :=
  12 ≤ image.length ∧ window image 0 8 = npkgMagic ∧
    wordAt 2 image 8 = npkgFormatMajor ∧ wordAt 2 image 10 ≤ npkgFormatMinor

instance (image : Bytes) : Decidable (PreambleAccepted image) :=
  inferInstanceAs (Decidable (_ ∧ _ ∧ _ ∧ _))

def EntryPrefixCut (image : Bytes) (pos : Nat) : Prop :=
  pos < image.length ∧ image.getD pos 0 ≠ 0 ∧
    (image.length = pos + 1 ∨
      pos + 2 + wordAt 2 image pos ≤ image.length ∧
        image.length < pos + 2 + wordAt 2 image pos + 2)

instance (image : Bytes) (pos : Nat) : Decidable (EntryPrefixCut image pos) :=
  inferInstanceAs (Decidable (_ ∧ _ ∧ (_ ∨ _ ∧ _)))

def LengthPrefixCut (image : Bytes) : Prop :=
  PreambleAccepted image ∧
    (image.length < 14 ∨ image.length = 39 + wordAt 2 image 12 ∨
      EntryPrefixCut image (40 + wordAt 2 image 12))

instance (image : Bytes) : Decidable (LengthPrefixCut image) :=
  inferInstanceAs (Decidable (_ ∧ (_ ∨ _ ∨ _)))

theorem parseNpkgHeader_ok {image : Bytes} {packageName : Bytes} {pos : Nat}
    (parsed : parseNpkgHeader image = .ok (packageName, pos)) :
    PreambleAccepted image ∧ 39 + wordAt 2 image 12 ≤ image.length ∧
      packageName = window image 14 (wordAt 2 image 12) ∧ pos = 36 + wordAt 2 image 12 := by
  unfold parseNpkgHeader at parsed
  split at parsed
  · cases parsed
  rename_i magic
  split at parsed
  · cases parsed
  rename_i longEnough
  have inside8 : Inside image 8 2 := by unfold Inside; omega
  have inside10 : Inside image 10 2 := by unfold Inside; omega
  simp only [getU16, getWord_inside inside8, getWord_inside inside10, bind, Except.bind] at parsed
  split at parsed
  · cases parsed
  rename_i version
  by_cases inside12 : Inside image 12 2
  · simp only [getWord_inside inside12] at parsed
    split at parsed
    · cases parsed
    rename_i fits
    simp only [Except.ok.injEq, Prod.mk.injEq] at parsed
    obtain ⟨rfl, rfl⟩ := parsed
    push Not at magic version
    exact ⟨⟨by omega, magic.2, version.1, version.2⟩, by omega, rfl, by omega⟩
  · simp [getWord_outside inside12] at parsed

theorem parseNpkgHeader_accepts {image : Bytes} (accepted : PreambleAccepted image)
    (fits : 39 + wordAt 2 image 12 ≤ image.length) :
    parseNpkgHeader image =
      .ok (window image 14 (wordAt 2 image 12), 36 + wordAt 2 image 12) := by
  obtain ⟨longEnough, magic, major, minor⟩ := accepted
  have inside8 : Inside image 8 2 := by unfold Inside; omega
  have inside10 : Inside image 10 2 := by unfold Inside; omega
  have inside12 : Inside image 12 2 := by unfold Inside; omega
  unfold parseNpkgHeader
  rw [if_neg (by rw [not_or, not_not]; exact ⟨by omega, magic⟩), if_neg (by omega)]
  simp only [getU16, getWord_inside inside8, getWord_inside inside10, getWord_inside inside12,
    bind, Except.bind]
  rw [if_neg (by push Not; exact ⟨major, minor⟩), if_neg (by omega)]
  simp only [Except.ok.injEq, Prod.mk.injEq, true_and]
  omega

theorem overruns_parseNpkgHeader (image : Bytes) :
    Overruns (parseNpkgHeader image) ↔ PreambleAccepted image ∧ image.length < 14 := by
  unfold parseNpkgHeader PreambleAccepted
  split
  · rename_i magic
    refine iff_of_false (not_overruns_rejected _) ?_
    rintro ⟨⟨longEnough, expected, -⟩, -⟩
    exact magic.elim (fun short => by omega) (fun other => other expected)
  split
  · rename_i short
    exact iff_of_false (not_overruns_rejected _) (by rintro ⟨⟨longEnough, -⟩, -⟩; omega)
  rename_i magic longEnough
  push Not at magic
  have inside8 : Inside image 8 2 := by unfold Inside; omega
  have inside10 : Inside image 10 2 := by unfold Inside; omega
  simp only [getU16, getWord_inside inside8, getWord_inside inside10, bind, Except.bind]
  split
  · rename_i version
    refine iff_of_false (not_overruns_rejected _) ?_
    rintro ⟨⟨-, -, major, minor⟩, -⟩
    exact version.elim (fun other => other major) (fun later => by omega)
  rename_i version
  push Not at version
  have accepted : 12 ≤ image.length ∧ window image 0 8 = npkgMagic ∧
      wordAt 2 image 8 = npkgFormatMajor ∧ wordAt 2 image 10 ≤ npkgFormatMinor :=
    ⟨by omega, magic.2, version.1, version.2⟩
  by_cases inside12 : Inside image 12 2
  · simp only [getWord_inside inside12]
    refine iff_of_false ?_ (by rintro ⟨-, short⟩; unfold Inside at inside12; omega)
    split
    · exact not_overruns_rejected _
    · exact not_overruns_ok _
  · simp only [getWord_outside inside12]
    exact iff_of_true ⟨_, _, rfl⟩ ⟨accepted, by unfold Inside at inside12; omega⟩

theorem overruns_parseEntryRecord (path image : Bytes) (pos : Nat) :
    Overruns (parseEntryRecord path image pos) ↔ EntryPrefixCut image pos := by
  unfold parseEntryRecord EntryPrefixCut
  split
  · exact iff_of_false (not_overruns_invalid _ _) (by rintro ⟨present, -⟩; omega)
  split
  · rename_i absent
    exact iff_of_false (not_overruns_ok _) (by rintro ⟨-, present, -⟩; exact present absent)
  rename_i present marker
  simp only [getU16, overruns_bind, overruns_getWord]
  by_cases insidePath : Inside image pos 2
  · simp only [insidePath, not_true_eq_false, false_or, getWord_inside insidePath,
      Except.ok.injEq, exists_eq_left']
    unfold Inside at insidePath
    split
    · exact iff_of_false (not_overruns_invalid _ _) (by rintro ⟨-, -, h⟩; omega)
    rename_i fits
    rw [overruns_bind, overruns_getWord]
    by_cases insideName : Inside image (pos + 2 + wordAt 2 image pos) 2
    · simp only [insideName, not_true_eq_false, false_or, getWord_inside insideName,
        Except.ok.injEq, exists_eq_left']
      unfold Inside at insideName
      refine iff_of_false ?_ (by rintro ⟨-, -, h⟩; omega)
      split
      · exact not_overruns_invalid _ _
      · exact not_overruns_ok _
    · refine iff_of_true (Or.inl insideName) ⟨by omega, marker, ?_⟩
      unfold Inside at insideName
      omega
  · refine iff_of_true (Or.inl insidePath) ⟨by omega, marker, ?_⟩
    unfold Inside at insidePath
    omega

theorem parseMember_checked (path image : Bytes) (pos : Nat) :
    ¬ Overruns (parseMember path image pos) ∧
      ∀ row next, parseMember path image pos = .ok (row, next) →
        row.offset + row.length ≤ image.length := by
  unfold parseMember
  split
  · exact ⟨not_overruns_invalid _ _, fun _ _ h => by cases h⟩
  have insidePath : Inside image pos 2 := by unfold Inside; omega
  simp only [getU16, getWord_inside insidePath, bind, Except.bind]
  split
  · exact ⟨not_overruns_invalid _ _, fun _ _ h => by cases h⟩
  have insideOffset : Inside image (pos + 2 + wordAt 2 image pos) 8 := by unfold Inside; omega
  have insideLength : Inside image (pos + 2 + wordAt 2 image pos + 8) 8 := by unfold Inside; omega
  have insideChecksum : Inside image (pos + 2 + wordAt 2 image pos + 16) 8 := by unfold Inside; omega
  simp only [getU64, getWord_inside insideOffset, getWord_inside insideLength,
    getWord_inside insideChecksum]
  split
  · exact ⟨not_overruns_invalid _ _, fun _ _ h => by cases h⟩
  rename_i range
  refine ⟨not_overruns_ok _, fun row next parsed => ?_⟩
  simp only [Except.ok.injEq, Prod.mk.injEq] at parsed
  obtain ⟨rfl, -⟩ := parsed
  change wordAt 8 image _ + wordAt 8 image _ ≤ image.length
  omega

theorem not_overruns_parseMemberTable (path image : Bytes) (memberCount pos : Nat) :
    ¬ Overruns (parseMemberTable path image memberCount pos) := by
  induction memberCount generalizing pos with
  | zero => exact not_overruns_ok _
  | succ memberCount ih =>
    simp only [parseMemberTable, overruns_bind]
    rintro (row | ⟨⟨row, next⟩, -, rest | ⟨rows, -, done⟩⟩)
    · exact (parseMember_checked path image pos).1 row
    · exact ih next rest
    · exact not_overruns_ok _ done

theorem parseMemberTable_ranges {path image : Bytes} {memberCount pos : Nat} {rows : List MemberRow}
    (parsed : parseMemberTable path image memberCount pos = .ok rows) :
    ∀ row ∈ rows, row.offset + row.length ≤ image.length := by
  induction memberCount generalizing pos rows with
  | zero =>
    cases parsed
    simp
  | succ memberCount ih =>
    simp only [parseMemberTable, bind_eq_ok] at parsed
    obtain ⟨⟨row, next⟩, first, rest, table, done⟩ := parsed
    cases done
    intro member inRows
    rcases List.mem_cons.mp inRows with rfl | inRest
    · exact (parseMember_checked path image pos).2 _ _ first
    · exact ih table member inRest

def OpensSafely (path image : Bytes) : Prop :=
  (∀ pos width, openPackage path image ≠ .error (.overrun pos width)) ∧
    ∀ reader, openPackage path image = .ok reader →
      ∀ row ∈ reader.members, row.offset + row.length ≤ image.length

theorem openPackage_ranges {path image : Bytes} {reader : NcuPackageReader}
    (opened : openPackage path image = .ok reader) :
    ∀ row ∈ reader.members, row.offset + row.length ≤ image.length := by
  obtain ⟨_, _, _, _, _, _, _, _, _, table, rfl⟩ := openPackage_ok opened
  exact parseMemberTable_ranges table

theorem overruns_openPackage (path image : Bytes) :
    Overruns (openPackage path image) ↔ LengthPrefixCut image := by
  unfold openPackage LengthPrefixCut
  rw [overruns_bind, overruns_parseNpkgHeader]
  by_cases accepted : PreambleAccepted image
  swap
  · refine iff_of_false ?_ (fun h => accepted h.1)
    rintro (⟨h, -⟩ | ⟨⟨packageName, pos⟩, parsed, -⟩)
    · exact accepted h
    · exact accepted (parseNpkgHeader_ok parsed).1
  by_cases fits : 39 + wordAt 2 image 12 ≤ image.length
  swap
  · have noHeader : ∀ value, parseNpkgHeader image ≠ .ok value := by
      rintro ⟨packageName, pos⟩ parsed
      exact fits (parseNpkgHeader_ok parsed).2.1
    have noEntry : ¬ EntryPrefixCut image (40 + wordAt 2 image 12) := by
      rintro ⟨present, -⟩
      omega
    simp only [accepted, true_and, noHeader, false_and, exists_false, or_false, noEntry]
    omega
  rw [parseNpkgHeader_accepts accepted fits]
  simp only [accepted, true_and, Except.ok.injEq, exists_eq_left', getU32]
  rw [overruns_bind, overruns_getWord]
  by_cases inside : Inside image (36 + wordAt 2 image 12) 4
  · simp only [inside, not_true_eq_false, false_or, getWord_inside inside, Except.ok.injEq,
      exists_eq_left', Nat.add_right_comm 36 _ 4, Nat.reduceAdd]
    unfold Inside at inside
    have tail : ∀ value : Option NcuEntryRecord × Nat, ¬ Overruns (do
        let members ← parseMemberTable path image (wordAt 4 image (36 + wordAt 2 image 12)) value.2
        .ok (⟨window image 14 (wordAt 2 image 12), value.1, members⟩ : NcuPackageReader)) := by
      intro value
      rw [overruns_bind]
      rintro (table | ⟨rows, -, done⟩)
      · exact not_overruns_parseMemberTable _ _ _ _ table
      · exact not_overruns_ok _ done
    rw [overruns_bind, overruns_parseEntryRecord]
    constructor
    · rintro (short | cut | ⟨value, -, table⟩)
      · exact Or.inl short
      · exact Or.inr (Or.inr cut)
      · exact absurd table (tail value)
    · rintro (short | equal | cut)
      · exact Or.inl short
      · omega
      · exact Or.inr (Or.inl cut)
  · refine iff_of_true (Or.inr (Or.inl inside)) ?_
    unfold Inside at inside
    omega

/-- `Open` keeps its reads inside the image exactly on the images that do not end inside one of the
unchecked length prefixes. -/
theorem openPackage_safe_iff (path image : Bytes) :
    OpensSafely path image ↔ ¬ LengthPrefixCut image := by
  rw [← overruns_openPackage path image]
  constructor
  · rintro ⟨inside, -⟩ ⟨pos, width, overrun⟩
    exact inside pos width overrun
  · intro inside
    exact ⟨fun pos width overrun => inside ⟨pos, width, overrun⟩, fun _ opened => openPackage_ranges opened⟩

theorem openPackage_reads_past_twelve_bytes :
    ¬ OpensSafely [] (npkgMagic ++ putU16 1 ++ putU16 0) := by
  rintro ⟨inside, -⟩
  exact inside 12 2 (by decide)

end NLang.Package
