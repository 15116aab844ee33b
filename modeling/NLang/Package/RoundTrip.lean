import NLang.Package.Bounds

/-!
# Reading back a written package

The writer's output is parsed piece by piece: each lemma takes an image split at the piece and gives
the parse of that piece. The entry record is where the two sides disagree: an absent record is one
NUL byte, and a present one starts with the low byte of its path length.
-/

namespace NLang.Package
open NLang.Library.Words

def NcuPackageWriter.addMembers (writer : NcuPackageWriter) (members : List NcuMember) :
    NcuPackageWriter :=
  members.foldl (fun writer member => (writer.addMember member).2) writer

def stamp (member : NcuMember) : NcuMember := { member with checksum := ncuChecksum member.bytes }

def entryBytes : Option NcuEntryRecord → Bytes
  | some entry => putLenBytes entry.modulePath ++ putLenBytes entry.functionName
  | none => [0]

def rowsOf : List NcuMember → Nat → List MemberRow
  | [], _ => []
  | member :: rest, offset =>
    ⟨member.modulePath, offset, member.bytes.length, member.bytes, member.checksum⟩ ::
      rowsOf rest (offset + member.bytes.length)

theorem putLenBytes_length (bytes : Bytes) : (putLenBytes bytes).length = 2 + bytes.length := by
  simp [putLenBytes, putU16]

theorem getWord_follows {width value pos : Nat} {image tail : Bytes}
    (follows : Follows image pos (putWord width value ++ tail)) (small : value < 256 ^ width) :
    getWord width image pos = .ok value := by
  have inside := follows.inside
  rw [putWord_length] at inside
  rw [getWord_inside inside, follows.wordAt_eq small]

theorem addMembers_distinct (writer : NcuPackageWriter) (members : List NcuMember)
    (distinct : (members.map (·.modulePath)).Nodup)
    (fresh : ∀ member ∈ members, ∀ existing ∈ writer.members,
      existing.modulePath ≠ member.modulePath) :
    (writer.addMembers members).members = writer.members ++ members.map stamp := by
  induction members generalizing writer with
  | nil => simp [NcuPackageWriter.addMembers]
  | cons member rest ih =>
    have accepted : (writer.addMember member).2.members = writer.members ++ [stamp member] := by
      have none : ¬ (writer.members.any fun existing => existing.modulePath = member.modulePath) := by
        simpa using fresh member List.mem_cons_self
      simp only [NcuPackageWriter.addMember, if_neg none, stamp]
    simp only [List.map_cons, List.nodup_cons] at distinct
    have restFresh : ∀ later ∈ rest, ∀ existing ∈ (writer.addMember member).2.members,
        existing.modulePath ≠ later.modulePath := by
      intro later inRest existing inWriter
      rw [accepted, List.mem_append, List.mem_singleton] at inWriter
      rcases inWriter with old | rfl
      · exact fresh later (List.mem_cons_of_mem _ inRest) existing old
      · intro same
        exact distinct.1 (List.mem_map.mpr ⟨later, inRest, same.symm⟩)
    have step : writer.addMembers (member :: rest) = (writer.addMember member).2.addMembers rest := rfl
    rw [step, ih _ distinct.2 restFresh, accepted, List.append_assoc, List.map_cons,
      List.singleton_append]

theorem buildNpkgTable_length (members : List NcuMember) (offset other : Nat) :
    (buildNpkgTable members offset).length = (buildNpkgTable members other).length := by
  induction members generalizing offset other with
  | nil => rfl
  | cons member rest ih =>
    simp only [buildNpkgTable, List.length_append, putU64, putWord_length]
    rw [ih]

section Parsing
variable {path image tail : Bytes} {pos : Nat}

theorem parseEntryRecord_marker (follows : Follows image pos (0 :: tail)) :
    parseEntryRecord path image pos = .ok (none, pos + 1) := by
  have size := follows.length_eq
  rw [List.length_cons] at size
  rw [parseEntryRecord, if_neg (by omega), if_pos follows.getD_eq]

theorem parseEntryRecord_lost {entry : NcuEntryRecord}
    (follows : Follows image pos (entryBytes (some entry) ++ tail))
    (lowByte : entry.modulePath.length % 256 = 0) :
    parseEntryRecord path image pos = .ok (none, pos + 1) := by
  have marker : entryBytes (some entry) ++ tail =
      UInt8.ofNat entry.modulePath.length :: ((entryBytes (some entry)).tail ++ tail) := rfl
  rw [marker, (ofNat_eq_zero_iff _).mpr lowByte] at follows
  exact parseEntryRecord_marker follows

theorem parseEntryRecord_some {entry : NcuEntryRecord}
    (follows : Follows image pos (entryBytes (some entry) ++ tail))
    (lowByte : entry.modulePath.length % 256 ≠ 0) (pathFits : entry.modulePath.length < 65536)
    (nameFits : entry.functionName.length < 65536) :
    parseEntryRecord path image pos = .ok (some entry, pos + (entryBytes (some entry)).length) := by
  obtain ⟨modulePath, functionName⟩ := entry
  have marker : image.getD pos 0 ≠ 0 := by
    rw [follows.getD_eq]
    exact fun zero => lowByte ((ofNat_eq_zero_iff _).mp zero)
  simp only [entryBytes, putLenBytes, putU16, List.append_assoc] at follows ⊢
  have atPath := follows.skip (pos + 2) (by simp)
  have atNameLen := atPath.skip _ rfl
  have atName := atNameLen.skip (pos + 2 + modulePath.length + 2) (by simp)
  have size := atName.length_eq
  rw [List.length_append] at size
  rw [parseEntryRecord, if_neg (by omega), if_neg marker]
  simp only [getU16, getWord_follows follows pathFits, getWord_follows atNameLen nameFits,
    atPath.window_eq, atName.window_eq, bind, Except.bind]
  rw [if_neg (by omega), if_neg (by omega)]
  simp only [Except.ok.injEq, Prod.mk.injEq, true_and, List.length_append, putWord_length]
  omega

theorem parseMember_row {member : NcuMember} {offset : Nat}
    (follows : Follows image pos (putLenBytes member.modulePath ++ putU64 offset ++
      putU64 member.bytes.length ++ putU64 member.checksum.toNat ++ tail))
    (pathFits : member.modulePath.length < 65536) {blobs : Bytes}
    (blob : Follows image offset (member.bytes ++ blobs)) (small : image.length < 2 ^ 64)
    (path : Bytes) :
    parseMember path image pos =
      .ok (⟨member.modulePath, offset, member.bytes.length, member.bytes, member.checksum⟩,
        pos + 2 + member.modulePath.length + 24) := by
  simp only [putLenBytes, putU16, putU64, List.append_assoc] at follows
  have atPath := follows.skip (pos + 2) (by simp)
  have atOffset := atPath.skip _ rfl
  have atLength := atOffset.skip (pos + 2 + member.modulePath.length + 8) (by simp)
  have atChecksum := atLength.skip (pos + 2 + member.modulePath.length + 16) (by simp)
  have size := atChecksum.length_eq
  have blobSize := blob.length_eq
  rw [List.length_append] at size blobSize
  rw [putWord_length] at size
  have offsetSmall : offset < 256 ^ 8 := by omega
  have lengthSmall : member.bytes.length < 256 ^ 8 := by omega
  rw [parseMember, if_neg (by omega)]
  simp only [getU16, getU64, getWord_follows follows pathFits, atPath.window_eq,
    getWord_follows atOffset offsetSmall, getWord_follows atLength lengthSmall,
    getWord_follows atChecksum member.checksum.toNat_lt, blob.window_eq, bind, Except.bind]
  rw [if_neg (by omega), if_neg (by omega)]
  simp only [UInt64.ofNat_toNat]

theorem parseMemberTable_rows (path : Bytes) {members : List NcuMember} {offset : Nat}
    (follows : Follows image pos (buildNpkgTable members offset ++ tail))
    (pathsFit : ∀ member ∈ members, member.modulePath.length < 65536)
    (blobs : Follows image offset (members.flatMap (·.bytes))) (small : image.length < 2 ^ 64) :
    parseMemberTable path image members.length pos = .ok (rowsOf members offset) := by
  induction members generalizing pos offset with
  | nil => rfl
  | cons member rest ih =>
    rw [buildNpkgTable, List.append_assoc] at follows
    rw [List.flatMap_cons] at blobs
    have first := parseMember_row follows (pathsFit member List.mem_cons_self) blobs small path
    -- The rest of the table starts behind this row, its blobs behind this member's bytes.
    have atRest := follows.skip (pos + 2 + member.modulePath.length + 24)
      (by simp [putLenBytes_length, putU64]; omega)
    have table := ih atRest (fun later inRest => pathsFit later (List.mem_cons_of_mem _ inRest))
      (blobs.skip _ rfl)
    simp only [List.length_cons, parseMemberTable, first, bind, Except.bind, table, rowsOf]

theorem parseMemberTable_length {memberCount : Nat} {rows : List MemberRow}
    (parsed : parseMemberTable path image memberCount pos = .ok rows) :
    rows.length = memberCount := by
  induction memberCount generalizing pos rows with
  | zero =>
    cases parsed
    rfl
  | succ memberCount ih =>
    simp only [parseMemberTable, bind_eq_ok] at parsed
    obtain ⟨⟨row, next⟩, -, rest, table, done⟩ := parsed
    cases done
    rw [List.length_cons, ih table]

end Parsing

def writtenHead (packageName : Bytes) (memberCount : Nat) : Bytes :=
  npkgMagic ++ (putWord 2 npkgFormatMajor ++ (putWord 2 npkgFormatMinor ++
    (putWord 2 packageName.length ++ (packageName ++ (putWord 4 0 ++ (putWord 2 0 ++
      (putWord 8 0 ++ (putWord 8 0 ++ putWord 4 memberCount))))))))

theorem writtenHead_length (packageName : Bytes) (memberCount : Nat) :
    (writtenHead packageName memberCount).length = 40 + packageName.length := by
  simp [writtenHead, npkgMagic]
  omega

theorem buildNpkgHeader_eq (packageName : Bytes) (entry : Option NcuEntryRecord) (memberCount : Nat) :
    buildNpkgHeader packageName entry memberCount =
      writtenHead packageName memberCount ++ entryBytes entry := by
  cases entry <;>
    simp only [buildNpkgHeader, writtenHead, entryBytes, putLenBytes, putU16, putU32, putU64,
      npkgSignatureAlgoNone, List.append_assoc]

theorem write_eq (writer : NcuPackageWriter) (packageName : Bytes) (entry : Option NcuEntryRecord) :
    ∃ offset, writer.write packageName entry =
        writtenHead packageName (sortMembers writer.members).length ++ (entryBytes entry ++
          (buildNpkgTable (sortMembers writer.members) offset ++
            (sortMembers writer.members).flatMap (·.bytes))) ∧
      offset = 40 + packageName.length + (entryBytes entry).length +
        (buildNpkgTable (sortMembers writer.members) offset).length := by
  refine ⟨(buildNpkgHeader packageName entry (sortMembers writer.members).length).length +
    (buildNpkgTable (sortMembers writer.members) 0).length, ?_, ?_⟩
  · simp only [NcuPackageWriter.write, buildNpkgHeader_eq, List.append_assoc]
  · rw [buildNpkgHeader_eq, List.length_append, writtenHead_length]
    exact congrArg _ (buildNpkgTable_length _ _ _)

theorem parseNpkgHeader_written {packageName tail image : Bytes} {memberCount : Nat}
    (split : image = writtenHead packageName memberCount ++ tail)
    (nameFits : packageName.length < 65536) :
    parseNpkgHeader image = .ok (packageName, 36 + packageName.length) ∧
      getU32 image (36 + packageName.length) = .ok (memberCount % 2 ^ 32) := by
  have start : Follows image 0 (writtenHead packageName memberCount ++ tail) := split ▸ Follows.start _
  simp only [writtenHead, List.append_assoc] at start
  have atMajor := start.skip 8 rfl
  have atMinor := atMajor.skip 10 rfl
  have atNameLen := atMinor.skip 12 rfl
  have atName := atNameLen.skip 14 rfl
  have atFlags := atName.skip (14 + packageName.length) rfl
  have atAlgo := atFlags.skip (18 + packageName.length) (by simp; omega)
  have atSignature := atAlgo.skip (20 + packageName.length) (by simp; omega)
  have atSignatureEnd := atSignature.skip (28 + packageName.length) (by simp; omega)
  have atCount := atSignatureEnd.skip (36 + packageName.length) (by simp; omega)
  have size := atCount.length_eq
  rw [List.length_append, putWord_length] at size
  have nameLen : wordAt 2 image 12 = packageName.length := atNameLen.wordAt_eq nameFits
  have accepted : PreambleAccepted image := by
    refine ⟨by omega, start.window_eq, atMajor.wordAt_eq (by decide), ?_⟩
    rw [atMinor.wordAt_eq (by decide)]
  have parsed := parseNpkgHeader_accepts accepted (by omega)
  rw [nameLen, atName.window_eq] at parsed
  refine ⟨parsed, ?_⟩
  have inside := atCount.inside
  have cut := atCount.window_eq
  rw [putWord_length] at inside cut
  rw [getU32, getWord_inside inside, wordAt, cut, wordOf_putWord]
  rfl

theorem sortMembers_perm (members : List NcuMember) : (sortMembers members).Perm members :=
  List.perm_insertionSort _ _

instance : Std.Total fun a b : NcuMember => a.modulePath ≤ b.modulePath :=
  ⟨fun a b => List.le_total a.modulePath b.modulePath⟩

instance : IsTrans NcuMember fun a b => a.modulePath ≤ b.modulePath := ⟨fun _ _ _ => List.le_trans⟩

theorem sortMembers_sorted (members : List NcuMember) (distinct : (members.map (·.modulePath)).Nodup) :
    ((sortMembers members).map (·.modulePath)).Pairwise (· < ·) := by
  have ordered : (sortMembers members).Pairwise fun a b => a.modulePath ≤ b.modulePath :=
    List.pairwise_insertionSort _ members
  have separate := distinct.perm ((sortMembers_perm members).map (·.modulePath)).symm
  rw [List.pairwise_map]
  rw [List.Nodup, List.pairwise_map] at separate
  exact (ordered.and separate).imp fun h => Std.lt_of_le_of_ne h.1 h.2

theorem find_rowsOf {members : List NcuMember} (distinct : (members.map (·.modulePath)).Nodup)
    {member : NcuMember} (inMembers : member ∈ members) (offset : Nat) :
    ∃ start, (rowsOf members offset).find? (fun row => row.modulePath = member.modulePath) =
      some ⟨member.modulePath, start, member.bytes.length, member.bytes, member.checksum⟩ := by
  induction members generalizing offset with
  | nil => cases inMembers
  | cons first rest ih =>
    simp only [List.map_cons, List.nodup_cons] at distinct
    rcases List.mem_cons.mp inMembers with rfl | inRest
    · exact ⟨offset, by simp [rowsOf]⟩
    · have differ : first.modulePath ≠ member.modulePath := fun same =>
        distinct.1 (same ▸ List.mem_map_of_mem inRest)
      obtain ⟨start, found⟩ := ih distinct.2 inRest (offset + first.bytes.length)
      exact ⟨start, by rw [rowsOf, List.find?_cons_of_neg (by simpa using differ), found]⟩

theorem rowsOf_paths (members : List NcuMember) (offset : Nat) :
    (rowsOf members offset).map (·.modulePath) = members.map (·.modulePath) := by
  induction members generalizing offset with
  | nil => rfl
  | cons member rest ih => simp [rowsOf, ih]

def packed (packageName : Bytes) (entry : Option NcuEntryRecord) (members : List NcuMember) : Bytes :=
  (NcuPackageWriter.addMembers {} members).write packageName entry

structure Packable (packageName : Bytes) (entry : Option NcuEntryRecord)
    (members : List NcuMember) : Prop where
  distinct : (members.map (·.modulePath)).Nodup
  nameFits : packageName.length < 65536
  entryFits : ∀ record ∈ entry, record.modulePath.length < 65536 ∧ record.functionName.length < 65536
  pathsFit : ∀ member ∈ members, member.modulePath.length < 65536
  imageFits : (packed packageName entry members).length < 2 ^ 64

def RoundTrips (path packageName : Bytes) (entry : Option NcuEntryRecord)
    (members : List NcuMember) : Prop :=
  ∃ reader, openPackage path (packed packageName entry members) = .ok reader ∧
    reader.packageName = packageName ∧ reader.entry = entry ∧
    reader.memberPaths.Pairwise (· < ·) ∧ reader.memberPaths.Perm (members.map (·.modulePath)) ∧
    ∀ member ∈ members, reader.extractMember member.modulePath = .ok member.bytes

def EntryMarked (entry : Option NcuEntryRecord) : Prop :=
  ∀ record ∈ entry, record.modulePath.length % 256 ≠ 0

instance (entry : Option NcuEntryRecord) : Decidable (EntryMarked entry) :=
  inferInstanceAs (Decidable (∀ record ∈ entry, record.modulePath.length % 256 ≠ 0))

theorem stamp_paths (members : List NcuMember) :
    (members.map stamp).map (·.modulePath) = members.map (·.modulePath) := by
  rw [List.map_map]
  rfl

theorem packed_members {members : List NcuMember} (distinct : (members.map (·.modulePath)).Nodup) :
    (NcuPackageWriter.addMembers {} members).members = members.map stamp := by
  rw [addMembers_distinct _ _ distinct (fun _ _ _ impossible => by cases impossible)]
  rfl

section Written
variable {path packageName : Bytes} {entry : Option NcuEntryRecord} {members : List NcuMember}

theorem openPackage_packed (path : Bytes) (packable : Packable packageName entry members) :
    ∃ offset, openPackage path (packed packageName entry members) = (do
        let (record, pos) ← parseEntryRecord path (packed packageName entry members)
          (40 + packageName.length)
        let rows ← parseMemberTable path (packed packageName entry members)
          (members.length % 2 ^ 32) pos
        .ok (⟨packageName, record, rows⟩ : NcuPackageReader)) ∧
      Follows (packed packageName entry members) (40 + packageName.length) (entryBytes entry ++
        (buildNpkgTable (sortMembers (members.map stamp)) offset ++
          (sortMembers (members.map stamp)).flatMap (·.bytes))) ∧
      offset = 40 + packageName.length + (entryBytes entry).length +
        (buildNpkgTable (sortMembers (members.map stamp)) offset).length := by
  obtain ⟨offset, split, start⟩ := write_eq (NcuPackageWriter.addMembers {} members) packageName entry
  rw [packed_members packable.distinct] at split start
  refine ⟨offset, ?_, ⟨_, split, (writtenHead_length _ _).symm⟩, start⟩
  change packed packageName entry members = _ at split
  obtain ⟨header, count⟩ := parseNpkgHeader_written split packable.nameFits
  have size : (sortMembers (members.map stamp)).length = members.length := by
    rw [(sortMembers_perm _).length_eq, List.length_map]
  rw [size] at count
  simp only [openPackage, header, count, bind, Except.bind]
  rw [Nat.add_right_comm]

theorem roundTrips_of_marked (packable : Packable packageName entry members)
    (marked : EntryMarked entry) (countFits : members.length < 2 ^ 32) :
    RoundTrips path packageName entry members := by
  obtain ⟨offset, opened, atEntry, start⟩ := openPackage_packed path packable
  have record : parseEntryRecord path (packed packageName entry members) (40 + packageName.length) =
      .ok (entry, 40 + packageName.length + (entryBytes entry).length) := by
    cases entry with
    | none => exact parseEntryRecord_marker atEntry
    | some entry =>
      obtain ⟨pathFits, nameFits⟩ := packable.entryFits entry rfl
      exact parseEntryRecord_some atEntry (marked entry rfl) pathFits nameFits
  have atTable := atEntry.skip _ rfl
  have pathsFit : ∀ member ∈ sortMembers (members.map stamp), member.modulePath.length < 65536 := by
    intro member inSorted
    obtain ⟨original, inMembers, rfl⟩ := List.mem_map.mp ((sortMembers_perm _).mem_iff.mp inSorted)
    exact packable.pathsFit original inMembers
  have size : (sortMembers (members.map stamp)).length = members.length := by
    rw [(sortMembers_perm _).length_eq, List.length_map]
  have table := parseMemberTable_rows path atTable pathsFit (atTable.skip _ start)
    packable.imageFits
  rw [size] at table
  have distinct : ((members.map stamp).map (·.modulePath)).Nodup := by
    rw [stamp_paths]
    exact packable.distinct
  have permuted := (sortMembers_perm (members.map stamp)).map (·.modulePath)
  refine ⟨⟨packageName, entry, rowsOf (sortMembers (members.map stamp)) offset⟩, ?_, rfl, rfl, ?_, ?_, ?_⟩
  · rw [opened, record, Nat.mod_eq_of_lt countFits]
    simp only [bind, Except.bind, table]
  · rw [NcuPackageReader.memberPaths, rowsOf_paths]
    exact sortMembers_sorted _ distinct
  · rw [NcuPackageReader.memberPaths, rowsOf_paths, ← stamp_paths members]
    exact permuted
  · intro member inMembers
    have inSorted : stamp member ∈ sortMembers (members.map stamp) :=
      (sortMembers_perm _).mem_iff.mpr (List.mem_map_of_mem inMembers)
    obtain ⟨position, found⟩ := find_rowsOf (distinct.perm permuted.symm) inSorted offset
    change NcuPackageReader.extractMember _ (stamp member).modulePath = _
    simp only [NcuPackageReader.extractMember, found]
    rw [if_neg (by simp [stamp])]
    rfl

theorem marked_of_roundTrips (packable : Packable packageName entry members)
    (roundTrips : RoundTrips path packageName entry members) :
    EntryMarked entry ∧ members.length < 2 ^ 32 := by
  obtain ⟨offset, opened, atEntry, -⟩ := openPackage_packed path packable
  obtain ⟨reader, readBack, -, sameEntry, -, samePaths, -⟩ := roundTrips
  rw [opened] at readBack
  constructor
  · rintro record rfl lowByte
    rw [parseEntryRecord_lost atEntry lowByte] at readBack
    simp only [bind_eq_ok, Except.ok.injEq, exists_eq_left'] at readBack
    obtain ⟨rows, -, rfl⟩ := readBack
    cases sameEntry
  · simp only [bind_eq_ok] at readBack
    obtain ⟨⟨record, pos⟩, -, rows, table, done⟩ := readBack
    cases done
    have count := parseMemberTable_length table
    have size := samePaths.length_eq
    simp only [NcuPackageReader.memberPaths, List.length_map] at size
    omega

end Written

/-- A written package reads back exactly when its entry record is recognisable and the 32-bit member
count does not wrap. -/
theorem npkg_roundTrips_iff (path packageName : Bytes) (entry : Option NcuEntryRecord)
    (members : List NcuMember) (packable : Packable packageName entry members) :
    RoundTrips path packageName entry members ↔ EntryMarked entry ∧ members.length < 2 ^ 32 :=
  ⟨marked_of_roundTrips packable, fun h => roundTrips_of_marked packable h.1 h.2⟩

def sampleEntry : NcuEntryRecord := ⟨[109], [109]⟩
def sampleMembers : List NcuMember := [{ modulePath := [109], bytes := [1, 2] }]

theorem sample_packable : Packable [112] (some sampleEntry) sampleMembers where
  distinct := by decide
  nameFits := by decide
  entryFits := by decide
  pathsFit := by decide
  imageFits := by decide

theorem npkg_roundTrips_sample : RoundTrips [] [112] (some sampleEntry) sampleMembers :=
  (npkg_roundTrips_iff [] [112] (some sampleEntry) sampleMembers sample_packable).mpr
    ⟨by decide, by decide⟩

def longEntry : NcuEntryRecord := ⟨List.replicate 256 109, [109]⟩

theorem longEntry_packable : Packable [112] (some longEntry) [] where
  distinct := by decide
  nameFits := by decide
  entryFits := by decide +kernel
  pathsFit := by decide
  imageFits := by decide +kernel

theorem npkg_longEntry_lost :
    Packable [112] (some longEntry) [] ∧ ¬ RoundTrips [] [112] (some longEntry) [] := by
  refine ⟨longEntry_packable, fun roundTrips => ?_⟩
  have marked := (marked_of_roundTrips longEntry_packable roundTrips).1
  exact absurd marked (by decide +kernel)

end NLang.Package
