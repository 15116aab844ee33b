import NLang.Library.Words

/-!
# The `.npkg` container

`src/vm/NcuPackage.cpp`: the writer and the reader of a package archive. Strings of the source are
byte strings here, file contents included. Words are little-endian, as on every host the source is
built for. `getWord` reads through a raw pointer in the source; a read that leaves the image is the
outcome `Fault.overrun`, kept apart from the outcomes in which `Open` returns false with a message.
-/

namespace NLang.Package
open NLang.Library.Words

def ascii (text : String) : Bytes := text.toList.map fun c => UInt8.ofNat c.toNat

def npkgMagic : Bytes := [78, 76, 65, 78, 71, 80, 75, 71]
def npkgFormatMajor : Nat := 1
def npkgFormatMinor : Nat := 0
def npkgSignatureAlgoNone : Nat := 0

def putU16 (value : Nat) : Bytes := putWord 2 value
def putU32 (value : Nat) : Bytes := putWord 4 value
def putU64 (value : Nat) : Bytes := putWord 8 value
def putLenBytes (bytes : Bytes) : Bytes := putU16 bytes.length ++ bytes

def ncuChecksum (data : Bytes) : UInt64 :=
  data.foldl (fun hash byte => (hash ^^^ byte.toUInt64) * 1099511628211) 14695981039346656037

structure NcuEntryRecord where
  modulePath : Bytes
  functionName : Bytes
  deriving DecidableEq

structure NcuMember where
  modulePath : Bytes
  bytes : Bytes
  checksum : UInt64 := 0

structure NcuPackageWriter where
  members : List NcuMember := []

def NcuPackageWriter.addMember (writer : NcuPackageWriter) (member : NcuMember) :
    Bool × NcuPackageWriter :=
  if writer.members.any fun existing => existing.modulePath = member.modulePath then (false, writer)
  else
    (true, { members := writer.members ++ [{ member with checksum := ncuChecksum member.bytes }] })

def buildNpkgHeader (packageName : Bytes) (entryRecord : Option NcuEntryRecord)
    (memberCount : Nat) : Bytes :=
  npkgMagic ++ putU16 npkgFormatMajor ++ putU16 npkgFormatMinor ++ putLenBytes packageName ++
    putU32 0 ++ putU16 npkgSignatureAlgoNone ++ putU64 0 ++ putU64 0 ++ putU32 memberCount ++
    match entryRecord with
    | some entry => putLenBytes entry.modulePath ++ putLenBytes entry.functionName
    | none => [0]

def buildNpkgTable : List NcuMember → Nat → Bytes
  | [], _ => []
  | member :: rest, offset =>
    putLenBytes member.modulePath ++ putU64 offset ++ putU64 member.bytes.length ++
      putU64 member.checksum.toNat ++ buildNpkgTable rest (offset + member.bytes.length)

def sortMembers (members : List NcuMember) : List NcuMember :=
  members.insertionSort fun a b => a.modulePath ≤ b.modulePath

def NcuPackageWriter.write (writer : NcuPackageWriter) (packageName : Bytes)
    (entryRecord : Option NcuEntryRecord) : Bytes :=
  let members := sortMembers writer.members
  let header := buildNpkgHeader packageName entryRecord members.length
  let probe := buildNpkgTable members 0
  let table := buildNpkgTable members (header.length + probe.length)
  header ++ table ++ members.flatMap (·.bytes)

inductive Fault where
  | overrun (pos width : Nat)
  | rejected (message : Bytes)
  deriving DecidableEq

def getWord (width : Nat) (image : Bytes) (pos : Nat) : Except Fault Nat :=
  if Inside image pos width then .ok (wordAt width image pos) else .error (.overrun pos width)

def getU16 := getWord 2
def getU32 := getWord 4
def getU64 := getWord 8

def invalid (path : Bytes) (text : Bytes) : Fault :=
  .rejected (ascii "Invalid package '" ++ path ++ ascii "': " ++ text)

def parseNpkgHeader (image : Bytes) : Except Fault (Bytes × Nat) :=
  if image.length < 8 ∨ window image 0 8 ≠ npkgMagic then
    .error (.rejected (ascii "Invalid package: bad magic"))
  else if image.length < 12 then .error (.rejected (ascii "Invalid package: truncated header"))
  else do
    let major ← getU16 image 8
    let minor ← getU16 image 10
    if major ≠ npkgFormatMajor ∨ npkgFormatMinor < minor then
      .error (.rejected (ascii "Invalid package: unsupported format version " ++
        ascii (toString major) ++ ascii "." ++ ascii (toString minor)))
    else do
      let pos := 12
      let pkgNameLen ← getU16 image pos
      -- The signature descriptor is counted one byte wide here and two bytes wide below.
      if image.length < pos + 2 + pkgNameLen + 4 + 1 + 8 + 8 + 4 then
        .error (.rejected (ascii "Invalid package: truncated header"))
      else .ok (window image (pos + 2) pkgNameLen, pos + 2 + pkgNameLen + 4 + 18)

/-- The entry record at `pos` and the position after it; a lone NUL means there is none. -/
def parseEntryRecord (path image : Bytes) (pos : Nat) :
    Except Fault (Option NcuEntryRecord × Nat) :=
  if image.length ≤ pos then .error (invalid path (ascii "truncated header"))
  else if image.getD pos 0 = 0 then .ok (none, pos + 1)
  else do
    let modulePathLen ← getU16 image pos
    let pos := pos + 2
    if image.length < pos + modulePathLen then .error (invalid path (ascii "truncated entry record"))
    else do
      let modulePath := window image pos modulePathLen
      let pos := pos + modulePathLen
      let functionNameLen ← getU16 image pos
      let pos := pos + 2
      if image.length < pos + functionNameLen then
        .error (invalid path (ascii "truncated entry record"))
      else .ok (some ⟨modulePath, window image pos functionNameLen⟩, pos + functionNameLen)

structure MemberRow where
  modulePath : Bytes
  offset : Nat
  length : Nat
  bytes : Bytes
  checksum : UInt64
  deriving DecidableEq

def parseMember (path image : Bytes) (pos : Nat) : Except Fault (MemberRow × Nat) :=
  if image.length < pos + 2 then .error (invalid path (ascii "truncated member table"))
  else do
    let pathLen ← getU16 image pos
    let pos := pos + 2
    if image.length < pos + pathLen + 8 * 3 then
      .error (invalid path (ascii "truncated member table"))
    else do
      let modulePath := window image pos pathLen
      let pos := pos + pathLen
      let offset ← getU64 image pos
      let length ← getU64 image (pos + 8)
      let checksum ← getU64 image (pos + 16)
      if image.length < offset ∨ image.length - offset < length then
        .error (invalid path (ascii "member '" ++ modulePath ++ ascii "' is out of bounds"))
      else
        .ok (⟨modulePath, offset, length, window image offset length, UInt64.ofNat checksum⟩, pos + 8 * 3)

def parseMemberTable (path image : Bytes) : Nat → Nat → Except Fault (List MemberRow)
  | 0, _ => .ok []
  | memberCount + 1, pos => do
      let (row, pos) ← parseMember path image pos
      let rows ← parseMemberTable path image memberCount pos
      .ok (row :: rows)

structure NcuPackageReader where
  packageName : Bytes
  entry : Option NcuEntryRecord
  members : List MemberRow
  deriving DecidableEq

def NcuPackageReader.memberPaths (reader : NcuPackageReader) : List Bytes :=
  reader.members.map (·.modulePath)

def openPackage (path image : Bytes) : Except Fault NcuPackageReader := do
  let (packageName, pos) ← parseNpkgHeader image
  let memberCount ← getU32 image pos
  let (entry, pos) ← parseEntryRecord path image (pos + 4)
  let members ← parseMemberTable path image memberCount pos
  .ok ⟨packageName, entry, members⟩

def NcuPackageReader.extractMember (reader : NcuPackageReader) (modulePath : Bytes) :
    Except Bytes Bytes :=
  match reader.members.find? fun row => row.modulePath = modulePath with
  | some row =>
    if ncuChecksum row.bytes ≠ row.checksum then
      .error (ascii "Package '" ++ reader.packageName ++ ascii "': member '" ++ modulePath ++
        ascii "' failed its checksum")
    else .ok row.bytes
  | none =>
    .error (ascii "Package '" ++ reader.packageName ++ ascii "': member '" ++ modulePath ++
      ascii "' is not a member of the package")

theorem bind_eq_ok {α β : Type} {first : Except Fault α} {next : α → Except Fault β} {result : β} :
    first >>= next = .ok result ↔ ∃ value, first = .ok value ∧ next value = .ok result := by
  cases first <;> simp [bind, Except.bind]

theorem openPackage_ok {path image : Bytes} {reader : NcuPackageReader}
    (opened : openPackage path image = .ok reader) :
    ∃ packageName pos memberCount entry next members,
      parseNpkgHeader image = .ok (packageName, pos) ∧ getU32 image pos = .ok memberCount ∧
      parseEntryRecord path image (pos + 4) = .ok (entry, next) ∧
      parseMemberTable path image memberCount next = .ok members ∧
      reader = ⟨packageName, entry, members⟩ := by
  simp only [openPackage, bind_eq_ok] at opened
  obtain ⟨⟨packageName, pos⟩, header, memberCount, count, ⟨entry, next⟩, record, members, table, done⟩ :=
    opened
  exact ⟨packageName, pos, memberCount, entry, next, members, header, count, record, table,
    (Except.ok.inj done).symm⟩

theorem getWord_inside {width : Nat} {image : Bytes} {pos : Nat} (inside : Inside image pos width) :
    getWord width image pos = .ok (wordAt width image pos) := if_pos inside

theorem getWord_outside {width : Nat} {image : Bytes} {pos : Nat}
    (outside : ¬ Inside image pos width) :
    getWord width image pos = .error (.overrun pos width) := if_neg outside

end NLang.Package
