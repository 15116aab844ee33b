import NLang.Library.Runs
import NLang.Library.Words
import NLang.Vm.ScalarPrims

/-!
# The cursor of a byte stream

The methods of `IntrinsicsByteStream.cpp` on an open stream. Reads and writes share the cursor, and writes append to the
buffer wherever it is. Every error ends the program.
-/

namespace NLang.Vm.StreamCursor
open NLang.Library.Words NLang.Library.Runs

inductive Kind where
  | int | float | long | double | string
  | record (size : Nat)

inductive Value where
  | int (bits : UInt32)
  | float (bits : UInt32)
  | long (bits : UInt64)
  | double (bits : UInt64)
  | string (content : Bytes)
  | record (bytes : Bytes)
  deriving DecidableEq

namespace Value

def kind : Value → Kind
  | int _ => .int
  | float _ => .float
  | long _ => .long
  | double _ => .double
  | string _ => .string
  | record bytes => .record bytes.length

def bytes : Value → Bytes
  | int bits | float bits => putWord 4 bits.toNat
  | long bits | double bits => putWord 8 bits.toNat
  | string content => putWord 4 content.length ++ content
  | record bytes => bytes

end Value

structure StreamState where
  buf : Bytes := []
  pos : Nat := 0

def maxStringLength : Nat := 16 * 1024 * 1024

def sizeOfInt (n : Nat) : Nat := if n % 2 ^ 32 < 2 ^ 31 then n % 2 ^ 32 else n % 2 ^ 32 + (2 ^ 64 - 2 ^ 32)

section Methods
variable (st : StreamState)

def append (chunk : Bytes) (advance : Nat) : StreamState := { buf := st.buf ++ chunk, pos := st.pos + advance }

def writeInt (bits : UInt32) : StreamState := append st (putWord 4 bits.toNat) 4
def writeFloat (bits : UInt32) : StreamState := append st (putWord 4 bits.toNat) 4
def writeLong (bits : UInt64) : StreamState := append st (putWord 8 bits.toNat) 8
def writeDouble (bits : UInt64) : StreamState := append st (putWord 8 bits.toNat) 8

def writeString (s : Bytes) : StreamState := append st (putWord 4 s.length ++ s) (4 + sizeOfInt s.length)

def writeRecord (bytes : Bytes) : StreamState := append st bytes bytes.length

def write : Value → StreamState
  | .int bits => writeInt st bits
  | .float bits => writeFloat st bits
  | .long bits => writeLong st bits
  | .double bits => writeDouble st bits
  | .string s => writeString st s
  | .record bytes => writeRecord st bytes

def readBytes (count : Nat) : Option (Bytes × StreamState) :=
  if st.pos + count ≤ st.buf.length then some (window st.buf st.pos count, { st with pos := st.pos + count }) else none

def readScalar (width : Nat) (make : Nat → Value) : Option (Value × StreamState) :=
  (readBytes st width).map fun (chunk, st) => (make (wordOf chunk), st)

def readInt : Option (Value × StreamState) := readScalar st 4 fun bits => .int (UInt32.ofNat bits)
def readFloat : Option (Value × StreamState) := readScalar st 4 fun bits => .float (UInt32.ofNat bits)
def readLong : Option (Value × StreamState) := readScalar st 8 fun bits => .long (UInt64.ofNat bits)
def readDouble : Option (Value × StreamState) := readScalar st 8 fun bits => .double (UInt64.ofNat bits)

def readString : Option (Value × StreamState) := do
  let (chunk, st) ← readBytes st 4
  let len := wordOf chunk
  if 2 ^ 31 ≤ len ∨ maxStringLength < len then none
  else do
    let (content, st) ← readBytes st len
    return (.string content, st)

def readRecord (size : Nat) : Option (Value × StreamState) := (readBytes st size).map fun (bytes, st) => (.record bytes, st)

def read : Kind → Option (Value × StreamState)
  | .int => readInt st
  | .float => readFloat st
  | .long => readLong st
  | .double => readDouble st
  | .string => readString st
  | .record size => readRecord st size

def reset : StreamState := { st with pos := 0 }

def position : Int := ScalarPrim.wrap .int32 st.pos
def length : Int := ScalarPrim.wrap .int32 st.buf.length

def readAll : List Kind → StreamState → Option (List Value × StreamState)
  | [], st => some ([], st)
  | kind :: kinds, st => do
      let (v, st) ← read st kind
      let (rest, st) ← readAll kinds st
      return (v :: rest, st)

end Methods

structure Session where
  stream : StreamState := {}
  written : List Value := []
  passed : Bytes := []

inductive Op where
  | write (v : Value)
  | read (kind : Kind)
  | reset
  | position
  | length

def step (s : Session) : Op → Option Session
  | .write v => some { stream := write s.stream v, written := s.written ++ [v], passed := s.passed ++ v.bytes }
  | .read kind => (read s.stream kind).map fun (v, stream) => { s with stream, passed := s.passed ++ v.bytes }
  | .reset => some { s with stream := reset s.stream, passed := [] }
  | .position | .length => some s

/-- The cursor is inside, has passed nothing but what was read or written, and the values are read back in their order. -/
structure Disciplined (s : Session) : Prop where
  inside : s.stream.pos ≤ s.stream.buf.length
  reported : position s.stream = s.stream.pos ∧ length s.stream = s.stream.buf.length
  contents : s.stream.buf = s.written.flatMap Value.bytes
  passed : s.stream.buf.take s.stream.pos = s.passed
  reads : ∀ kind v last, read s.stream kind = some (v, last) → v.kind = kind ∧
    v.bytes = window s.stream.buf s.stream.pos v.bytes.length ∧ last = { s.stream with pos := s.stream.pos + v.bytes.length }
  replays : ∀ before after, s.written = before ++ after → s.stream.pos = (before.flatMap Value.bytes).length →
    readAll (after.map Value.kind) s.stream = some (after, { s.stream with pos := s.stream.buf.length })
  afterReset : readAll (s.written.map Value.kind) (reset s.stream) = some (s.written, { s.stream with pos := s.stream.buf.length })

def Value.Short : Value → Prop
  | .string content => content.length ≤ maxStringLength
  | _ => True

def AtEnd (s : Session) : Op → Prop
  | .write v => s.stream.pos = s.stream.buf.length ∧ v.Short ∧ s.stream.buf.length + v.bytes.length < 2 ^ 31
  | _ => True

section Reads
variable {st last : StreamState} {v : Value} {kind : Kind} {chunk tail : Bytes} {count width : Nat}

theorem readBytes_eq_some : readBytes st count = some (chunk, last) ↔
    Inside st.buf st.pos count ∧ window st.buf st.pos count = chunk ∧ { st with pos := st.pos + count } = last := by
  unfold readBytes Inside
  split <;> simp [*]

theorem window_length (inside : Inside st.buf st.pos count) : (window st.buf st.pos count).length = count := by
  unfold Inside at inside
  rw [window, List.length_take, List.length_drop]
  omega

def ReadsAt (st : StreamState) (kind : Kind) (v : Value) (last : StreamState) : Prop :=
  v.kind = kind ∧ v.bytes = window st.buf st.pos v.bytes.length ∧ last = { st with pos := st.pos + v.bytes.length }

theorem readScalar_spec {make : Nat → Value} (done : readScalar st width make = some (v, last))
    (same : ∀ chunk : Bytes, chunk.length = width → (make (wordOf chunk)).kind = kind ∧ (make (wordOf chunk)).bytes = chunk) :
    ReadsAt st kind v last := by
  obtain ⟨⟨chunk, after⟩, taken, made⟩ := Option.map_eq_some_iff.mp done
  cases made
  obtain ⟨inside, rfl, rfl⟩ := readBytes_eq_some.mp taken
  have length := window_length inside
  obtain ⟨isKind, isBytes⟩ := same _ length
  unfold ReadsAt
  rw [isBytes, length]
  exact ⟨isKind, rfl, rfl⟩

theorem word4 (chunk : Bytes) (length : chunk.length = 4) : putWord 4 (UInt32.ofNat (wordOf chunk)).toNat = chunk := by
  have small := wordOf_lt chunk
  have same := putWord_wordOf chunk
  rw [length] at small same
  rwa [UInt32.toNat_ofNat', Nat.mod_eq_of_lt (by omega)]

theorem word8 (chunk : Bytes) (length : chunk.length = 8) : putWord 8 (UInt64.ofNat (wordOf chunk)).toNat = chunk := by
  have small := wordOf_lt chunk
  have same := putWord_wordOf chunk
  rw [length] at small same
  rwa [UInt64.toNat_ofNat', Nat.mod_eq_of_lt (by omega)]

theorem window_append {pos first second : Nat} (bytes : Bytes) :
    window bytes pos first ++ window bytes (pos + first) second = window bytes pos (first + second) := by
  rw [window, window, window, ← List.drop_drop, ← List.take_add]

theorem readString_spec (done : readString st = some (v, last)) : ReadsAt st .string v last := by
  obtain ⟨⟨chunk, middle⟩, taken, done⟩ := Option.bind_eq_some_iff.mp done
  obtain ⟨inside, rfl, rfl⟩ := readBytes_eq_some.mp taken
  dsimp only at done
  split at done
  · cases done
  · rename_i short
    obtain ⟨⟨content, after⟩, more, ended⟩ := Option.bind_eq_some_iff.mp done
    cases ended
    obtain ⟨within, rfl, rfl⟩ := readBytes_eq_some.mp more
    have whole := putWord_wordOf (window st.buf st.pos 4)
    rw [window_length inside] at whole
    have length := window_length within
    have isBytes : (Value.string (window st.buf (st.pos + 4) (wordOf (window st.buf st.pos 4)))).bytes =
        window st.buf st.pos (4 + wordOf (window st.buf st.pos 4)) := by
      rw [Value.bytes, length, whole, window_append]
    have total : Inside st.buf st.pos (4 + wordOf (window st.buf st.pos 4)) := by
      unfold Inside at within ⊢
      dsimp only at within
      omega
    refine ⟨rfl, ?_, ?_⟩
    · rw [isBytes, window_length total]
    · rw [isBytes, window_length total, Nat.add_assoc]

theorem read_spec (done : read st kind = some (v, last)) : ReadsAt st kind v last := by
  cases kind with
  | int =>
    rw [read, readInt] at done
    exact readScalar_spec done fun chunk length => ⟨rfl, word4 chunk length⟩
  | float =>
    rw [read, readFloat] at done
    exact readScalar_spec done fun chunk length => ⟨rfl, word4 chunk length⟩
  | long =>
    rw [read, readLong] at done
    exact readScalar_spec done fun chunk length => ⟨rfl, word8 chunk length⟩
  | double =>
    rw [read, readDouble] at done
    exact readScalar_spec done fun chunk length => ⟨rfl, word8 chunk length⟩
  | string => exact readString_spec done
  | record size =>
    obtain ⟨⟨bytes, after⟩, taken, made⟩ := Option.map_eq_some_iff.mp done
    cases made
    obtain ⟨inside, rfl, rfl⟩ := readBytes_eq_some.mp taken
    have length := window_length inside
    refine ⟨congrArg Kind.record length, ?_, ?_⟩
    · rw [Value.bytes, length]
    · rw [Value.bytes, length]

theorem readBytes_follows (follows : Follows st.buf st.pos (chunk ++ tail)) :
    readBytes st chunk.length = some (chunk, { st with pos := st.pos + chunk.length }) :=
  readBytes_eq_some.mpr ⟨follows.inside, follows.window_eq, rfl⟩

theorem readScalar_follows {bits : Nat} {make : Nat → Value} (small : bits < 256 ^ width) (follows : Follows st.buf st.pos (putWord width bits ++ tail)) :
    readScalar st width make = some (make bits, { st with pos := st.pos + width }) := by
  have taken := readBytes_follows follows
  rw [putWord_length] at taken
  rw [readScalar, taken, Option.map_some]
  dsimp only
  rw [wordOf_putWord, Nat.mod_eq_of_lt small]

theorem read_follows (short : v.Short) (follows : Follows st.buf st.pos (v.bytes ++ tail)) :
    read st v.kind = some (v, { st with pos := st.pos + v.bytes.length }) := by
  cases v with
  | int bits =>
    rw [Value.kind, read, readInt, readScalar_follows bits.toNat_lt follows, UInt32.ofNat_toNat, Value.bytes, putWord_length]
  | float bits =>
    rw [Value.kind, read, readFloat, readScalar_follows bits.toNat_lt follows, UInt32.ofNat_toNat, Value.bytes, putWord_length]
  | long bits =>
    rw [Value.kind, read, readLong, readScalar_follows bits.toNat_lt follows, UInt64.ofNat_toNat, Value.bytes, putWord_length]
  | double bits =>
    rw [Value.kind, read, readDouble, readScalar_follows bits.toNat_lt follows, UInt64.ofNat_toNat, Value.bytes, putWord_length]
  | string content =>
    have cap : content.length ≤ 16 * 1024 * 1024 := short
    rw [Value.bytes, List.append_assoc] at follows
    have taken := readBytes_follows follows
    have rest := follows.skip (st.pos + 4) (by rw [putWord_length])
    have more := @readBytes_follows { st with pos := st.pos + 4 } content tail rest
    rw [putWord_length] at taken
    have exact_length : wordOf (putWord 4 content.length) = content.length := by
      rw [wordOf_putWord, Nat.mod_eq_of_lt (by omega)]
    have accepted : ¬ (2 ^ 31 ≤ content.length ∨ maxStringLength < content.length) := by
      unfold maxStringLength
      omega
    change readString st = _
    rw [readString, taken]
    change (if 2 ^ 31 ≤ wordOf (putWord 4 content.length) ∨ maxStringLength < wordOf (putWord 4 content.length) then none
      else (readBytes _ (wordOf (putWord 4 content.length)) >>= _)) = _
    rw [exact_length, if_neg accepted, more, Value.bytes, List.length_append, putWord_length, ← Nat.add_assoc]
    rfl
  | record bytes =>
    have taken := readBytes_follows follows
    exact congrArg (Option.map fun taken => (Value.record taken.1, taken.2)) taken

theorem readAll_follows {values : List Value} (short : ∀ v ∈ values, v.Short) (follows : Follows st.buf st.pos (values.flatMap Value.bytes)) :
    readAll (values.map Value.kind) st = some (values, { st with pos := st.buf.length }) := by
  induction values generalizing st with
  | nil =>
    have ended := follows.length_eq
    rw [List.flatMap_nil, List.length_nil, Nat.add_zero] at ended
    rw [ended]
    rfl
  | cons v values ih =>
    rw [List.flatMap_cons] at follows
    have first := read_follows (short v (.head _)) follows
    have others := @ih { st with pos := st.pos + v.bytes.length } (fun other member => short other (.tail _ member)) (follows.skip _ rfl)
    rw [List.map_cons, readAll, first]
    change (readAll _ _ >>= _) = _
    rw [others]
    rfl

end Reads

section Run
variable {s : Session}

structure Kept (s : Session) : Prop where
  inside : s.stream.pos ≤ s.stream.buf.length
  small : s.stream.buf.length < 2 ^ 31
  contents : s.stream.buf = s.written.flatMap Value.bytes
  passed : s.stream.buf.take s.stream.pos = s.passed
  short : ∀ v ∈ s.written, v.Short

theorem write_eq {v : Value} (st : StreamState) (short : v.Short) : write st v = append st v.bytes v.bytes.length := by
  cases v with
  | int | float | long | double | record => simp [write, writeInt, writeFloat, writeLong, writeDouble, writeRecord, Value.bytes]
  | string content =>
    have cap : content.length ≤ 16 * 1024 * 1024 := short
    have size : sizeOfInt content.length = content.length := by
      rw [sizeOfInt, if_pos (by omega), Nat.mod_eq_of_lt (by omega)]
    rw [write, writeString, size, Value.bytes, List.length_append, putWord_length]

theorem step_kept (s : Session) (op : Op) (s' : Session) (kept : Kept s) (met : AtEnd s op) (taken : step s op = some s') : Kept s' := by
  cases op with
  | write v =>
    obtain ⟨ended, short, small⟩ := met
    cases taken
    have shape := write_eq s.stream short
    constructor
    · rw [shape, append, List.length_append]
      exact Nat.add_le_add_right kept.inside _
    · rw [shape, append, List.length_append]
      exact small
    · rw [shape, append, kept.contents, List.flatMap_append, List.flatMap_singleton]
    · have before := kept.passed
      rw [ended, List.take_length] at before
      rw [shape, append, ended, before, ← before, ← List.length_append, List.take_length]
    · intro other member
      rcases List.mem_append.mp member with old | new
      · exact kept.short other old
      · cases List.mem_singleton.mp new
        exact short
  | read kind =>
    obtain ⟨⟨v, stream⟩, done, rfl⟩ := Option.map_eq_some_iff.mp taken
    obtain ⟨-, isBytes, rfl⟩ := read_spec done
    have inside : s.stream.pos + v.bytes.length ≤ s.stream.buf.length := by
      have length := congrArg List.length isBytes
      rw [window, List.length_take, List.length_drop] at length
      have start := kept.inside
      omega
    refine ⟨inside, kept.small, kept.contents, ?_, kept.short⟩
    rw [← kept.passed, List.take_add]
    exact congrArg (s.stream.buf.take s.stream.pos ++ ·) isBytes.symm
  | reset =>
    cases taken
    exact ⟨Nat.zero_le _, kept.small, kept.contents, List.take_zero, kept.short⟩
  | position | length =>
    cases taken
    exact kept

theorem wrap_int32 {n : Nat} (small : n < 2 ^ 31) : ScalarPrim.wrap .int32 n = n := by
  simp [ScalarPrim.wrap, ScalarPrim.span, ScalarPrim.category, ScalarPrim.slotWidth]
  omega

theorem Kept.follows (kept : Kept s) {before after : List Value} (split : s.written = before ++ after) :
    Follows s.stream.buf (before.flatMap Value.bytes).length (after.flatMap Value.bytes) :=
  ⟨_, by rw [kept.contents, split, List.flatMap_append], rfl⟩

theorem Kept.disciplined (kept : Kept s) : Disciplined s where
  inside := kept.inside
  reported := ⟨wrap_int32 (kept.inside.trans_lt kept.small), wrap_int32 kept.small⟩
  contents := kept.contents
  passed := kept.passed
  reads _ _ _ done := read_spec done
  replays before after split pos := by
    have follows := kept.follows split
    rw [← pos] at follows
    exact readAll_follows (fun v member => kept.short v (split ▸ List.mem_append_right _ member)) follows
  afterReset := by
    have follows := kept.follows (List.nil_append s.written).symm
    exact @readAll_follows (reset s.stream) s.written kept.short follows

/-- While all writes are at the end of the buffer, the cursor is disciplined. -/
theorem run_disciplined (run : Run step AtEnd {} s) : Disciplined s := by
  have start : Kept {} := ⟨Nat.zero_le _, by decide, rfl, rfl, nofun⟩
  exact (run.invariant Kept start step_kept).disciplined

def writeAfterReset : List Op := [.write (.int 1), .reset, .write (.int 2)]

theorem writeAfterReset_skips : ∃ s, Run step (fun _ _ => True) {} s ∧ ¬ Disciplined s ∧ s.written = [.int 1, .int 2] ∧
    (read s.stream .int).map (·.1) = some (.int 2) := by
  refine ⟨_, Run.refl.actions (fun _ _ _ => trivial) (rfl : writeAfterReset.foldlM step {} = some _), ?_, rfl, by decide⟩
  intro disciplined
  exact absurd disciplined.passed (by decide)

theorem writeAtEnd_disciplined : ∃ s, Run step AtEnd {} s ∧ Disciplined s ∧ s.written = [.int 1, .int 2] := by
  have rewinds (s : Session) : AtEnd s .reset := trivial
  have reads (s : Session) : AtEnd s (.read .int) := trivial
  have fresh : AtEnd {} (.write (.int 1)) := ⟨rfl, trivial, by decide⟩
  have first : Run step AtEnd {} { stream := ⟨[1, 0, 0, 0], 4⟩, written := [.int 1], passed := [1, 0, 0, 0] } :=
    .tail .refl fresh rfl
  have second : Run step AtEnd {} { stream := ⟨[1, 0, 0, 0], 0⟩, written := [.int 1], passed := [] } :=
    .tail first (rewinds _) rfl
  have third : Run step AtEnd {} { stream := ⟨[1, 0, 0, 0], 4⟩, written := [.int 1], passed := [1, 0, 0, 0] } :=
    .tail second (reads _) rfl
  have atEnd : AtEnd { stream := ⟨[1, 0, 0, 0], 4⟩, written := [.int 1], passed := [1, 0, 0, 0] } (.write (.int 2)) :=
    ⟨rfl, trivial, by decide⟩
  have fourth : Run step AtEnd {} { stream := ⟨[1, 0, 0, 0, 2, 0, 0, 0], 8⟩, written := [.int 1, .int 2], passed := [1, 0, 0, 0, 2, 0, 0, 0] } :=
    .tail third atEnd rfl
  exact ⟨_, fourth, run_disciplined fourth, rfl⟩

end Run

end NLang.Vm.StreamCursor
